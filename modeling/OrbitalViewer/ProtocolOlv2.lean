import OrbitalViewer.Protocol

/-!
# The OLV2 wire protocol

`include/olv/protocol_olv2.hpp`: a datagram carries one target track, 1 to 25
time-stamped points with the satellite and the target at each. Byte helpers,
checksum and object types are those of OLV1.
-/

namespace Olv.Proto.Olv2
open Wire (Byte)
open Ieee (F32 F64 Datum)

def kMagic : List Byte := [0x4F, 0x4C, 0x56, 0x32]
def kVersion : U8 := 1
def kHeaderSize : Nat := 24
def kPointSize : Nat := 84
def kCrcSize : Nat := 4
def kMaxPoints : U8 := 25
def kMinPacketSize : Nat := kHeaderSize + kPointSize + kCrcSize
def kMaxPacketSize : Nat := kHeaderSize + kMaxPoints.toNat * kPointSize + kCrcSize

/-- `MsgType::kTrackUpdate`. -/
def kTrackUpdate : U8 := 1

def kPointSatHasVel : U8 := 0x01
def kPointTgtHasVel : U8 := 0x02

structure Point where
  t : F64 := ⟨0⟩
  flags : U8 := 0
  satPx : F64 := ⟨0⟩
  satPy : F64 := ⟨0⟩
  satPz : F64 := ⟨0⟩
  tgtPx : F64 := ⟨0⟩
  tgtPy : F64 := ⟨0⟩
  tgtPz : F64 := ⟨0⟩
  satVx : F32 := ⟨0⟩
  satVy : F32 := ⟨0⟩
  satVz : F32 := ⟨0⟩
  tgtVx : F32 := ⟨0⟩
  tgtVy : F32 := ⟨0⟩
  tgtVz : F32 := ⟨0⟩
  deriving DecidableEq, Repr

def Point.satHasVelocity (p : Point) : Bool := p.flags &&& kPointSatHasVel ≠ 0
def Point.tgtHasVelocity (p : Point) : Bool := p.flags &&& kPointTgtHasVel ≠ 0

structure TrackPacket where
  sequence : U32 := 0
  trackId : U32 := 0
  satId : U32 := 0
  targetType : U8 := 0
  targetFlags : U8 := 0
  confidence : U8 := 0
  points : List Point := []
  deriving DecidableEq, Repr

inductive DecodeError where
  | kNone | kTooShort | kTooLong | kBadMagic | kBadVersion | kBadMsgType
  | kBadPointCount | kBadLength | kBadCrc | kNonFinite | kOutOfRange | kBadTime
  deriving DecidableEq, Repr

def DecodeError.toString : DecodeError → String
  | kNone => "none"
  | kTooShort => "too_short"
  | kTooLong => "too_long"
  | kBadMagic => "bad_magic"
  | kBadVersion => "bad_version"
  | kBadMsgType => "bad_msg_type"
  | kBadPointCount => "bad_point_count"
  | kBadLength => "bad_length"
  | kBadCrc => "bad_crc"
  | kNonFinite => "non_finite"
  | kOutOfRange => "out_of_range"
  | kBadTime => "bad_time"

/-! ## encode -/

def encodeHeader (pkt : TrackPacket) (count : Nat) : List Byte :=
  kMagic ++ ([kVersion, kTrackUpdate] ++ (putU16 0 ++ (putU32 pkt.sequence ++ (putU32 pkt.trackId ++
    (putU32 pkt.satId ++ [pkt.targetType, pkt.targetFlags &&& kFlagHighlight,
      clampConfidence pkt.confidence, BitVec.ofNat 8 count])))))

def encodePoint (p : Point) : List Byte :=
  putF64 p.t ++ ([p.flags &&& (kPointSatHasVel ||| kPointTgtHasVel), 0, 0, 0] ++
    (putF64 p.satPx ++ (putF64 p.satPy ++ (putF64 p.satPz ++
    (putF64 p.tgtPx ++ (putF64 p.tgtPy ++ (putF64 p.tgtPz ++
    (putF32 p.satVx ++ (putF32 p.satVy ++ (putF32 p.satVz ++
    (putF32 p.tgtVx ++ (putF32 p.tgtVy ++ putF32 p.tgtVz))))))))))))

def encode (pkt : TrackPacket) : List Byte :=
  let count := if pkt.points.length > kMaxPoints.toNat then kMaxPoints.toNat else pkt.points.length
  let out := encodeHeader pkt count ++ (pkt.points.take count).flatMap encodePoint
  out ++ putU32 (crc32 out)

/-! ## decode -/

/-- The header fields after the structural checks. -/
def readHeader (data : List Byte) : Option TrackPacket := do
  let sequence ← getU32 data 8
  let trackId ← getU32 data 12
  let satId ← getU32 data 16
  let type ← data[20]?
  let flags ← data[21]?
  let confidence ← data[22]?
  return {
    sequence, trackId, satId
    targetType := normalizeObjectType type
    targetFlags := flags &&& kFlagHighlight
    confidence := clampConfidence confidence }

/-- The point at `q`. -/
def readPoint (data : List Byte) (q : Nat) : Option Point := do
  let t ← getF64 data (q + 0)
  let flags ← data[q + 8]?
  let satPx ← getF64 data (q + 12)
  let satPy ← getF64 data (q + 20)
  let satPz ← getF64 data (q + 28)
  let tgtPx ← getF64 data (q + 36)
  let tgtPy ← getF64 data (q + 44)
  let tgtPz ← getF64 data (q + 52)
  let satVx ← getF32 data (q + 60)
  let satVy ← getF32 data (q + 64)
  let satVz ← getF32 data (q + 68)
  let tgtVx ← getF32 data (q + 72)
  let tgtVy ← getF32 data (q + 76)
  let tgtVz ← getF32 data (q + 80)
  return {
    t, satPx, satPy, satPz, tgtPx, tgtPy, tgtPz, satVx, satVy, satVz, tgtVx, tgtVy, tgtVz
    flags := flags &&& (kPointSatHasVel ||| kPointTgtHasVel) }

def pointError (p : Point) : Option DecodeError :=
  if !finiteAll [p.t.datum, p.satPx.datum, p.satPy.datum, p.satPz.datum,
      p.tgtPx.datum, p.tgtPy.datum, p.tgtPz.datum, p.satVx.datum, p.satVy.datum, p.satVz.datum,
      p.tgtVx.datum, p.tgtVy.datum, p.tgtVz.datum] then some .kNonFinite
  else if !inCoordRange p.satPx p.satPy p.satPz || !inCoordRange p.tgtPx p.tgtPy p.tgtPz then
    some .kOutOfRange
  else none

/-- The ordering loop; `prev` is the time of the point before, when there is one. -/
def timeError (prev : Option F64) : List Point → Option DecodeError
  | [] => none
  | p :: ps =>
    if p.t.datum.le (.fin false 0) then some .kBadTime
    else if prev.any fun q => p.t.datum.le q.datum then some .kBadTime
    else timeError (some p.t) ps

/-- `decode` returns the error and what it leaves in the caller's `out`. -/
def decode (data : List Byte) (out : TrackPacket) : Option (DecodeError × TrackPacket) := do
  if data.length < kMinPacketSize then some (.kTooShort, out) else do
  if data.length > kMaxPacketSize then some (.kTooLong, out) else do
  let magic ← Wire.read data 0 4
  if magic ≠ kMagic then some (.kBadMagic, out) else do
  let version ← data[4]?
  if version ≠ kVersion then some (.kBadVersion, out) else do
  let msgType ← data[5]?
  if msgType ≠ kTrackUpdate then some (.kBadMsgType, out) else do
  let count ← data[23]?
  if count = 0 ∨ count > kMaxPoints then some (.kBadPointCount, out) else do
  if data.length ≠ kHeaderSize + count.toNat * kPointSize + kCrcSize then
    some (.kBadLength, out) else do
  let wireCrc ← getU32 data (data.length - kCrcSize)
  let body ← Wire.read data 0 (data.length - kCrcSize)
  if crc32 body ≠ wireCrc then some (.kBadCrc, out) else do
  let pkt ← readHeader data
  match ← Wire.collect (fun i => readPoint data (kHeaderSize + i * kPointSize)) pointError
      count.toNat 0 [] with
  | .error e => some (e, out)
  | .ok points =>
    match timeError none points with
    | some e => some (e, out)
    | none => some (.kNone, { pkt with points })

end Olv.Proto.Olv2
