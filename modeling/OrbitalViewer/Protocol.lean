import OrbitalViewer.Lib.Crc
import OrbitalViewer.Lib.Ieee

/-!
# The OLV1 wire protocol

`include/olv/protocol.hpp`: the packet types, the CRC-32, `encode` and
`decode`. A read is checked: `decode` answers `none` exactly when the code
would have read a byte past the end of the datagram.
-/

namespace Olv

abbrev U8 := BitVec 8
abbrev U16 := BitVec 16
abbrev U32 := BitVec 32
abbrev U64 := BitVec 64

namespace Proto
open Wire (Byte)
open Ieee (F32 F64 Datum)

def kMagic : List Byte := [0x4F, 0x4C, 0x56, 0x31]
def kVersion : U8 := 1
def kHeaderSize : Nat := 56
def kRecordSize : Nat := 48
def kCrcSize : Nat := 4
def kMaxObjectsPerPacket : U16 := 128
def kMaxTrackedObjects : U16 := 5000
def kMinPacketSize : Nat := kHeaderSize + kCrcSize
def kMaxPacketSize : Nat := kHeaderSize + kMaxObjectsPerPacket.toNat * kRecordSize + kCrcSize

/-- 1e13, which a `double` holds exactly. -/
def kMaxCoordinateMeters : Datum := .fin false (10 ^ 13)

/-- `MsgType::kStateUpdate`. -/
def kStateUpdate : U8 := 1

inductive ObjectType where
  | kUnknown | kDebris | kStar | kComet | kSatellite | kGroundHot
  deriving DecidableEq, Repr

/-- The enumerator's value. -/
def ObjectType.value : ObjectType → U8
  | kUnknown => 0
  | kDebris => 1
  | kStar => 2
  | kComet => 3
  | kSatellite => 4
  | kGroundHot => 5

def ObjectType.toString : ObjectType → String
  | kUnknown => "unknown"
  | kDebris => "debris"
  | kStar => "star"
  | kComet => "comet"
  | kSatellite => "satellite"
  | kGroundHot => "ground_hot"

def isKnownObjectType (t : U8) : Bool := t ≤ 5

def normalizeObjectType (t : U8) : U8 :=
  if isKnownObjectType t then t else ObjectType.kUnknown.value

def kFlagHasVelocity : U8 := 0x01
def kFlagHighlight : U8 := 0x02

structure ObjectRecord where
  id : U32 := 0
  type : U8 := 0
  flags : U8 := 0
  confidence : U8 := 0
  px : F64 := ⟨0⟩
  py : F64 := ⟨0⟩
  pz : F64 := ⟨0⟩
  vx : F32 := ⟨0⟩
  vy : F32 := ⟨0⟩
  vz : F32 := ⟨0⟩
  intensity : F32 := ⟨0⟩
  deriving DecidableEq, Repr

def ObjectRecord.hasVelocity (r : ObjectRecord) : Bool := r.flags &&& kFlagHasVelocity ≠ 0

structure StatePacket where
  sequence : U32 := 0
  satId : U32 := 0
  satPx : F64 := ⟨0⟩
  satPy : F64 := ⟨0⟩
  satPz : F64 := ⟨0⟩
  satVx : F32 := ⟨0⟩
  satVy : F32 := ⟨0⟩
  satVz : F32 := ⟨0⟩
  objectTotal : U16 := 0
  objects : List ObjectRecord := []
  deriving DecidableEq, Repr

inductive DecodeError where
  | kNone | kTooShort | kTooLong | kBadMagic | kBadVersion | kBadMsgType
  | kTooManyObjects | kBadLength | kBadCrc | kNonFinite | kOutOfRange
  deriving DecidableEq, Repr

def DecodeError.toString : DecodeError → String
  | kNone => "none"
  | kTooShort => "too_short"
  | kTooLong => "too_long"
  | kBadMagic => "bad_magic"
  | kBadVersion => "bad_version"
  | kBadMsgType => "bad_msg_type"
  | kTooManyObjects => "too_many_objects"
  | kBadLength => "bad_length"
  | kBadCrc => "bad_crc"
  | kNonFinite => "non_finite"
  | kOutOfRange => "out_of_range"

/-! ## CRC-32 -/

def kPoly : U32 := 0xEDB88320

def makeCrcTable : List U32 :=
  (List.range 256).map fun i =>
    Nat.repeat (fun c => if c &&& 1 ≠ 0 then kPoly ^^^ (c >>> 1) else c >>> 1) 8 (BitVec.ofNat 32 i)

def kCrcTable : List U32 := makeCrcTable

def crcByte (c : U32) (b : Byte) : U32 :=
  kCrcTable.getD ((c ^^^ b.setWidth 32) &&& 0xFF).toNat 0 ^^^ (c >>> 8)

def crc32 (data : List Byte) : U32 := data.foldl crcByte 0xFFFFFFFF ^^^ 0xFFFFFFFF

/-! ## Little-endian byte I/O -/

def putU16 (v : U16) : List Byte := [(v &&& 0xFF).setWidth 8, ((v >>> 8) &&& 0xFF).setWidth 8]

def putU32 (v : U32) : List Byte :=
  [(v &&& 0xFF).setWidth 8, ((v >>> 8) &&& 0xFF).setWidth 8,
    ((v >>> 16) &&& 0xFF).setWidth 8, ((v >>> 24) &&& 0xFF).setWidth 8]

def putU64 (v : U64) : List Byte :=
  [0, 1, 2, 3, 4, 5, 6, 7].map fun i => ((v >>> (8 * i)) &&& 0xFF).setWidth 8

def putF32 (v : F32) : List Byte := putU32 v.bits
def putF64 (v : F64) : List Byte := putU64 v.bits

def getU16 (data : List Byte) (p : Nat) : Option U16 := do
  let b0 ← data[p]?
  let b1 ← data[p + 1]?
  return b0.setWidth 16 ||| b1.setWidth 16 <<< 8

def getU32 (data : List Byte) (p : Nat) : Option U32 := do
  let b0 ← data[p]?
  let b1 ← data[p + 1]?
  let b2 ← data[p + 2]?
  let b3 ← data[p + 3]?
  return b0.setWidth 32 ||| b1.setWidth 32 <<< 8 ||| b2.setWidth 32 <<< 16 |||
    b3.setWidth 32 <<< 24

def getU64 (data : List Byte) (p : Nat) : Option U64 :=
  [7, 6, 5, 4, 3, 2, 1, 0].foldlM (fun v i => do
    let b ← data[p + i]?
    return v <<< 8 ||| b.setWidth 64) 0

def getF32 (data : List Byte) (p : Nat) : Option F32 := (getU32 data p).map F32.mk
def getF64 (data : List Byte) (p : Nat) : Option F64 := (getU64 data p).map F64.mk

def finiteAll (vs : List Datum) : Bool := vs.all Datum.isFinite

def inCoordRange (x y z : F64) : Bool :=
  x.datum.abs.le kMaxCoordinateMeters && y.datum.abs.le kMaxCoordinateMeters &&
    z.datum.abs.le kMaxCoordinateMeters

/-! ## encode -/

/-- Confidence clamped to 100. -/
def clampConfidence (c : U8) : U8 := if c > 100 then 100 else c

def encodeHeader (pkt : StatePacket) (count : Nat) : List Byte :=
  kMagic ++ ([kVersion, kStateUpdate] ++ (putU16 0 ++ (putU32 pkt.sequence ++ (putU32 pkt.satId ++
    (putF64 pkt.satPx ++ (putF64 pkt.satPy ++ (putF64 pkt.satPz ++
    (putF32 pkt.satVx ++ (putF32 pkt.satVy ++ (putF32 pkt.satVz ++
    (putU16 (BitVec.ofNat 16 count) ++
      putU16 (if pkt.objectTotal > kMaxTrackedObjects then kMaxTrackedObjects
        else pkt.objectTotal))))))))))))

def encodeRecord (r : ObjectRecord) : List Byte :=
  putU32 r.id ++ ([r.type, r.flags, clampConfidence r.confidence, 0] ++
    (putF64 r.px ++ (putF64 r.py ++ (putF64 r.pz ++
    (putF32 r.vx ++ (putF32 r.vy ++ (putF32 r.vz ++ putF32 r.intensity)))))))

def encode (pkt : StatePacket) : List Byte :=
  let count := if pkt.objects.length > kMaxObjectsPerPacket.toNat
    then kMaxObjectsPerPacket.toNat else pkt.objects.length
  let out := encodeHeader pkt count ++ (pkt.objects.take count).flatMap encodeRecord
  out ++ putU32 (crc32 out)

/-! ## decode -/

/-- The header fields after the structural checks. -/
def readHeader (data : List Byte) (total : U16) : Option StatePacket := do
  let sequence ← getU32 data 8
  let satId ← getU32 data 12
  let satPx ← getF64 data 16
  let satPy ← getF64 data 24
  let satPz ← getF64 data 32
  let satVx ← getF32 data 40
  let satVy ← getF32 data 44
  let satVz ← getF32 data 48
  return { sequence, satId, satPx, satPy, satPz, satVx, satVy, satVz, objectTotal := total }

def headerError (pkt : StatePacket) : Option DecodeError :=
  if !finiteAll [pkt.satPx.datum, pkt.satPy.datum, pkt.satPz.datum,
      pkt.satVx.datum, pkt.satVy.datum, pkt.satVz.datum] then some .kNonFinite
  else if !inCoordRange pkt.satPx pkt.satPy pkt.satPz then some .kOutOfRange
  else none

/-- The record at `p`. -/
def readRecord (data : List Byte) (p : Nat) : Option ObjectRecord := do
  let id ← getU32 data (p + 0)
  let type ← data[p + 4]?
  let flags ← data[p + 5]?
  let confidence ← data[p + 6]?
  let px ← getF64 data (p + 8)
  let py ← getF64 data (p + 16)
  let pz ← getF64 data (p + 24)
  let vx ← getF32 data (p + 32)
  let vy ← getF32 data (p + 36)
  let vz ← getF32 data (p + 40)
  let intensity ← getF32 data (p + 44)
  return {
    id, px, py, pz, vx, vy, vz, flags, intensity
    type := normalizeObjectType type
    confidence := clampConfidence confidence }

def recordError (r : ObjectRecord) : Option DecodeError :=
  if !finiteAll [r.px.datum, r.py.datum, r.pz.datum,
      r.vx.datum, r.vy.datum, r.vz.datum, r.intensity.datum] then some .kNonFinite
  else if !inCoordRange r.px r.py r.pz then some .kOutOfRange
  else none

/-- `decode` returns the error and what it leaves in the caller's `out`. -/
def decode (data : List Byte) (out : StatePacket) : Option (DecodeError × StatePacket) := do
  if data.length < kMinPacketSize then some (.kTooShort, out) else do
  if data.length > kMaxPacketSize then some (.kTooLong, out) else do
  let magic ← Wire.read data 0 4
  if magic ≠ kMagic then some (.kBadMagic, out) else do
  let version ← data[4]?
  if version ≠ kVersion then some (.kBadVersion, out) else do
  let msgType ← data[5]?
  if msgType ≠ kStateUpdate then some (.kBadMsgType, out) else do
  let count ← getU16 data 52
  let total ← getU16 data 54
  if count > kMaxObjectsPerPacket ∨ total > kMaxTrackedObjects ∨ count > total then
    some (.kTooManyObjects, out) else do
  if data.length ≠ kHeaderSize + count.toNat * kRecordSize + kCrcSize then
    some (.kBadLength, out) else do
  let wireCrc ← getU32 data (data.length - kCrcSize)
  let body ← Wire.read data 0 (data.length - kCrcSize)
  if crc32 body ≠ wireCrc then some (.kBadCrc, out) else do
  let pkt ← readHeader data total
  match headerError pkt with
  | some e => some (e, out)
  | none =>
    match ← Wire.collect (fun i => readRecord data (kHeaderSize + i * kRecordSize)) recordError
        count.toNat 0 [] with
    | .error e => some (e, out)
    | .ok objects => some (.kNone, { pkt with objects })

end Proto
end Olv
