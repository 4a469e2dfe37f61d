import OrbitalViewer.Olv1InputSource
import OrbitalViewer.Olv2InputSource
import OrbitalViewer.ProtocolFields

/-!
# The DIS source

`DisInputSource::processDatagram`. What open-dis makes of an Entity State PDU is
a parameter, `unmarshal`: `none` when it throws. At the end the three sources under
the mode that chooses one, `makeInputSource` of `input_source.cpp`.
-/

namespace Olv.DisInputSource
open Wire (Byte)
open Ieee (F32 F64)
open Proto (byteAt ObjectType)

/-- The fields of `DIS::EntityStatePdu` the source reads. -/
structure EntityStatePdu where
  site : U16
  application : U16
  entity : U16
  kind : U8
  domain : U8
  x : F64
  y : F64
  z : F64
  vx : F32
  vy : F32
  vz : F32

/-- The exercise filter and the parsed `satellite_entity_id`. -/
structure Config where
  exerciseId : Option U8 := none
  satSite : U16
  satApp : U16
  satEntity : U16

structure Memory where
  lastTs : AList (fun _ : U64 => U32) := ∅
  objectFold : AList (fun _ : U32 => U64) := ∅
  sat : SatelliteState := {}
  seq : U32 := 0

def kDisHeaderSize : Nat := 12
def kEntityStatePduType : U8 := 1
def kMinProtocolVersion : U8 := 5
def kMaxProtocolVersion : U8 := 7

/-- The big-endian word at `p`. -/
def beU32 (data : List Byte) (p : Nat) : U32 :=
  (byteAt data p).setWidth 32 <<< 24 ||| (byteAt data (p + 1)).setWidth 32 <<< 16 |||
    (byteAt data (p + 2)).setWidth 32 <<< 8 ||| (byteAt data (p + 3)).setWidth 32

def pack48 (site app entity : U16) : U64 :=
  site.setWidth 64 <<< 32 ||| app.setWidth 64 <<< 16 ||| entity.setWidth 64

def unpack48 (packed : U64) : U16 × U16 × U16 :=
  (((packed >>> 32) &&& 0xFFFF).setWidth 16, ((packed >>> 16) &&& 0xFFFF).setWidth 16,
    (packed &&& 0xFFFF).setWidth 16)

/-- FNV-1a over the six big-endian bytes of the id. -/
def foldEntityId (site app entity : U16) : U32 :=
  let bytes : List Byte := [(site >>> 8).setWidth 8, (site &&& 0xFF).setWidth 8,
    (app >>> 8).setWidth 8, (app &&& 0xFF).setWidth 8,
    (entity >>> 8).setWidth 8, (entity &&& 0xFF).setWidth 8]
  bytes.foldl (fun h b => (h ^^^ b.setWidth 32) * 16777619) 2166136261

def mapObjectType (kind domain : U8) : ObjectType :=
  if kind = 1 ∧ domain = 5 then .kSatellite
  else if kind = 1 ∧ domain = 1 then .kGroundHot
  else if kind = 3 ∧ domain = 1 then .kGroundHot
  else if kind = 2 then .kComet
  else if kind = 0 ∧ domain = 5 then .kDebris
  else .kUnknown

def entityIdString (site app entity : U16) : String :=
  toString site.toNat ++ ":" ++ toString app.toNat ++ ":" ++ toString entity.toNat

/-- The staleness test records a time stamp that is not stale as it goes. -/
def isStale (packed : U64) (ts : U32) (lastTs : AList (fun _ : U64 => U32)) :
    Bool × AList (fun _ : U64 => U32) :=
  match lastTs.lookup packed with
  | none => (false, lastTs.insert packed ts)
  | some last =>
    if ts = 0 then (false, lastTs.insert packed ts)
    else if ts ≥ last then (false, lastTs.insert packed ts)
    else if last - ts ≥ (1 : U32) <<< 30 then (false, lastTs.insert packed ts)
    else (true, lastTs)

variable (unmarshal : List Byte → Option EntityStatePdu) (cfg : Config)

def isSatellite (pdu : EntityStatePdu) : Bool :=
  pdu.site = cfg.satSite && pdu.application = cfg.satApp && pdu.entity = cfg.satEntity

def folded (pdu : EntityStatePdu) : U32 := foldEntityId pdu.site pdu.application pdu.entity

def packed (pdu : EntityStatePdu) : U64 := pack48 pdu.site pdu.application pdu.entity

def satelliteOf (pdu : EntityStatePdu) (seq : U32) : SatelliteState :=
  ⟨folded pdu, seq, pdu.x, pdu.y, pdu.z, pdu.vx, pdu.vy, pdu.vz⟩

def recordOf (pdu : EntityStatePdu) : Proto.ObjectRecord where
  id := folded pdu
  type := (mapObjectType pdu.kind pdu.domain).value
  flags := Proto.kFlagHasVelocity
  confidence := 100
  intensity := ⟨0⟩
  px := pdu.x
  py := pdu.y
  pz := pdu.z
  vx := pdu.vx
  vy := pdu.vy
  vz := pdu.vz

/-- The fold-collision check: the newer entity takes the id over. -/
def claimFold (pdu : EntityStatePdu) (fold : AList (fun _ : U32 => U64)) :
    List LogLine × AList (fun _ : U32 => U64) :=
  match fold.lookup (folded pdu) with
  | none => ([], fold.insert (folded pdu) (packed pdu))
  | some prev =>
    if prev ≠ packed pdu then
      let (ps, pa, pe) := unpack48 prev
      ([⟨.kWarn, "dis", "fold collision folded=" ++ toString (folded pdu).toNat ++
          " entity=" ++ entityIdString pdu.site pdu.application pdu.entity ++
          " prev=" ++ entityIdString ps pa pe⟩],
        fold.insert (folded pdu) (packed pdu))
    else ([], fold)

/-- The packet handed to the store: the object, if it is one, and the last
known satellite. -/
def packetOf (seq : U32) (sat : SatelliteState) (objects : List Proto.ObjectRecord)
    (foldSize : Nat) : Proto.StatePacket where
  sequence := seq
  satId := sat.id
  satPx := sat.px
  satPy := sat.py
  satPz := sat.pz
  satVx := sat.vx
  satVy := sat.vy
  satVz := sat.vz
  objectTotal := BitVec.ofNat 16 (min foldSize Proto.kMaxTrackedObjects.toNat)
  objects

/-- An Entity State PDU that passed the staleness test. -/
def acceptPdu (pdu : EntityStatePdu) (d : Datagram) (m : Memory) (store : StateStore) :
    Processed Memory :=
  let idstr := entityIdString pdu.site pdu.application pdu.entity
  let seq := m.seq + 1
  let satellite := isSatellite cfg pdu
  let sat := if satellite then satelliteOf pdu seq else m.sat
  let (warnings, fold) := if satellite then ([], m.objectFold) else claimFold pdu m.objectFold
  let pkt := packetOf seq sat (if satellite then [] else [recordOf pdu]) fold.entries.length
  { outcome := .accepted
    log := warnings ++ [⟨.kDebug, "dis", "accepted seq=" ++ toString seq.toNat ++
      " entity=" ++ idstr ++
      (if satellite then " satellite"
        else " type=" ++ (mapObjectType pdu.kind pdu.domain).toString) ++
      " total=" ++ toString pkt.objectTotal.toNat ++ " from=" ++ d.sender⟩]
    memory := { m with objectFold := fold, sat, seq }
    store := (store.apply pkt d.wall d.mono).2 }

def processDatagram (d : Datagram) (m : Memory) (store : StateStore) : Processed Memory :=
  let store := store.countReceived d.bytes.length
  let len := toString d.bytes.length
  if d.bytes.length < kDisHeaderSize then
    { outcome := .malformed "too_short"
      log := [⟨.kWarn, "dis", "dropped too_short len=" ++ len ++ " from=" ++ d.sender⟩]
      memory := m
      store := store.countDropped .kMalformed }
  else
    let version := byteAt d.bytes 0
    let exercise := byteAt d.bytes 1
    let pduType := byteAt d.bytes 2
    let timestamp := beU32 d.bytes 4
    if version < kMinProtocolVersion ∨ version > kMaxProtocolVersion then
      { outcome := .malformed "bad_version"
        log := [⟨.kWarn, "dis", "dropped bad_version version=" ++ toString version.toNat ++
          " from=" ++ d.sender⟩]
        memory := m
        store := store.countDropped .kMalformed }
    else if cfg.exerciseId.any fun id => exercise ≠ id then
      { outcome := .filtered
        log := [⟨.kDebug, "dis", "filtered exercise=" ++ toString exercise.toNat ++
          " from=" ++ d.sender⟩]
        memory := m
        store }
    else if pduType ≠ kEntityStatePduType then
      { outcome := .ignored
        log := [⟨.kDebug, "dis", "ignored pdu kind=" ++ toString pduType.toNat ++
          " from=" ++ d.sender⟩]
        memory := m
        store }
    else
      match unmarshal d.bytes with
      | none =>
        { outcome := .malformed "malformed_body"
          log := [⟨.kWarn, "dis", "dropped malformed_body len=" ++ len ++ " from=" ++ d.sender⟩]
          memory := m
          store := store.countDropped .kMalformed }
      | some pdu =>
        -- The low bit of the time stamp is the absolute/relative flag.
        let ts := timestamp >>> 1
        let (stale, lastTs) := isStale (packed pdu) ts m.lastTs
        let m := { m with lastTs }
        if stale then
          { outcome := .stale
            log := [⟨.kDebug, "dis", "dropped stale ts=" ++ toString ts.toNat ++
              " entity=" ++ entityIdString pdu.site pdu.application pdu.entity⟩]
            memory := m
            store := store.countDropped .kStale }
        else acceptPdu cfg pdu d m store

/-- The header is one the source translates. -/
def headerPasses (d : List Byte) : Bool :=
  kDisHeaderSize ≤ d.length && kMinProtocolVersion ≤ byteAt d 0 &&
    byteAt d 0 ≤ kMaxProtocolVersion && !(cfg.exerciseId.any fun id => byteAt d 1 ≠ id) &&
    byteAt d 2 = kEntityStatePduType

/-- The time stamp without its absolute/relative flag. -/
def stampOf (d : List Byte) : U32 := beU32 d 4 >>> 1

/-- The PDU of a datagram that passes every check. -/
def admitted (d : List Byte) (m : Memory) : Option EntityStatePdu :=
  if headerPasses cfg d then
    (unmarshal d).filter fun pdu => !(isStale (packed pdu) (stampOf d) m.lastTs).1
  else none

/-- Valid traffic the source does not consume: of another exercise, or of
another kind. -/
def ignored (d : List Byte) : Bool :=
  kDisHeaderSize ≤ d.length && kMinProtocolVersion ≤ byteAt d 0 &&
    byteAt d 0 ≤ kMaxProtocolVersion &&
    ((cfg.exerciseId.any fun id => byteAt d 1 ≠ id) || byteAt d 2 ≠ kEntityStatePduType)

/-- How a datagram that is not admitted is counted, if it is. -/
def dropKind (d : List Byte) : Option DropKind :=
  if ignored cfg d then none
  else if headerPasses cfg d && (unmarshal d).isSome then some .kStale
  else some .kMalformed

/-- The satellite carried along once `pdu` is accepted. -/
def satelliteAfter (pdu : EntityStatePdu) (m : Memory) : SatelliteState :=
  if isSatellite cfg pdu then satelliteOf pdu (m.seq + 1) else m.sat

/-- The object records of the packet synthesized for `pdu`. -/
def recordsOf (pdu : EntityStatePdu) : List Proto.ObjectRecord :=
  if isSatellite cfg pdu then [] else [recordOf pdu]

/-- The folded ids in use once `pdu` is accepted. -/
def foldAfter (pdu : EntityStatePdu) (m : Memory) : AList (fun _ : U32 => U64) :=
  if isSatellite cfg pdu then m.objectFold else (claimFold pdu m.objectFold).2

/-- The packet synthesized for `pdu`. -/
def packetFor (pdu : EntityStatePdu) (m : Memory) : Proto.StatePacket :=
  packetOf (m.seq + 1) (satelliteAfter cfg pdu m) (recordsOf cfg pdu)
    (foldAfter cfg pdu m).entries.length

def memoryAfter (pdu : EntityStatePdu) (m : Memory) : Memory :=
  { m with
    objectFold := foldAfter cfg pdu m
    sat := satelliteAfter cfg pdu m
    seq := m.seq + 1 }

theorem acceptPdu_eq (pdu : EntityStatePdu) (d : Datagram) (m : Memory) : ∃ log, ∀ store,
    acceptPdu cfg pdu d m store = ⟨.accepted, log, memoryAfter cfg pdu m,
      (store.apply (packetFor cfg pdu m) d.wall d.mono).2⟩ := by
  unfold acceptPdu packetFor memoryAfter satelliteAfter recordsOf foldAfter
  cases isSatellite cfg pdu with
  | true => exact ⟨_, fun _ => rfl⟩
  | false => exact ⟨_, fun _ => rfl⟩

theorem isStale_eq (packed : U64) (ts : U32) (lastTs : AList (fun _ : U64 => U32)) :
    isStale packed ts lastTs = ((isStale packed ts lastTs).1,
      if (isStale packed ts lastTs).1 then lastTs else lastTs.insert packed ts) := by
  unfold isStale
  cases lastTs.lookup packed with
  | none => rfl
  | some last =>
    dsimp only
    split
    · rfl
    split
    · rfl
    split
    · rfl
    · rfl

theorem headerPasses_iff {d : List Byte} : headerPasses cfg d = true ↔
    ¬ d.length < kDisHeaderSize ∧
      ¬ (byteAt d 0 < kMinProtocolVersion ∨ byteAt d 0 > kMaxProtocolVersion) ∧
      ¬ (cfg.exerciseId.any fun id => byteAt d 1 ≠ id) = true ∧
      ¬ byteAt d 2 ≠ kEntityStatePduType := by
  simp only [headerPasses, Bool.and_eq_true, decide_eq_true_eq, Bool.not_eq_true', not_or, not_lt,
    gt_iff_lt, BitVec.not_lt, Bool.not_eq_true, ne_eq, not_not, and_assoc]

theorem ignored_passes {d : List Byte} (h : headerPasses cfg d = true) :
    ignored cfg d = false := by
  obtain ⟨_, _, h3, h4⟩ := (headerPasses_iff cfg).mp h
  simp only [ignored, h3, h4]
  simp

/-- A datagram whose header does not pass is refused whatever the store holds. -/
theorem header_refused {d : Datagram} (h : headerPasses cfg d.bytes = false) (m : Memory) :
    ∃ o log, o ≠ .accepted ∧ ∀ store, processDatagram unmarshal cfg d m store =
      refused o log (dropKind unmarshal cfg d.bytes) m (store.countReceived d.bytes.length) := by
  by_cases h1 : d.bytes.length < kDisHeaderSize
  · have hdrop : dropKind unmarshal cfg d.bytes = some .kMalformed := by
      simp [dropKind, ignored, headerPasses, h1]
    exact ⟨.malformed "too_short", _, by simp,
      fun store => by simp only [processDatagram, if_pos h1, hdrop]; rfl⟩
  by_cases h2 : byteAt d.bytes 0 < kMinProtocolVersion ∨ byteAt d.bytes 0 > kMaxProtocolVersion
  · have hdrop : dropKind unmarshal cfg d.bytes = some .kMalformed := by
      rcases h2 with h2 | h2 <;> simp [dropKind, ignored, headerPasses, h2]
    exact ⟨.malformed "bad_version", _, by simp,
      fun store => by simp only [processDatagram, if_neg h1, if_pos h2, hdrop]; rfl⟩
  have hframe : kDisHeaderSize ≤ d.bytes.length ∧ kMinProtocolVersion ≤ byteAt d.bytes 0 ∧
      byteAt d.bytes 0 ≤ kMaxProtocolVersion := by
    simp only [not_or, gt_iff_lt, BitVec.not_lt, not_lt] at h1 h2
    exact ⟨h1, h2⟩
  by_cases h3 : cfg.exerciseId.any fun id => byteAt d.bytes 1 ≠ id
  · have hdrop : dropKind unmarshal cfg d.bytes = none :=
      if_pos (by simp only [ignored, hframe, h3]; rfl)
    exact ⟨.filtered, _, by simp,
      fun store => by simp only [processDatagram, if_neg h1, if_neg h2, if_pos h3, hdrop]; rfl⟩
  by_cases h4 : byteAt d.bytes 2 ≠ kEntityStatePduType
  · have hdrop : dropKind unmarshal cfg d.bytes = none :=
      if_pos (by simp [ignored, hframe, h4])
    exact ⟨.ignored, _, by simp, fun store => by
      simp only [processDatagram, if_neg h1, if_neg h2, if_neg h3, if_pos h4, hdrop]; rfl⟩
  rw [(headerPasses_iff cfg).mpr ⟨h1, h2, h3, h4⟩] at h
  cases h

/-- A datagram is refused whatever the store holds, or its PDU is accepted. -/
theorem processDatagram_cases (d : Datagram) (m : Memory) :
    (admitted unmarshal cfg d.bytes m = none ∧ ∃ o log, o ≠ .accepted ∧ ∀ store,
      processDatagram unmarshal cfg d m store =
        refused o log (dropKind unmarshal cfg d.bytes) m (store.countReceived d.bytes.length)) ∨
    (∃ pdu, admitted unmarshal cfg d.bytes m = some pdu ∧ ∀ store,
      processDatagram unmarshal cfg d m store =
        acceptPdu cfg pdu d { m with lastTs := m.lastTs.insert (packed pdu) (stampOf d.bytes) }
          (store.countReceived d.bytes.length)) := by
  cases hheader : headerPasses cfg d.bytes with
  | false =>
    have hadmitted : admitted unmarshal cfg d.bytes m = none := by
      rw [admitted, hheader]
      rfl
    exact .inl ⟨hadmitted, header_refused unmarshal cfg hheader m⟩
  | true =>
    obtain ⟨h1, h2, h3, h4⟩ := (headerPasses_iff cfg).mp hheader
    have hconsumed := ignored_passes cfg hheader
    cases hpdu : unmarshal d.bytes with
    | none =>
      have hdrop : dropKind unmarshal cfg d.bytes = some .kMalformed := by
        simp [dropKind, hconsumed, hpdu]
      exact .inl ⟨by simp [admitted, hpdu], .malformed "malformed_body", _, by simp,
        fun store => by
          simp only [processDatagram, if_neg h1, if_neg h2, if_neg h3, if_neg h4, hpdu, hdrop]
          rfl⟩
    | some pdu =>
      have hdrop : dropKind unmarshal cfg d.bytes = some .kStale := by
        simp [dropKind, hconsumed, hheader, hpdu]
      have heq := isStale_eq (packed pdu) (stampOf d.bytes) m.lastTs
      have hadmitted : admitted unmarshal cfg d.bytes m =
          if (isStale (packed pdu) (stampOf d.bytes) m.lastTs).1 then none else some pdu := by
        simp only [admitted, hheader, if_true, hpdu, Option.filter_some]
        cases (isStale (packed pdu) (stampOf d.bytes) m.lastTs).1 <;> rfl
      rw [hadmitted, hdrop]
      cases hs : (isStale (packed pdu) (stampOf d.bytes) m.lastTs).1 with
      | true =>
        rw [hs, if_pos rfl] at heq
        exact .inl ⟨rfl, .stale, _, by simp, fun store => by
          simp only [processDatagram, if_neg h1, if_neg h2, if_neg h3, if_neg h4, hpdu]
          rw [show beU32 d.bytes 4 >>> 1 = stampOf d.bytes from rfl, heq]
          rfl⟩
      | false =>
        rw [hs, if_neg (by decide)] at heq
        refine .inr ⟨pdu, rfl, fun store => ?_⟩
        simp only [processDatagram, if_neg h1, if_neg h2, if_neg h3, if_neg h4, hpdu]
        rw [show beU32 d.bytes 4 >>> 1 = stampOf d.bytes from rfl, heq]
        rfl

end Olv.DisInputSource

namespace Olv

def disInputSource (unmarshal : List Wire.Byte → Option DisInputSource.EntityStatePdu)
    (cfg : DisInputSource.Config) : InputSource where
  Memory := DisInputSource.Memory
  init := {}
  processDatagram := DisInputSource.processDatagram unmarshal cfg

/-! ## The configured source -/

inductive InputMode where
  | kOlv1 | kDis | kOlv2
  deriving DecidableEq, Repr

/-- The part of the configuration that decides what a datagram does. -/
structure InputConfig where
  inputMode : InputMode
  dis : DisInputSource.Config := { satSite := 0, satApp := 0, satEntity := 0 }

/-- Exactly one source runs, chosen at boot. -/
def makeInputSource (unmarshal : List Wire.Byte → Option DisInputSource.EntityStatePdu)
    (cfg : InputConfig) : InputSource :=
  match cfg.inputMode with
  | .kOlv1 => olv1InputSource
  | .kDis => disInputSource unmarshal cfg.dis
  | .kOlv2 => olv2InputSource

end Olv
