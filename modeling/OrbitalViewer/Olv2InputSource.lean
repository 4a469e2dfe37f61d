import OrbitalViewer.InputSource
import OrbitalViewer.Lib.Decimal
import OrbitalViewer.ProtocolOlv2Decode

/-!
# The OLV2 source

`Olv2InputSource::processDatagram`: per-track staleness by sample time, then the
newest point becomes the object row and the satellite, and every point a trail
point. A decoded packet has a point, so the defaults of `headD` and `getLastD`
are never taken.
-/

namespace Olv.Olv2InputSource
open Ieee (F32 F64)
open Proto.Olv2 (TrackPacket Point)

structure Memory where
  lastT : AList (fun _ : U32 => F64) := ∅
  lastSatId : Option U32 := none

/-- `%.3f` into 64 bytes, one of them the terminator. -/
def formatTime (t : F64) : String := String.ofList ((Decimal.fixed 3 t.datum).take 63)

def newest (pkt : TrackPacket) : Point := pkt.points.getLastD {}

/-- Not newer than what was accepted for the track; a first datagram never is. -/
def isStale (pkt : TrackPacket) (m : Memory) : Bool :=
  match m.lastT.lookup pkt.trackId with
  | none => false
  | some last => (pkt.points.headD {}).t.datum.le last.datum

def targetOf (pkt : TrackPacket) : SnapshotObject :=
  let p := newest pkt
  { id := pkt.trackId
    type := pkt.targetType
    confidence := pkt.confidence
    flags := (pkt.targetFlags &&& Proto.kFlagHighlight) |||
      (if p.tgtHasVelocity then Proto.kFlagHasVelocity else 0)
    px := p.tgtPx
    py := p.tgtPy
    pz := p.tgtPz
    vx := if p.tgtHasVelocity then p.tgtVx else ⟨0⟩
    vy := if p.tgtHasVelocity then p.tgtVy else ⟨0⟩
    vz := if p.tgtHasVelocity then p.tgtVz else ⟨0⟩
    intensity := ⟨0⟩ }

/-- `static_cast<float>((a - b) / dt)`. -/
def differenceVelocity (a b dt : F64) : F32 := ((a.sub b).div dt).narrow

/-- Velocity from the wire when present, else from the last two samples, else 0. -/
def satelliteOf (pkt : TrackPacket) : SatelliteState :=
  let p := newest pkt
  let still : SatelliteState :=
    { id := pkt.satId, seq := pkt.sequence, px := p.satPx, py := p.satPy, pz := p.satPz }
  if p.satHasVelocity then
    { still with vx := p.satVx, vy := p.satVy, vz := p.satVz }
  else if pkt.points.length ≥ 2 then
    let prev := pkt.points.getD (pkt.points.length - 2) {}
    let dt := p.t.sub prev.t
    { still with
      vx := differenceVelocity p.satPx prev.satPx dt
      vy := differenceVelocity p.satPy prev.satPy dt
      vz := differenceVelocity p.satPz prev.satPz dt }
  else still

def trailOf (pkt : TrackPacket) : List TrailPoint :=
  pkt.points.map fun p => ⟨pkt.trackId, p.t, p.tgtPx, p.tgtPy, p.tgtPz⟩

def updateOf (pkt : TrackPacket) : TrackUpdate where
  satellite := satelliteOf pkt
  satelliteT := (newest pkt).t
  target := targetOf pkt
  trail := trailOf pkt

def satIdChanged (pkt : TrackPacket) (m : Memory) : List LogLine :=
  match m.lastSatId with
  | some old =>
    if old ≠ pkt.satId then
      [⟨.kWarn, "olv2", "satellite id changed old=" ++ toString old.toNat ++
        " new=" ++ toString pkt.satId.toNat⟩]
    else []
  | none => []

def processDatagram (d : Datagram) (m : Memory) (store : StateStore) : Processed Memory :=
  let store := store.countReceived d.bytes.length
  let (err, pkt) := Proto.Olv2.decoded d.bytes {}
  if err ≠ .kNone then
    { outcome := .malformed err.toString
      log := [⟨.kWarn, "olv2", "dropped " ++ err.toString ++ " len=" ++ toString d.bytes.length ++
        " from=" ++ d.sender⟩]
      memory := m
      store := store.countDropped .kMalformed }
  else if isStale pkt m then
    { outcome := .stale
      log := [⟨.kDebug, "olv2", "dropped stale track=" ++ toString pkt.trackId.toNat ++
        " t=" ++ formatTime (pkt.points.headD {}).t ++ " from=" ++ d.sender⟩]
      memory := m
      store := store.countDropped .kStale }
  else
    { outcome := .accepted
      log := satIdChanged pkt m ++
        [⟨.kDebug, "olv2", "accepted track=" ++ toString pkt.trackId.toNat ++
          " points=" ++ toString pkt.points.length ++ " seq=" ++ toString pkt.sequence.toNat ++
          " from=" ++ d.sender⟩]
      memory := { lastT := m.lastT.insert pkt.trackId (newest pkt).t, lastSatId := some pkt.satId }
      store := store.applyTrack (updateOf pkt) d.wall d.mono }

/-- The packet of a datagram that decodes and is not stale. -/
def admitted (d : Datagram) (m : Memory) : Option TrackPacket :=
  if Proto.Olv2.verdict d.bytes = .kNone ∧ isStale (Proto.Olv2.packetAt d.bytes) m = false then
    some (Proto.Olv2.packetAt d.bytes)
  else none

/-- What decoding promises about an admitted packet. -/
theorem admitted_documented {d : Datagram} {m : Memory} {pkt : TrackPacket}
    (h : admitted d m = some pkt) :
    Proto.Olv2.Documented d.bytes ∧ Proto.Olv2.packetAt d.bytes = pkt ∧ isStale pkt m = false := by
  unfold admitted at h
  split at h
  · rename_i hv
    obtain rfl := Option.some.inj h
    exact ⟨(Proto.Olv2.verdict_iff d.bytes).mp hv.1, rfl, hv.2⟩
  · cases h

theorem newest_mem {pkt : TrackPacket} (h : pkt.points ≠ []) : newest pkt ∈ pkt.points := by
  rw [newest, List.getLastD_eq_getLast?, List.getLast?_eq_some_getLast h]
  exact List.getLast_mem h

/-- How a datagram that is not admitted is counted. -/
def dropKind (d : Datagram) : DropKind :=
  if Proto.Olv2.verdict d.bytes = .kNone then .kStale else .kMalformed

/-- A datagram is refused whatever the store holds, or its track is applied. -/
theorem processDatagram_cases (d : Datagram) (m : Memory) :
    (admitted d m = none ∧ ∃ o log, o ≠ .accepted ∧ ∀ store, processDatagram d m store =
      refused o log (some (dropKind d)) m (store.countReceived d.bytes.length)) ∨
    (∃ pkt log, admitted d m = some pkt ∧ ∀ store, processDatagram d m store =
      ⟨.accepted, log,
        { lastT := m.lastT.insert pkt.trackId (newest pkt).t, lastSatId := some pkt.satId },
        (store.countReceived d.bytes.length).applyTrack (updateOf pkt) d.wall d.mono⟩) := by
  by_cases hv : Proto.Olv2.verdict d.bytes = .kNone
  · cases hs : isStale (Proto.Olv2.packetAt d.bytes) m with
    | true =>
      exact .inl ⟨by simp [admitted, hs], .stale, _, by decide, fun store => by
        simp only [processDatagram, Proto.Olv2.decoded_eq, hv, ne_eq, not_true_eq_false, if_false,
          if_true, hs, dropKind]
        rfl⟩
    | false =>
      exact .inr ⟨Proto.Olv2.packetAt d.bytes, _, by simp [admitted, hv, hs], fun store => by
        simp only [processDatagram, Proto.Olv2.decoded_eq, hv, ne_eq, not_true_eq_false, if_false,
          if_true, hs, Bool.false_eq_true]
        rfl⟩
  · exact .inl ⟨by simp [admitted, hv], .malformed (Proto.Olv2.verdict d.bytes).toString, _,
      by simp, fun store => by
        simp only [processDatagram, Proto.Olv2.decoded_eq, hv, ne_eq, not_false_eq_true, if_true,
          if_false, dropKind]
        rfl⟩

end Olv.Olv2InputSource

namespace Olv

def olv2InputSource : InputSource where
  Memory := Olv2InputSource.Memory
  init := {}
  processDatagram := Olv2InputSource.processDatagram

end Olv
