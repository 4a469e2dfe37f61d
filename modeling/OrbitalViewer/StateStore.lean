import OrbitalViewer.Protocol

/-!
# The shared world state

`state_store.hpp` and `state_store.cpp`. Each call holds the mutex from its
first line to its last, so a call is one step; it takes the store and returns
the store after it. The object map is an association list with one entry a key.
Counters are natural numbers and time points are nanoseconds.
-/

namespace Olv
open Ieee (F32 F64)
open Proto (StatePacket ObjectRecord)

/-- In nanoseconds. -/
def seconds (n : Int) : Int := n * 1000000000

structure Stats where
  udpReceived : Nat := 0
  udpAccepted : Nat := 0
  udpDroppedMalformed : Nat := 0
  udpDroppedStale : Nat := 0
  bytesReceived : Nat := 0
  udpRateHz : F64 := ⟨0⟩
  broadcastSeq : Nat := 0
  deriving DecidableEq

structure SatelliteState where
  id : U32 := 0
  seq : U32 := 0
  px : F64 := ⟨0⟩
  py : F64 := ⟨0⟩
  pz : F64 := ⟨0⟩
  vx : F32 := ⟨0⟩
  vy : F32 := ⟨0⟩
  vz : F32 := ⟨0⟩
  deriving DecidableEq

/-- A satellite apart from the sequence that brought it. -/
def SatelliteState.body (sat : SatelliteState) : SatelliteState := { sat with seq := 0 }

structure SnapshotObject where
  id : U32 := 0
  type : U8 := 0
  flags : U8 := 0
  confidence : U8 := 0
  px : F64 := ⟨0⟩
  py : F64 := ⟨0⟩
  pz : F64 := ⟨0⟩
  vx : F32 := ⟨0⟩
  vy : F32 := ⟨0⟩
  vz : F32 := ⟨0⟩
  intensity : F32 := ⟨0⟩
  deriving DecidableEq

def SnapshotObject.hasVelocity (o : SnapshotObject) : Bool := o.flags &&& Proto.kFlagHasVelocity ≠ 0

structure TrailPoint where
  id : U32 := 0
  t : F64 := ⟨0⟩
  px : F64 := ⟨0⟩
  py : F64 := ⟨0⟩
  pz : F64 := ⟨0⟩
  deriving DecidableEq

structure TrackUpdate where
  satellite : SatelliteState := {}
  satelliteT : F64 := ⟨0⟩
  target : SnapshotObject := {}
  trail : List TrailPoint := []

structure Snapshot where
  satellite : Option SatelliteState := none
  objects : List SnapshotObject := []
  lastDataTime : Option Int := none
  stats : Stats := {}
  trailPoints : List TrailPoint := []
  deriving DecidableEq

inductive ApplyResult where
  | kApplied | kStaleSequence
  deriving DecidableEq, Repr

inductive DropKind where
  | kMalformed | kStale
  deriving DecidableEq, Repr

structure StoredObject where
  obj : SnapshotObject
  lastUpdate : Int
  deriving DecidableEq

structure StateStore where
  objectExpiry : Int := 15
  satellite : Option SatelliteState := none
  lastDataTime : Option Int := none
  objects : AList (fun _ : U32 => StoredObject) := ∅
  acceptTimes : List Int := []
  stats : Stats := {}
  haveSeq : Bool := false
  lastSeq : U32 := 0
  satelliteT : Option F64 := none
  pendingTrail : List TrailPoint := []

namespace StateStore

/-- In seconds. -/
def kRateWindow : Int := 5

def kMaxPendingTrailPoints : Nat := 125000

def countReceived (bytes : Nat) (s : StateStore) : StateStore :=
  { s with stats := { s.stats with
      udpReceived := s.stats.udpReceived + 1
      bytesReceived := s.stats.bytesReceived + bytes } }

def countDropped (kind : DropKind) (s : StateStore) : StateStore :=
  match kind with
  | .kMalformed =>
    { s with stats := { s.stats with udpDroppedMalformed := s.stats.udpDroppedMalformed + 1 } }
  | .kStale => { s with stats := { s.stats with udpDroppedStale := s.stats.udpDroppedStale + 1 } }

/-- The wraparound-safe staleness test; the first packet is never stale. -/
def staleSequence (sequence : U32) (s : StateStore) : Bool :=
  s.haveSeq && decide ((sequence - s.lastSeq).toInt ≤ 0)

def satelliteOf (pkt : StatePacket) : SatelliteState :=
  ⟨pkt.satId, pkt.sequence, pkt.satPx, pkt.satPy, pkt.satPz, pkt.satVx, pkt.satVy, pkt.satVz⟩

def objectOf (r : ObjectRecord) : SnapshotObject :=
  ⟨r.id, r.type, r.flags, r.confidence, r.px, r.py, r.pz, r.vx, r.vy, r.vz, r.intensity⟩

/-- The merge loop: a later record with the id of an earlier one overwrites it. -/
def mergeObjects (mono : Int) (records : List ObjectRecord)
    (objects : AList (fun _ : U32 => StoredObject)) : AList (fun _ : U32 => StoredObject) :=
  records.foldl (fun m r => m.insert r.id ⟨objectOf r, mono⟩) objects

def apply (pkt : StatePacket) (wall mono : Int) (s : StateStore) : ApplyResult × StateStore :=
  if s.staleSequence pkt.sequence then
    (.kStaleSequence,
      { s with stats := { s.stats with udpDroppedStale := s.stats.udpDroppedStale + 1 } })
  else
    (.kApplied,
      { s with
        haveSeq := true
        lastSeq := pkt.sequence
        stats := { s.stats with udpAccepted := s.stats.udpAccepted + 1 }
        satellite := some (satelliteOf pkt)
        satelliteT := none
        objects := mergeObjects mono pkt.objects s.objects
        lastDataTime := some wall
        acceptTimes := s.acceptTimes ++ [mono] })

/-- Whether a track's sample replaces the stored satellite. -/
def replacesSatellite (u : TrackUpdate) (s : StateStore) : Bool :=
  match s.satellite, s.satelliteT with
  | some _, some t => t.datum.lt u.satelliteT.datum
  | _, _ => true

/-- The pending trail with `trail` appended, the oldest points dropped beyond
the cap. -/
def appendTrail (trail pending : List TrailPoint) : List TrailPoint :=
  let all := pending ++ trail
  if all.length > kMaxPendingTrailPoints then all.drop (all.length - kMaxPendingTrailPoints) else all

def applyTrack (u : TrackUpdate) (wall mono : Int) (s : StateStore) : StateStore :=
  let replaces := s.replacesSatellite u
  { s with
    stats := { s.stats with udpAccepted := s.stats.udpAccepted + 1 }
    satellite := if replaces then some u.satellite else s.satellite
    satelliteT := if replaces then some u.satelliteT else s.satelliteT
    objects := s.objects.insert u.target.id ⟨u.target, mono⟩
    pendingTrail := appendTrail u.trail s.pendingTrail
    lastDataTime := some wall
    acceptTimes := s.acceptTimes ++ [mono] }

/-- Not refreshed within the expiry window. -/
def expired (mono : Int) (s : StateStore) (o : StoredObject) : Bool :=
  decide (mono - o.lastUpdate > seconds s.objectExpiry)

def prune (mono : Int) (s : StateStore) : AList (fun _ : U32 => StoredObject) :=
  ⟨s.objects.entries.filter fun e => !s.expired mono e.2,
    s.objects.nodupKeys.sublist List.filter_sublist⟩

def liveAcceptTimes (mono : Int) (s : StateStore) : List Int :=
  s.acceptTimes.dropWhile fun t => decide (mono - t > seconds kRateWindow)

/-- The rows of the object map, by ascending id. -/
def rows (objects : AList (fun _ : U32 => StoredObject)) : List SnapshotObject :=
  (objects.entries.map fun e => e.2.obj).insertionSort fun a b => a.id ≤ b.id

/-- `size_t` is 64 bits wide. -/
def rateHz (acceptTimes : List Int) : F64 :=
  (F64.ofNat (BitVec.ofNat 64 acceptTimes.length).toNat).div (F64.ofNat kRateWindow.toNat)

def snapshot (mono : Int) (s : StateStore) : Snapshot × StateStore :=
  let objects := s.prune mono
  let acceptTimes := s.liveAcceptTimes mono
  ({  satellite := s.satellite
      objects := rows objects
      lastDataTime := s.lastDataTime
      stats := { s.stats with udpRateHz := rateHz acceptTimes }
      trailPoints := s.pendingTrail },
    { s with objects, acceptTimes, pendingTrail := [] })

theorem mem_appendTrail {trail pending : List TrailPoint} {p : TrailPoint}
    (h : p ∈ appendTrail trail pending) : p ∈ pending ∨ p ∈ trail := by
  unfold appendTrail at h
  dsimp only at h
  split at h
  · exact List.mem_append.mp (List.mem_of_mem_drop h)
  · exact List.mem_append.mp h

variable {s : StateStore} {p : StatePacket}

theorem apply_fresh (h : s.staleSequence p.sequence = false) (wall mono : Int) :
    s.apply p wall mono = (.kApplied,
      { s with
        haveSeq := true
        lastSeq := p.sequence
        stats := { s.stats with udpAccepted := s.stats.udpAccepted + 1 }
        satellite := some (satelliteOf p)
        satelliteT := none
        objects := mergeObjects mono p.objects s.objects
        lastDataTime := some wall
        acceptTimes := s.acceptTimes ++ [mono] }) := by
  rw [apply, if_neg (by rw [h]; exact Bool.false_ne_true)]

/-- The sequence after the last one accepted is never stale, not even across the
wrap. -/
theorem fresh_next {s : StateStore} {seq : U32} (h : s.haveSeq = true → s.lastSeq = seq) :
    s.staleSequence (seq + 1) = false := by
  unfold staleSequence
  cases hs : s.haveSeq with
  | false => rfl
  | true =>
    have hone : seq + 1 - s.lastSeq = 1 := by
      rw [h hs]
      exact add_sub_cancel_left seq 1
    rw [hone]
    rfl

theorem apply_refused (h : s.staleSequence p.sequence = true) (wall mono : Int) :
    s.apply p wall mono = (.kStaleSequence, s.countDropped .kStale) := by
  rw [apply, if_pos h]
  rfl

theorem apply_result (p : StatePacket) (wall mono : Int) (s : StateStore) :
    (s.apply p wall mono).1 = .kApplied ↔ s.staleSequence p.sequence = false := by
  cases h : s.staleSequence p.sequence with
  | true => simp [apply_refused h]
  | false => simp [apply_fresh h]

end StateStore
end Olv
