import OrbitalViewer.Lib.BoundedQueue
import OrbitalViewer.Tracks

/-!
# Trail points are reported once

The pending trail is a bounded queue that a snapshot drains. Over a run the
snapshots report, segment by segment, the newest points accepted since the one
before (`run_trail`); in OLV2 mode the points of a track ascend in time over all
segments.
-/

namespace Olv.StateStore
open BoundedQueue (latest)

theorem appendTrail_eq (trail pending : List TrailPoint) :
    appendTrail trail pending = latest kMaxPendingTrailPoints (pending ++ trail) := by
  unfold appendTrail
  dsimp only
  split
  · rfl
  · rename_i hfits
    exact (BoundedQueue.latest_eq_self (not_lt.mp hfits)).symm

def Call.trail : Call → List TrailPoint
  | applyTrack u _ _ => u.trail
  | _ => []

/-- The points appended before the first snapshot, between snapshots, and after
the last. -/
def segments : List Call → List (List TrailPoint)
  | [] => [[]]
  | .snapshot _ :: calls => [] :: segments calls
  | c :: calls => (segments calls).modifyHead (c.trail ++ ·)

def Call.shows (c : Call) (s : StateStore) : List Snapshot :=
  match c with
  | snapshot mono => [(s.snapshot mono).1]
  | _ => []

/-- The snapshots of a run. -/
def shown (s : StateStore) : List Call → List Snapshot
  | [] => []
  | c :: calls => c.shows s ++ shown (c.step s) calls

/-- What the snapshots of a run report, and at last what is still pending. -/
def reported (s : StateStore) (calls : List Call) : List (List TrailPoint) :=
  (shown s calls).map Snapshot.trailPoints ++ [(run s calls).pendingTrail]

theorem segments_cons {c : Call} (hc : c.snapshotStamp = none) (calls : List Call) :
    segments (c :: calls) = (segments calls).modifyHead (c.trail ++ ·) := by
  cases c with
  | snapshot mono => cases hc
  | _ => rfl

theorem segments_ne (calls : List Call) : ∃ first rest, segments calls = first :: rest := by
  induction calls with
  | nil => exact ⟨[], [], rfl⟩
  | cons c calls ih =>
    obtain ⟨first, rest, h⟩ := ih
    cases hc : c.snapshotStamp with
    | none => exact ⟨c.trail ++ first, rest, by rw [segments_cons hc, h]; rfl⟩
    | some m =>
      cases c with
      | snapshot mono => exact ⟨[], segments calls, rfl⟩
      | _ => cases hc

theorem flatten_segments (calls : List Call) : (segments calls).flatten = calls.flatMap Call.trail := by
  induction calls with
  | nil => rfl
  | cons c calls ih =>
    obtain ⟨first, rest, h⟩ := segments_ne calls
    rw [List.flatMap_cons, ← ih]
    cases hc : c.snapshotStamp with
    | none =>
      rw [segments_cons hc, h]
      exact List.append_assoc ..
    | some m =>
      cases c with
      | snapshot mono => rfl
      | _ => cases hc

/-- A call that is no snapshot appends its points. -/
theorem pendingTrail_step {c : Call} (hc : c.snapshotStamp = none) {s : StateStore}
    (hcap : s.pendingTrail.length ≤ kMaxPendingTrailPoints) :
    (c.step s).pendingTrail = latest kMaxPendingTrailPoints (s.pendingTrail ++ c.trail) := by
  have hsame : latest kMaxPendingTrailPoints (s.pendingTrail ++ []) = s.pendingTrail := by
    rw [List.append_nil, BoundedQueue.latest_eq_self hcap]
  cases c with
  | snapshot mono => cases hc
  | applyTrack u wall mono => exact appendTrail_eq ..
  | apply pkt wall mono =>
    refine Eq.trans ?_ hsame.symm
    simp only [Call.step, apply]
    split <;> rfl
  | countReceived bytes => exact hsame.symm
  | countDropped kind =>
    refine Eq.trans ?_ hsame.symm
    cases kind <;> rfl

theorem shows_nil {c : Call} (hc : c.snapshotStamp = none) (s : StateStore) : c.shows s = [] := by
  cases c with
  | snapshot mono => cases hc
  | _ => rfl

/-- **What a run reports**: of every segment the newest points up to the cap. -/
theorem run_trail (s : StateStore) (calls : List Call) {first : List TrailPoint}
    {rest : List (List TrailPoint)} (h : segments calls = first :: rest)
    (hcap : s.pendingTrail.length ≤ kMaxPendingTrailPoints) :
    reported s calls = latest kMaxPendingTrailPoints (s.pendingTrail ++ first) ::
      rest.map (latest kMaxPendingTrailPoints) := by
  induction calls generalizing s first rest with
  | nil =>
    obtain ⟨rfl, rfl⟩ := List.cons.inj h
    simp [reported, shown, run, BoundedQueue.latest_eq_self hcap]
  | cons c calls ih =>
    obtain ⟨first', rest', h'⟩ := segments_ne calls
    have hreported : reported s (c :: calls) =
        (c.shows s).map Snapshot.trailPoints ++ reported (c.step s) calls := by
      simp [reported, shown, run]
    rw [hreported]
    cases hc : c.snapshotStamp with
    | none =>
      have hpending := pendingTrail_step hc hcap
      have hcap' : (c.step s).pendingTrail.length ≤ kMaxPendingTrailPoints := by
        rw [hpending, BoundedQueue.length_latest]
        exact min_le_right ..
      rw [segments_cons hc, h'] at h
      obtain ⟨rfl, rfl⟩ := List.cons.inj h
      rw [shows_nil hc, ih _ h' hcap', hpending, BoundedQueue.latest_append, List.append_assoc]
      rfl
    | some m =>
      cases c with
      | snapshot mono =>
        obtain ⟨rfl, rfl⟩ := List.cons.inj h
        rw [ih (Call.step (.snapshot mono) s) h' (Nat.zero_le _), h', List.append_nil,
          BoundedQueue.latest_eq_self hcap]
        rfl
      | _ => cases hc

end Olv.StateStore

namespace Olv.Olv2InputSource
open Proto.Olv2 (TrackPacket)
open StateStore (tracks segments reported)
open BoundedQueue (latest)

/-- A track's points ascend in time. -/
def Ascending (points : List TrailPoint) : Prop :=
  points.Pairwise fun p q => p.id = q.id → p.t.datum.toRat < q.t.datum.toRat

theorem flatten_world (expiry : Int) (actions : List Action) :
    (segments (world expiry actions).calls).flatten =
      (acceptedIn (world expiry actions)).flatMap trailOf := by
  obtain ⟨_, htracks⟩ := world_tracks expiry actions
  have hcalls (calls : List StateStore.Call) : calls.flatMap StateStore.Call.trail =
      ((tracks calls).map Prod.fst).flatMap TrackUpdate.trail := by
    induction calls with
    | nil => rfl
    | cons c calls ih =>
      rw [List.flatMap_cons, ih]
      cases c <;> rfl
  rw [StateStore.flatten_segments, hcalls, htracks, List.flatMap_map]
  rfl

theorem accepted_ascending (w : World olv2InputSource) :
    Ascending ((acceptedIn w).flatMap trailOf) := by
  refine List.pairwise_flatMap.mpr ⟨fun pkt hpkt => ?_, ?_⟩
  · have hasc := (acceptedIn_sound pkt hpkt).points.ascending
    refine List.pairwise_map.mpr (hasc.imp ?_)
    exact fun hlt _ => hlt
  · refine (acceptedIn_pairwise w).imp_of_mem fun {x y} hx hy hlt p hp q hq hid => ?_
    obtain ⟨a, ha, rfl⟩ := List.mem_map.mp hp
    obtain ⟨b, hb, rfl⟩ := List.mem_map.mp hq
    have htop : a.time ≤ newestTime x := (acceptedIn_sound x hx).le_newestTime a ha
    have hbottom : oldestTime y ≤ b.time := (acceptedIn_sound y hy).oldestTime_le b hb
    exact (htop.trans_lt (hlt hid)).trans_le hbottom

/-- What the snapshots report, segment by segment. -/
theorem reported_world (expiry : Int) (actions : List Action) :
    reported { objectExpiry := expiry } (world expiry actions).calls =
      (segments (world expiry actions).calls).map (latest StateStore.kMaxPendingTrailPoints) := by
  obtain ⟨first, rest, hsegments⟩ := StateStore.segments_ne (world expiry actions).calls
  rw [StateStore.run_trail _ _ hsegments (Nat.zero_le _), hsegments]
  rfl

/-- Segments within the cap are reported whole. -/
theorem reported_whole {expiry : Int} {actions : List Action}
    (h : ∀ segment ∈ segments (world expiry actions).calls,
      segment.length ≤ StateStore.kMaxPendingTrailPoints) :
    (reported { objectExpiry := expiry } (world expiry actions).calls).flatten =
      (acceptedIn (world expiry actions)).flatMap trailOf := by
  rw [reported_world, ← flatten_world]
  congr 1
  conv_rhs => rw [← List.map_id (segments (world expiry actions).calls)]
  exact List.map_congr_left fun segment hmem => BoundedQueue.latest_eq_self (h segment hmem)

/-- Whatever the segments are, what is reported is part of what was accepted. -/
theorem reported_sublist (expiry : Int) (actions : List Action) :
    (reported { objectExpiry := expiry } (world expiry actions).calls).flatten.Sublist
      ((acceptedIn (world expiry actions)).flatMap trailOf) := by
  rw [reported_world, ← flatten_world]
  induction segments (world expiry actions).calls with
  | nil => exact List.Sublist.refl _
  | cons segment rest ih => exact (BoundedQueue.latest_suffix _ segment).sublist.append ih

/-- **Trail points are reported once, in order.** What is handed over is every point of
every accepted packet, at the position of the target. The snapshots and what is still
pending give these points, less the oldest of every segment beyond the cap, and no
sample of a track twice or backwards. -/
theorem trail_reported_once (expiry : Int) (actions : List Action) :
    let w := world expiry actions
    let reports := reported { objectExpiry := expiry } w.calls
    let accepted := segments w.calls
    let sent : List TrailPoint := (acceptedIn w).flatMap fun pkt => pkt.points.map fun p =>
      { id := pkt.trackId, t := p.t, px := p.tgtPx, py := p.tgtPy, pz := p.tgtPz }
    accepted.flatten = sent ∧
    reports = accepted.map (latest StateStore.kMaxPendingTrailPoints) ∧
    reports.getLast? = some w.store.pendingTrail ∧
    w.store.pendingTrail.length ≤ StateStore.kMaxPendingTrailPoints ∧
    ((∀ segment ∈ accepted, segment.length ≤ StateStore.kMaxPendingTrailPoints) →
      reports.flatten = sent) ∧
    Ascending reports.flatten := by
  have hrec := world_recorded expiry actions
  have hflatten := flatten_world expiry actions
  have hreports := reported_world expiry actions
  have hlast : (reported { objectExpiry := expiry } (world expiry actions).calls).getLast? =
      some (world expiry actions).store.pendingTrail := by
    rw [reported, List.getLast?_concat, ← hrec.store]
  refine ⟨hflatten, hreports, hlast, ?capped, reported_whole, ?ascending⟩
  case capped =>
    rw [hreports, List.getLast?_map] at hlast
    obtain ⟨segment, _, hpending⟩ := Option.map_eq_some_iff.mp hlast
    rw [← hpending, BoundedQueue.length_latest]
    exact min_le_right ..
  case ascending =>
    exact (accepted_ascending (world expiry actions)).sublist (reported_sublist expiry actions)

end Olv.Olv2InputSource
