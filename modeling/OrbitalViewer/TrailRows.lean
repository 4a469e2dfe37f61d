import OrbitalViewer.Bounds
import OrbitalViewer.CommandLine
import OrbitalViewer.Tracks

/-!
# Trail rows and object rows

Rows live until they expire, trail points until a snapshot takes them. A pending
point has its row in the table (`Covered`), so a snapshot lists the two together
exactly when it comes before that row expires.
-/

namespace Olv
open Ieee (F64)
open StateStore (table history)
open LastWrite (last)

/-- The id of every trail row is that of some object row. -/
def Snapshot.Matched (snap : Snapshot) : Prop :=
  ∀ p ∈ snap.trailPoints, ∃ row ∈ snap.objects, row.id = p.id

instance (snap : Snapshot) : Decidable snap.Matched := by
  unfold Snapshot.Matched
  infer_instance

namespace StateStore

/-- The table has the row of every pending point, and rows carry their id. -/
structure Covered (s : StateStore) : Prop where
  row : ∀ p ∈ s.pendingTrail, table s.objects p.id ≠ none
  keyed : ∀ id, ∀ o ∈ table s.objects id, o.obj.id = id

theorem covered_applyTrack {s : StateStore} (h : Covered s) {u : TrackUpdate}
    (hu : ∀ p ∈ u.trail, p.id = u.target.id) (wall mono : Int) : Covered (s.applyTrack u wall mono) := by
  have htable : table (s.applyTrack u wall mono).objects =
      Function.update (table s.objects) u.target.id (some ⟨u.target, mono⟩) := table_insert ..
  constructor
  · intro p hp
    rw [htable]
    by_cases hid : p.id = u.target.id
    · rw [hid, Function.update_self]
      exact Option.some_ne_none _
    · rw [Function.update_of_ne hid]
      rcases mem_appendTrail hp with hold | hnew
      · exact h.row p hold
      · exact absurd (hu p hnew) hid
  · intro id o ho
    rw [htable] at ho
    by_cases hid : id = u.target.id
    · rw [hid, Function.update_self] at ho
      exact hid ▸ Option.some.inj ho ▸ rfl
    · rw [Function.update_of_ne hid] at ho
      exact h.keyed id o ho

theorem covered_snapshot {s : StateStore} (h : Covered s) (mono : Int) :
    Covered (s.snapshot mono).2 where
  row := by rintro _ ⟨⟩
  keyed id o ho := by
    have hprune : table (s.prune mono) id = some o := ho
    rw [table_prune, Option.filter_eq_some_iff] at hprune
    exact h.keyed id o hprune.1

/-- A snapshot matches exactly when no row of a pending point is expired. -/
theorem snapshot_matched_iff {s : StateStore} (h : Covered s) (mono : Int) :
    (s.snapshot mono).1.Matched ↔
      ∀ p ∈ s.pendingTrail, ∀ o ∈ table s.objects p.id, mono - o.lastUpdate ≤ seconds s.objectExpiry := by
  have hrow (id : U32) : (∃ row ∈ (s.snapshot mono).1.objects, row.id = id) ↔
      ∃ o ∈ table s.objects id, mono - o.lastUpdate ≤ seconds s.objectExpiry := by
    have hmem (row : SnapshotObject) : row ∈ (s.snapshot mono).1.objects ↔
        ∃ id o, table (s.prune mono) id = some o ∧ o.obj = row := mem_rows
    simp only [hmem, table_prune, Option.filter_eq_some_iff, expired, Bool.not_eq_true',
      decide_eq_false_iff_not, gt_iff_lt, not_lt]
    constructor
    · rintro ⟨_, ⟨id', o, ⟨ho, hlive⟩, rfl⟩, rfl⟩
      exact ⟨o, h.keyed id' o ho ▸ ho, hlive⟩
    · rintro ⟨o, ho, hlive⟩
      exact ⟨o.obj, ⟨id, o, ⟨ho, hlive⟩, rfl⟩, h.keyed id o ho⟩
  have htrail : (s.snapshot mono).1.trailPoints = s.pendingTrail := rfl
  unfold Snapshot.Matched
  rw [htrail]
  refine forall₂_congr fun p hp => (hrow p.id).trans ?_
  obtain ⟨o, ho⟩ := Option.ne_none_iff_exists'.mp (h.row p hp)
  simp [ho]

end StateStore

namespace Olv2InputSource

theorem world_covered (expiry : Int) (actions : List Action) :
    StateStore.Covered (world expiry actions).store := by
  refine World.run_invariant (P := fun w => StateStore.Covered w.store) (fun w a h => ?_)
    ⟨by rintro _ ⟨⟩, by rintro _ _ ⟨⟩⟩ actions
  rcases World.step_cases olv2Sections a w with heq | ⟨d, _, _, heq⟩ | ⟨d, _, _, heq⟩ | ⟨mono, _, heq⟩
  · rw [heq]
    exact h
  · rw [heq]
    exact ⟨h.row, h.keyed⟩
  · have hsettle (m : Memory) : StateStore.Covered (settle (some (outcome d m)) w.store) := by
      unfold outcome
      cases admitted d m with
      | none => cases dropKind d <;> exact ⟨h.row, h.keyed⟩
      | some pkt =>
        refine StateStore.covered_applyTrack h (fun p hp => ?_) d.wall d.mono
        obtain ⟨q, _, rfl⟩ := List.mem_map.mp hp
        rfl
    rw [heq]
    exact hsettle w.memory
  · rw [heq]
    exact StateStore.covered_snapshot h mono

/-- At `mono`, no track with a point pending has gone without an accepted
datagram for longer than the expiry. -/
def Refreshed (expiry : Int) (w : World olv2InputSource) (mono : Int) : Prop :=
  ∀ p ∈ w.store.pendingTrail, ∀ o ∈ last (history { objectExpiry := expiry } w.calls) p.id,
    mono - o.lastUpdate ≤ seconds expiry

theorem matched_iff (expiry : Int) (actions : List Action) (mono : Int) :
    ((world expiry actions).store.snapshot mono).1.Matched ↔
      Refreshed expiry (world expiry actions) mono := by
  have hrec := world_recorded expiry actions
  have hcovered := world_covered expiry actions
  have hexpiry : (world expiry actions).store.objectExpiry = expiry := by
    rw [hrec.store, StateStore.run_objectExpiry]
  have htable := StateStore.table_run expiry (world expiry actions).calls
  simp only [← hrec.store, StateStore.lastWrite] at htable
  rw [StateStore.snapshot_matched_iff hcovered, hexpiry]
  apply forall₂_congr
  intro p hp
  rcases htable p.id with h | ⟨h, _⟩
  · rw [h]
  · exact absurd h (hcovered.row p hp)

/-- **Every trail row has its object row** in all snapshots of a run exactly when
each comes within the expiry of the last accepted datagram of every track it
reports points of. -/
theorem trail_rows_matched (expiry : Int) (actions : List Action) :
    (∀ before mono later, actions = before ++ .snapshot mono :: later →
      ((world expiry before).store.snapshot mono).1.Matched) ↔
    ∀ before mono later, actions = before ++ .snapshot mono :: later →
      Refreshed expiry (world expiry before) mono := by
  simp only [matched_iff]

end Olv2InputSource

/-! ## A slow broadcast -/

/-- The broadcast timer's period in milliseconds. -/
def tickPeriod (hz : F64) : Int := ⌊((F64.ofNat 1000).div hz).datum.toRat⌋

/-- 0.1 Hz. -/
def slowHz : F64 := ⟨0x3FB999999999999A⟩

/-- A tick, a track a second later, and the next tick. -/
def slowRun : List Action :=
  [.snapshot 0,
    .receive {
      bytes := Proto.Olv2.encode { trackId := 9, points := [{ t := ⟨0x3FF0000000000000⟩ }] }
      mono := seconds 1 },
    .settle]

theorem slowRun_unmatched :
    validExpiry 1 = true ∧ validHz slowHz = true ∧ tickPeriod slowHz = 10000 ∧
    ¬ ((Olv2InputSource.world 1 slowRun).store.snapshot (seconds 10)).1.Matched := by
  refine ⟨by decide, by decide +kernel, by decide +kernel, ?_⟩
  decide +kernel

end Olv
