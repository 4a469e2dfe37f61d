import OrbitalViewer.FrameBuilder
import OrbitalViewer.ReceiveThread

/-!
# How many rows a state message has

Decoding limits a packet, not the table: rows pile up over packets until they
expire. A snapshot has one row for every id written within the expiry
(`rows_eq_live`), and a frame of one object too many, cut into packets that are
all accepted, takes it past the announced limit (`crowdRun_overflows`).
-/

namespace Olv
open Proto (ObjectRecord SoundRecord kMaxTrackedObjects)
open Ieee (F32)
open StateStore (table)

namespace StateStore

/-- The ids last written no longer than the expiry before `mono`. -/
def liveIds (expiry : Int) (calls : List Call) (mono : Int) : Set U32 :=
  {id | ∃ o, lastWrite expiry calls id = some o ∧ mono - o.lastUpdate ≤ seconds expiry}

theorem length_snapshot (mono : Int) (s : StateStore) :
    (s.snapshot mono).1.objects.length = {id | table (s.prune mono) id ≠ none}.ncard :=
  length_rows (s.prune mono)

theorem pruned_live (expiry : Int) (calls : List Call) (mono : Int) :
    {id | table ((run { objectExpiry := expiry } calls).prune mono) id ≠ none} ⊆
      liveIds expiry calls mono := by
  intro id hid
  obtain ⟨o, ho⟩ := Option.ne_none_iff_exists'.mp hid
  rw [table_prune, Option.filter_eq_some_iff, expired, run_objectExpiry] at ho
  have hlive : mono - o.lastUpdate ≤ seconds expiry := by simpa using ho.2
  rcases table_run expiry calls id with hsame | ⟨hgone, _⟩
  · exact ⟨o, hsame.symm.trans ho.1, hlive⟩
  · exact absurd (hgone.symm.trans ho.1) (Option.some_ne_none o).symm

theorem rows_le_live (expiry : Int) (calls : List Call) (mono : Int) :
    (snapshotAfter expiry calls mono).objects.length ≤ (liveIds expiry calls mono).ncard := by
  rw [snapshotAfter, length_snapshot]
  exact Set.ncard_le_ncard (pruned_live expiry calls mono) (Set.toFinite _)

theorem rows_eq_live {expiry : Int} {calls : List Call} {mono : Int}
    (h : SnapshotsOrdered calls mono) :
    (snapshotAfter expiry calls mono).objects.length = (liveIds expiry calls mono).ncard := by
  have hsame : {id | table ((run { objectExpiry := expiry } calls).prune mono) id ≠ none} =
      liveIds expiry calls mono := by
    refine (pruned_live expiry calls mono).antisymm ?_
    rintro id ⟨o, ho⟩
    exact Option.ne_none_iff_exists'.mpr ⟨o, (table_snapshot h id o).mpr ho⟩
  rw [snapshotAfter, length_snapshot, hsame]

end StateStore

/-- **A state message keeps the announced limit** in every snapshot of a run, if
at each no more ids than that are live; and, when the clock of the snapshots
never goes back, only then. -/
theorem rows_within_limit (unmarshal : List Wire.Byte → Option DisInputSource.EntityStatePdu)
    (cfg : InputConfig) (expiry : Int) (actions : List Action) :
    let world (before : List Action) :=
      (World.start (makeInputSource unmarshal cfg) expiry).run (makeSections unmarshal cfg) before
    let Kept := ∀ before mono later, actions = before ++ .snapshot mono :: later →
      ((world before).store.snapshot mono).1.objects.length ≤ kMaxTrackedObjects.toNat
    let FewLive := ∀ before mono later, actions = before ++ .snapshot mono :: later →
      (StateStore.liveIds expiry (world before).calls mono).ncard ≤ kMaxTrackedObjects.toNat
    let Steady := ∀ before mono later, actions = before ++ .snapshot mono :: later →
      StateStore.SnapshotsOrdered (world before).calls mono
    (FewLive → Kept) ∧ (Steady → Kept → FewLive) := by
  intro world Kept FewLive Steady
  have hsnapshot (before : List Action) (mono : Int) : (world before).store.snapshot mono =
      (StateStore.run { objectExpiry := expiry } (world before).calls).snapshot mono := by
    rw [← (World.run_recorded expiry before).store]
  constructor
  · intro hlive before mono later hsplit
    rw [hsnapshot]
    exact (StateStore.rows_le_live expiry _ mono).trans (hlive before mono later hsplit)
  · intro hsteady hkept before mono later hsplit
    rw [← StateStore.rows_eq_live (hsteady before mono later hsplit)]
    have hrows := hkept before mono later hsplit
    rw [hsnapshot] at hrows
    exact hrows

/-! ## One object too many -/

/-- `n` objects at the origin. -/
def crowd (n : Nat) : Sim.Frame where
  objects := (List.range n).map fun i => { id := BitVec.ofNat 32 i }

theorem crowd_sound (n : Nat) : Sim.SoundFrame (crowd n) := by
  have hposition : Proto.Coordinate ⟨0⟩ := by decide +kernel
  have hvelocity : (F32.mk 0).datum.isFinite = true := by decide +kernel
  refine ⟨hposition, hposition, hposition, hvelocity, hvelocity, hvelocity, fun r hr => ?_⟩
  obtain ⟨i, _, rfl⟩ := List.mem_map.mp hr
  exact ⟨hposition, hposition, hposition, hvelocity, hvelocity, hvelocity, hvelocity⟩

def crowdDatagrams (n : Nat) : List Datagram :=
  (Sim.buildPackets (crowd n) 128 1).1.map fun bytes => { bytes }

/-- The datagrams of a crowd, received at 0. -/
def crowdRun (n : Nat) : List Action := World.whole (crowdDatagrams n)

theorem crowdDatagrams_bytes (n : Nat) : (crowdDatagrams n).map Datagram.bytes =
    (Sim.packetsOf (crowd n) 1 (Sim.chunksOf (crowd n) 128)).map Proto.encode := by
  rw [crowdDatagrams, Sim.buildPackets_eq, List.map_map]
  exact List.map_id _

theorem run_stamped (ds : List Datagram) (hds : ∀ d ∈ ds, d.mono = 0) {s : olv1InputSource.State}
    (h : StateStore.Every (fun o => o.lastUpdate = 0) s.store.objects) :
    StateStore.Every (fun o => o.lastUpdate = 0)
      (olv1InputSource.run s (ds.map .datagram)).store.objects := by
  induction ds generalizing s with
  | nil => exact h
  | cons d ds ih =>
    refine ih (fun d' hd' => hds d' (List.mem_cons_of_mem d hd')) ?_
    have hstore : (olv1InputSource.step (.datagram d) s).2.store =
        (Olv1InputSource.handleDatagram d s.store).store := rfl
    rw [hstore]
    rcases Olv1InputSource.handleDatagram_cases d with ⟨_, _, _, heq⟩ | ⟨_, heq⟩
    · rw [heq]
      exact h
    · obtain ⟨log, hs⟩ := heq s.store
      rw [hs]
      dsimp only [StateStore.apply]
      split
      · exact h
      · exact StateStore.every_merge d.mono _ (fun _ _ => hds d List.mem_cons_self) h

/-- Every object of the crowd has a row, and none is expired at 0. -/
theorem crowdRun_store (n : Nat) :
    let final := ((World.start olv1InputSource 15).run olv1Sections (crowdRun n)).store
    ∀ i < n, ∃ o, table final.objects (BitVec.ofNat 32 i) = some o ∧ final.expired 0 o = false := by
  intro final i hi
  have hfinal : final = (olv1InputSource.run ⟨(), { objectExpiry := 15 }⟩
      ((crowdDatagrams n).map .datagram)).store :=
    congrArg InputSource.State.store (World.run_whole _ (crowdDatagrams n) rfl)
  have hrows := (Sim.run_packets (crowd_sound n) (Sim.cut_chunksOf (crowd n) 128)
    (fun h => nomatch h : Sim.Precedes { objectExpiry := 15 } 1) (crowdDatagrams_bytes n)).2.2.2
  have hstamped : StateStore.Every (fun o => o.lastUpdate = 0) final.objects := by
    rw [hfinal]
    refine run_stamped (crowdDatagrams n) (fun d hd => ?_) fun _ _ ho => nomatch ho
    obtain ⟨_, _, rfl⟩ := List.mem_map.mp hd
    rfl
  have hrecorded : World.Recorded olv1Sections 15 _ := World.run_recorded 15 (crowdRun n)
  have hexpiry : final.objectExpiry = 15 :=
    (congrArg StateStore.objectExpiry hrecorded.store).trans (StateStore.run_objectExpiry ..)
  rw [← hfinal, Sim.chunksOf, Chunks.flatten_chunks] at hrows
  have hrow : Sim.rowsOf final (BitVec.ofNat 32 i) ≠ none := by
    rw [hrows, ne_eq, Sim.overwrite_none_iff]
    rintro ⟨_, hnone⟩
    exact hnone _ (List.mem_map_of_mem (List.mem_map_of_mem (List.mem_range.mpr hi))) rfl
  obtain ⟨o, ho⟩ := Option.ne_none_iff_exists'.mp (mt Option.map_eq_none_iff.mpr hrow)
  refine ⟨o, ho, ?_⟩
  rw [StateStore.expired, hexpiry, hstamped _ o ho]
  rfl

theorem crowdRun_rows {n : Nat} (hn : n ≤ 2 ^ 32) :
    n ≤ (((World.start olv1InputSource 15).run olv1Sections (crowdRun n)).store.snapshot
      0).1.objects.length := by
  have hstore := crowdRun_store n
  generalize ((World.start olv1InputSource 15).run olv1Sections (crowdRun n)).store = final at hstore ⊢
  have hsub : ((Finset.range n).image (BitVec.ofNat 32) : Set U32) ⊆
      {id | table (final.prune 0) id ≠ none} := by
    intro id hid
    obtain ⟨i, hi, rfl⟩ := Finset.mem_image.mp (Finset.mem_coe.mp hid)
    obtain ⟨o, ho, hlive⟩ := hstore i (Finset.mem_range.mp hi)
    refine Option.ne_none_iff_exists'.mpr ⟨o, ?_⟩
    rw [StateStore.table_prune, Option.filter_eq_some_iff]
    exact ⟨ho, by rw [hlive]; rfl⟩
  have hcard : ((Finset.range n).image (BitVec.ofNat 32)).card = n := by
    rw [Finset.card_image_of_injOn, Finset.card_range]
    intro i hi j hj hij
    have := congrArg BitVec.toNat hij
    simp only [Finset.coe_range, Set.mem_Iio] at hi hj
    rw [BitVec.toNat_ofNat, BitVec.toNat_ofNat] at this
    omega
  have hle := Set.ncard_le_ncard hsub (Set.toFinite _)
  rw [Set.ncard_coe_finset, hcard, ← StateStore.length_snapshot] at hle
  exact hle

theorem crowdRun_overflows :
    kMaxTrackedObjects.toNat < (((World.start olv1InputSource 15).run olv1Sections
      (crowdRun 5001)).store.snapshot 0).1.objects.length :=
  Nat.lt_of_lt_of_le (by decide) (crowdRun_rows (by decide : 5001 ≤ 2 ^ 32))

end Olv
