import OrbitalViewer.StateStore
import OrbitalViewer.Lib.LastWrite

/-!
# The object table and its history

A run is a list of calls. `history` collects what accepted calls wrote, and the
object map represents it up to expired entries (`run_represents`), so that a
snapshot lists exactly the unexpired last writes (`snapshot_unexpired`). What a
record or a packet shows is written out once here, apart from the code.
-/

namespace Olv.StateStore
open LastWrite (last Represents)

/-! ## What is sent and what is shown -/

/-- The row of a record as PROTOCOL_UDP has it. -/
def recordRow (r : Proto.ObjectRecord) : SnapshotObject where
  id := r.id
  type := r.type
  flags := r.flags
  confidence := r.confidence
  px := r.px
  py := r.py
  pz := r.pz
  vx := r.vx
  vy := r.vy
  vz := r.vz
  intensity := r.intensity

/-- The satellite of a packet. -/
def packetSatellite (pkt : Proto.StatePacket) : SatelliteState where
  id := pkt.satId
  seq := pkt.sequence
  px := pkt.satPx
  py := pkt.satPy
  pz := pkt.satPz
  vx := pkt.satVx
  vy := pkt.satVy
  vz := pkt.satVz

theorem objectOf_eq (r : Proto.ObjectRecord) : objectOf r = recordRow r := rfl

/-! ## Runs -/

inductive Call where
  | countReceived (bytes : Nat)
  | countDropped (kind : DropKind)
  | apply (pkt : Proto.StatePacket) (wall mono : Int)
  | applyTrack (u : TrackUpdate) (wall mono : Int)
  | snapshot (mono : Int)

def Call.step (c : Call) (s : StateStore) : StateStore :=
  match c with
  | countReceived bytes => s.countReceived bytes
  | countDropped kind => s.countDropped kind
  | apply pkt wall mono => (s.apply pkt wall mono).2
  | applyTrack u wall mono => s.applyTrack u wall mono
  | snapshot mono => (s.snapshot mono).2

def run (s : StateStore) (calls : List Call) : StateStore := calls.foldl (fun s c => c.step s) s

/-- What a call writes into the object table, in order. -/
def Call.written (c : Call) (s : StateStore) : List (U32 × StoredObject) :=
  match c with
  | apply pkt wall mono =>
    if (s.apply pkt wall mono).1 = .kApplied then
      pkt.objects.map fun r => (r.id, ⟨recordRow r, mono⟩)
    else []
  | applyTrack u _ mono => [(u.target.id, ⟨u.target, mono⟩)]
  | _ => []

/-- Every write of the accepted calls of a run. -/
def history (s : StateStore) : List Call → List (U32 × StoredObject)
  | [] => []
  | c :: calls => c.written s ++ history (c.step s) calls

def Call.snapshotStamp : Call → Option Int
  | snapshot mono => some mono
  | _ => none

def snapshotStamps (calls : List Call) : List Int := calls.filterMap Call.snapshotStamp

/-- The run without its snapshots. -/
def updates (calls : List Call) : List Call := calls.filter fun c => c.snapshotStamp.isNone

theorem run_append (s : StateStore) (calls calls' : List Call) :
    run s (calls ++ calls') = run (run s calls) calls' := List.foldl_append

theorem updates_append (calls calls' : List Call) :
    updates (calls ++ calls') = updates calls ++ updates calls' := List.filter_append ..

theorem history_append (s : StateStore) (calls calls' : List Call) :
    history s (calls ++ calls') = history s calls ++ history (run s calls) calls' := by
  induction calls generalizing s with
  | nil => rfl
  | cons c calls ih =>
    rw [List.cons_append, history, history, ih, List.append_assoc]
    rfl

/-! ## The table -/

abbrev Objects := AList (fun _ : U32 => StoredObject)

def table (objects : Objects) : U32 → Option StoredObject := fun id => objects.lookup id

theorem table_insert (objects : Objects) (id : U32) (o : StoredObject) :
    table (objects.insert id o) = Function.update (table objects) id (some o) := by
  funext k
  by_cases hk : k = id
  · subst hk
    rw [Function.update_self]
    exact AList.lookup_insert objects
  · rw [Function.update_of_ne hk]
    exact AList.lookup_insert_ne hk

/-- What holds of every entry. -/
def Every (P : StoredObject → Prop) (objects : Objects) : Prop :=
  ∀ id, ∀ o ∈ table objects id, P o

theorem every_insert {P : StoredObject → Prop} {objects : Objects} (h : Every P objects) (id : U32)
    {o : StoredObject} (ho : P o) : Every P (objects.insert id o) := by
  intro id' o' h'
  rw [table_insert] at h'
  by_cases hid : id' = id
  · rw [hid, Function.update_self] at h'
    exact Option.some.inj h' ▸ ho
  · rw [Function.update_of_ne hid] at h'
    exact h id' o' h'

theorem every_merge {P : StoredObject → Prop} (mono : Int) (records : List Proto.ObjectRecord)
    (hr : ∀ r ∈ records, P ⟨objectOf r, mono⟩) {objects : Objects} (h : Every P objects) :
    Every P (mergeObjects mono records objects) := by
  induction records generalizing objects with
  | nil => exact h
  | cons r records ih =>
    exact ih (fun r' hr' => hr r' (List.mem_cons_of_mem r hr'))
      (every_insert h r.id (hr r List.mem_cons_self))

theorem table_prune (mono : Int) (s : StateStore) :
    table (s.prune mono) = fun id => (table s.objects id).filter fun o => !s.expired mono o := by
  funext id
  apply Option.ext
  intro o
  have hfilter : o ∈ table (s.prune mono) id ↔
      ⟨id, o⟩ ∈ s.objects.entries ∧ (!s.expired mono o) = true :=
    AList.mem_lookup_iff.trans List.mem_filter
  have hlookup : o ∈ table s.objects id ↔ ⟨id, o⟩ ∈ s.objects.entries := AList.mem_lookup_iff
  rw [← Option.mem_def, ← Option.mem_def, hfilter, ← hlookup]
  simp only [Option.mem_def, Option.filter_eq_some_iff]

theorem merge_represents {objects : Objects} {ws : List (U32 × StoredObject)}
    {dead : StoredObject → Prop} (h : Represents (table objects) ws dead) (mono : Int)
    (records : List Proto.ObjectRecord) :
    Represents (table (mergeObjects mono records objects))
      (ws ++ records.map fun r => (r.id, ⟨recordRow r, mono⟩)) dead := by
  induction records generalizing objects ws with
  | nil => simpa [mergeObjects] using h
  | cons r records ih =>
    have hr : Represents (table (objects.insert r.id ⟨objectOf r, mono⟩))
        (ws ++ [(r.id, ⟨recordRow r, mono⟩)]) dead := by
      simpa only [table_insert, objectOf_eq] using h.write r.id ⟨recordRow r, mono⟩
    have hrest := ih hr
    rw [List.append_assoc] at hrest
    exact hrest

/-- One call, when what it prunes is dead. -/
theorem step_represents {s : StateStore} {ws : List (U32 × StoredObject)}
    {dead : StoredObject → Prop} (h : Represents (table s.objects) ws dead) (c : Call)
    (hd : ∀ m ∈ c.snapshotStamp, ∀ o, s.expired m o = true → dead o) :
    Represents (table (c.step s).objects) (ws ++ c.written s) dead := by
  cases c with
  | countReceived bytes => simpa [Call.step, Call.written, countReceived] using h
  | countDropped kind => cases kind <;> simpa [Call.step, Call.written, countDropped] using h
  | apply pkt wall mono =>
    simp only [Call.step, Call.written, apply]
    cases s.staleSequence pkt.sequence with
    | true => simpa using h
    | false => exact merge_represents h mono pkt.objects
  | applyTrack u wall mono =>
    simpa only [Call.step, Call.written, applyTrack, table_insert] using h.write u.target.id _
  | snapshot mono =>
    have hdrop := h.drop (fun o => !s.expired mono o) fun o ho =>
      hd mono rfl o (by simpa using ho)
    simpa only [Call.step, Call.written, snapshot, table_prune, List.append_nil] using hdrop

theorem step_objectExpiry (c : Call) (s : StateStore) : (c.step s).objectExpiry = s.objectExpiry := by
  cases c with
  | countDropped kind => cases kind <;> rfl
  | apply pkt wall mono =>
    simp only [Call.step, apply]
    split <;> rfl
  | _ => rfl

/-- **A run.** The table represents the history, up to what its snapshots could
have pruned. -/
theorem run_represents {s : StateStore} {ws : List (U32 × StoredObject)}
    {dead : StoredObject → Prop} (h : Represents (table s.objects) ws dead) (calls : List Call)
    (hd : ∀ m ∈ snapshotStamps calls, ∀ o, s.expired m o = true → dead o) :
    Represents (table (run s calls).objects) (ws ++ history s calls) dead := by
  induction calls generalizing s ws with
  | nil => simpa [run, history] using h
  | cons c calls ih =>
    have hstamp {m : Int} (hm : m ∈ snapshotStamps calls) : m ∈ snapshotStamps (c :: calls) := by
      obtain ⟨c', hc', hm'⟩ := List.mem_filterMap.mp hm
      exact List.mem_filterMap.mpr ⟨c', List.mem_cons_of_mem c hc', hm'⟩
    have hstep := step_represents h c fun m hm =>
      hd m (List.mem_filterMap.mpr ⟨c, List.mem_cons_self, hm⟩)
    have hrun := ih hstep fun m hm o ho => by
      refine hd m (hstamp hm) o ?_
      simpa only [expired, step_objectExpiry] using ho
    rw [List.append_assoc] at hrun
    exact hrun

/-! ## Rows -/

theorem mem_rows {objects : Objects} {row : SnapshotObject} :
    row ∈ rows objects ↔ ∃ id o, table objects id = some o ∧ o.obj = row := by
  rw [rows, List.mem_insertionSort, List.mem_map]
  constructor
  · rintro ⟨⟨id, o⟩, he, rfl⟩
    exact ⟨id, o, AList.mem_lookup_iff.mpr he, rfl⟩
  · rintro ⟨id, o, ho, rfl⟩
    exact ⟨⟨id, o⟩, AList.mem_lookup_iff.mp ho, rfl⟩

/-- One row an id. -/
theorem length_rows (objects : Objects) :
    (rows objects).length = {id | table objects id ≠ none}.ncard := by
  have hkeys : {id | table objects id ≠ none} = objects.keys.toFinset := by
    ext id
    rw [List.coe_toFinset, Set.mem_ofPred_eq, Set.mem_ofPred_eq, ← AList.mem_keys, table,
      Option.ne_none_iff_isSome, AList.lookup_isSome]
  rw [hkeys, Set.ncard_coe_finset, List.toFinset_card_of_nodup objects.keys_nodup, rows,
    List.length_insertionSort, List.length_map, AList.keys, List.keys, List.length_map]

theorem rows_ascending {objects : Objects}
    (hkey : ∀ id o, table objects id = some o → o.obj.id = id) :
    (rows objects).Pairwise fun a b => a.id < b.id := by
  have htotal : Std.Total fun a b : SnapshotObject => a.id ≤ b.id := ⟨fun a b => BitVec.le_total a.id b.id⟩
  have htrans : IsTrans SnapshotObject fun a b => a.id ≤ b.id := ⟨fun _ _ _ => BitVec.le_trans⟩
  have hsorted : (rows objects).Pairwise fun a b => a.id ≤ b.id := List.pairwise_insertionSort _ _
  have hids : (objects.entries.map fun e => e.2.obj).map SnapshotObject.id = objects.keys := by
    rw [List.map_map]
    apply List.map_congr_left
    rintro ⟨id, o⟩ he
    exact hkey id o (AList.mem_lookup_iff.mpr he)
  have hdistinct : ((rows objects).map SnapshotObject.id).Nodup := by
    have hperm := (List.perm_insertionSort (fun a b : SnapshotObject => a.id ≤ b.id)
      (objects.entries.map fun e => e.2.obj)).map SnapshotObject.id
    exact hperm.nodup_iff.mpr (hids ▸ objects.keys_nodup)
  have hne := List.pairwise_map.mp hdistinct
  exact (hsorted.and hne).imp fun h => BitVec.lt_of_le_ne h.1 h.2

theorem written_keyed {c : Call} {s : StateStore} : ∀ w ∈ c.written s, w.2.obj.id = w.1 := by
  intro w hw
  cases c with
  | apply pkt wall mono =>
    simp only [Call.written] at hw
    split at hw
    · obtain ⟨r, _, rfl⟩ := List.mem_map.mp hw
      rfl
    · cases hw
  | applyTrack u wall mono =>
    rw [List.mem_singleton.mp hw]
  | _ => cases hw

theorem history_keyed {s : StateStore} {calls : List Call} :
    ∀ w ∈ history s calls, w.2.obj.id = w.1 := by
  induction calls generalizing s with
  | nil => exact fun _ h => nomatch h
  | cons c calls ih =>
    intro w hw
    rcases List.mem_append.mp hw with h | h
    · exact written_keyed w h
    · exact ih w h

/-! ## Snapshots do not matter to later ones -/

/-- What decides acceptance, and what a snapshot copies besides rows. -/
def core (s : StateStore) : Bool × U32 × Option SatelliteState × Option Ieee.F64 × Option Int :=
  (s.haveSeq, s.lastSeq, s.satellite, s.satelliteT, s.lastDataTime)

theorem core_step {s s' : StateStore} (h : s.core = s'.core) (c : Call) :
    (c.step s).core = (c.step s').core ∧ c.written s = c.written s' := by
  simp only [core, Prod.mk.injEq] at h
  obtain ⟨h1, h2, h3, h4, h5⟩ := h
  cases c with
  | countReceived bytes => simp [Call.step, Call.written, countReceived, core, h1, h2, h3, h4, h5]
  | countDropped kind =>
    cases kind <;> simp [Call.step, Call.written, countDropped, core, h1, h2, h3, h4, h5]
  | apply pkt wall mono =>
    have hstale : s.staleSequence pkt.sequence = s'.staleSequence pkt.sequence := by
      simp only [staleSequence, h1, h2]
    simp only [Call.step, Call.written, apply, hstale]
    cases s'.staleSequence pkt.sequence <;> simp [core, h1, h2, h3, h4, h5]
  | applyTrack u wall mono =>
    have hreplaces : s.replacesSatellite u = s'.replacesSatellite u := by
      simp only [replacesSatellite, h3, h4]
    simp [Call.step, Call.written, applyTrack, core, hreplaces, h1, h2, h3, h4]
  | snapshot mono => simp [Call.step, Call.written, snapshot, core, h1, h2, h3, h4, h5]

/-- A run and the same run without its snapshots. -/
theorem core_updates (s s' : StateStore) (h : s.core = s'.core) (calls : List Call) :
    (run s calls).core = (run s' (updates calls)).core ∧
      history s calls = history s' (updates calls) := by
  induction calls generalizing s s' with
  | nil => exact ⟨h, rfl⟩
  | cons c calls ih =>
    obtain ⟨hcore, hwritten⟩ := core_step h c
    cases hc : c.snapshotStamp with
    | none =>
      have hcons : updates (c :: calls) = c :: updates calls := by simp [updates, hc]
      obtain ⟨hr, hh⟩ := ih _ _ hcore
      rw [hcons]
      exact ⟨hr, by rw [history, history, hwritten, hh]⟩
    | some m =>
      have hcons : updates (c :: calls) = updates calls := by simp [updates, hc]
      have hsnap : c = .snapshot m := by
        cases c with
        | snapshot mono => exact congrArg _ (Option.some.inj hc)
        | _ => cases hc
      subst hsnap
      obtain ⟨hr, hh⟩ := ih ((Call.snapshot m).step s) s' h
      rw [hcons]
      exact ⟨hr, hh⟩

/-! ## What a snapshot lists -/

/-- The last accepted write of `id` in a run from an empty store. -/
def lastWrite (expiry : Int) (calls : List Call) (id : U32) : Option StoredObject :=
  last (history { objectExpiry := expiry } calls) id

/-- The snapshot stamps of the run and of a snapshot after it do not decrease. -/
def SnapshotsOrdered (calls : List Call) (m : Int) : Prop :=
  (snapshotStamps calls ++ [m]).Pairwise (· ≤ ·)

def snapshotAfter (expiry : Int) (calls : List Call) (m : Int) : Snapshot :=
  ((run { objectExpiry := expiry } calls).snapshot m).1

theorem run_objectExpiry (s : StateStore) (calls : List Call) :
    (run s calls).objectExpiry = s.objectExpiry := by
  induction calls generalizing s with
  | nil => rfl
  | cons c calls ih => exact (ih (c.step s)).trans (step_objectExpiry c s)

/-- Every id has its last write, unless a snapshot could prune that. -/
theorem table_run (expiry : Int) (calls : List Call) (id : U32) :
    table (run { objectExpiry := expiry } calls).objects id = lastWrite expiry calls id ∨
    (table (run { objectExpiry := expiry } calls).objects id = none ∧
      ∃ o, lastWrite expiry calls id = some o ∧
        ∃ m ∈ snapshotStamps calls, m - o.lastUpdate > seconds expiry) :=
  run_represents (s := { objectExpiry := expiry }) Represents.empty calls
    (fun m hm _ ho => ⟨m, hm, of_decide_eq_true ho⟩) id

theorem table_snapshot {expiry : Int} {calls : List Call} {m : Int}
    (h : SnapshotsOrdered calls m) (id : U32) (o : StoredObject) :
    table ((run { objectExpiry := expiry } calls).prune m) id = some o ↔
      lastWrite expiry calls id = some o ∧ m - o.lastUpdate ≤ seconds expiry := by
  have hle : ∀ m' ∈ snapshotStamps calls, m' ≤ m := fun m' hm' =>
    (List.pairwise_append.mp h).2.2 m' hm' m (List.mem_singleton.mpr rfl)
  simp only [table_prune, Option.filter_eq_some_iff, expired, run_objectExpiry, gt_iff_lt,
    Bool.not_eq_true', decide_eq_false_iff_not, not_lt]
  have hrun : Represents (table (run { objectExpiry := expiry } calls).objects)
      (history { objectExpiry := expiry } calls) fun o =>
        ∃ m ∈ snapshotStamps calls, m - o.lastUpdate > seconds expiry := table_run expiry calls
  -- What is live now was live at every snapshot before.
  refine and_congr_left fun hlive => hrun.live_iff ?_
  rintro ⟨m', hm', hdead⟩
  have := hle m' hm'
  omega

theorem mem_snapshotAfter {expiry : Int} {calls : List Call} {m : Int}
    (h : SnapshotsOrdered calls m) (row : SnapshotObject) :
    row ∈ (snapshotAfter expiry calls m).objects ↔
      ∃ o, lastWrite expiry calls row.id = some o ∧ o.obj = row ∧
        m - o.lastUpdate ≤ seconds expiry := by
  have hmem : row ∈ (snapshotAfter expiry calls m).objects ↔ ∃ id o,
      table ((run { objectExpiry := expiry } calls).prune m) id = some o ∧ o.obj = row := mem_rows
  rw [hmem]
  constructor
  · rintro ⟨id, o, ho, rfl⟩
    obtain ⟨hlast, hlive⟩ := (table_snapshot h id o).mp ho
    have hid : o.obj.id = id := history_keyed _ (LastWrite.mem_of_last hlast)
    exact ⟨o, hid ▸ hlast, rfl, hlive⟩
  · rintro ⟨o, hlast, rfl, hlive⟩
    exact ⟨_, o, (table_snapshot h _ o).mpr ⟨hlast, hlive⟩, rfl⟩

theorem snapshotAfter_ascending {expiry : Int} {calls : List Call} {m : Int}
    (h : SnapshotsOrdered calls m) :
    (snapshotAfter expiry calls m).objects.Pairwise fun a b => a.id < b.id :=
  rows_ascending fun id o ho =>
    history_keyed _ (LastWrite.mem_of_last ((table_snapshot h id o).mp ho).1)

/-- **The object table is exactly the unexpired last writes**, by ascending id,
and snapshots taken before make no difference. -/
theorem snapshot_unexpired (expiry : Int) (calls : List Call) (m : Int)
    (h : SnapshotsOrdered calls m) :
    (∀ id, (∃ row ∈ (snapshotAfter expiry calls m).objects, row.id = id) ↔
      ∃ o, lastWrite expiry calls id = some o ∧ m - o.lastUpdate ≤ seconds expiry) ∧
    (∀ row ∈ (snapshotAfter expiry calls m).objects,
      ∃ o, lastWrite expiry calls row.id = some o ∧ o.obj = row) ∧
    (snapshotAfter expiry calls m).objects.Pairwise (fun a b => a.id < b.id) ∧
    ∀ calls', updates calls' = updates calls → SnapshotsOrdered calls' m →
      (snapshotAfter expiry calls' m).objects = (snapshotAfter expiry calls m).objects ∧
      (snapshotAfter expiry calls' m).satellite = (snapshotAfter expiry calls m).satellite ∧
      (snapshotAfter expiry calls' m).lastDataTime = (snapshotAfter expiry calls m).lastDataTime := by
  have hasc : (snapshotAfter expiry calls m).objects.Pairwise fun a b => a.id < b.id :=
    snapshotAfter_ascending h
  refine ⟨fun id => ?_, fun row hrow => ?_, hasc, fun calls' hu h' => ?_⟩
  · constructor
    · rintro ⟨row, hrow, rfl⟩
      obtain ⟨o, hlast, _, hlive⟩ := (mem_snapshotAfter h row).mp hrow
      exact ⟨o, hlast, hlive⟩
    · rintro ⟨o, hlast, hlive⟩
      have hid : o.obj.id = id := history_keyed _ (LastWrite.mem_of_last hlast)
      exact ⟨o.obj, (mem_snapshotAfter h o.obj).mpr ⟨o, hid ▸ hlast, rfl, hlive⟩, hid⟩
  · obtain ⟨o, hlast, hobj, _⟩ := (mem_snapshotAfter h row).mp hrow
    exact ⟨o, hlast, hobj⟩
  · obtain ⟨hcore, hhist⟩ := core_updates { objectExpiry := expiry } _ rfl calls
    obtain ⟨hcore', hhist'⟩ := core_updates { objectExpiry := expiry } _ rfl calls'
    rw [hu] at hcore' hhist'
    have hsame := hcore'.trans hcore.symm
    simp only [core, Prod.mk.injEq] at hsame
    refine ⟨?_, hsame.2.2.1, hsame.2.2.2.2⟩
    have hirr : Std.Irrefl fun a b : SnapshotObject => a.id < b.id := ⟨fun a => BitVec.lt_irrefl a.id⟩
    apply (snapshotAfter_ascending h').eq_of_mem_iff hasc
    intro row
    rw [mem_snapshotAfter h', mem_snapshotAfter h, lastWrite, lastWrite, hhist', hhist]

/-- Object 9 written at time 0 and listed at 5 s. -/
def sampleCalls : List Call :=
  [.apply { sequence := 7, objects := [{ id := 9 }] } 0 0, .snapshot (seconds 5)]

theorem snapshot_unexpired_sample :
    ∃ row ∈ (snapshotAfter 15 sampleCalls (seconds 15)).objects, row.id = 9 :=
  ((snapshot_unexpired 15 sampleCalls (seconds 15) (by unfold SnapshotsOrdered; decide)).1 9).mpr
    ⟨⟨recordRow { id := 9 }, 0⟩, rfl, by decide⟩

end Olv.StateStore
