import OrbitalViewer.Mission

/-!
# Frames of a mission

Rows come in any order, and `buildFrames` makes a frame of the rows of each time:
what a frame is made of is said of the rows alone (`FrameOf`), so the order of
rows with different times does not matter (`build_frames`).
-/

namespace Olv.Sim
open Ieee (F64)
open Proto (ObjectRecord)
open OrderedMap (Ranks Ascending entryAt)

def CsvRow.time (row : CsvRow) : ℚ := row.timeS.datum.toRat

/-- The rows of a time, in their order. -/
def rowsAt (rows : List CsvRow) (t : ℚ) : List CsvRow := rows.filter fun row => row.time = t

/-- The last satellite of the latest time up to `t` that has one. -/
def SatelliteAt (rows : List CsvRow) (t : ℚ) (sat : ObjectRecord) : Prop :=
  ∃ latest row, IsGreatest {t' | t' ≤ t ∧ ∃ row ∈ rowsAt rows t', row.isSat} latest ∧
    ((rowsAt rows latest).filter CsvRow.isSat).getLast? = some row ∧ sat = row.record

/-- What the frame of a time is made of. -/
structure FrameOf (rows : List CsvRow) (t : ℚ) (frame : Frame) : Prop where
  time : frame.t.datum.toRat = t
  objects : frame.objects = ((rowsAt rows t).filter fun row => !row.isSat).map CsvRow.record
  sat : SatelliteAt rows t frame.sat

/-! ## Groups -/

/-- A group is filled by the rows of its time. -/
structure Group.Holds (g : Group) (rows : List CsvRow) : Prop where
  t : ∀ row ∈ rows.getLast?, g.t = row.timeS
  hasSat : g.hasSat = rows.any CsvRow.isSat
  sat : ∀ row ∈ (rows.filter CsvRow.isSat).getLast?, g.sat = row.record
  objects : g.objects = (rows.filter fun row => !row.isSat).map CsvRow.record

theorem Group.Holds.add {g : Group} {rows : List CsvRow} (h : g.Holds rows) (row : CsvRow) :
    (g.add row).Holds (rows ++ [row]) := by
  unfold Group.add
  cases hrow : row.isSat with
  | true =>
    rw [if_pos rfl]
    constructor
    · simp
    · simp [hrow]
    · simp [List.filter_append, hrow]
    · simpa [List.filter_append, hrow] using h.objects
  | false =>
    rw [if_neg Bool.false_ne_true]
    constructor
    · simp
    · simpa [hrow] using h.hasSat
    · simpa [List.filter_append, hrow] using h.sat
    · simpa [List.filter_append, hrow] using h.objects

theorem holds_foldl (rows : List CsvRow) : (rows.foldl Group.add {}).Holds rows := by
  induction rows using List.reverseRecOn with
  | nil => constructor <;> simp
  | append_singleton rows row ih =>
    rw [List.foldl_append]
    exact ih.add row

theorem mem_rowsAt {rows : List CsvRow} {t : ℚ} {row : CsvRow} :
    row ∈ rowsAt rows t ↔ row ∈ rows ∧ row.time = t := by
  simp [rowsAt]

def rank (t : F64) : ℚ := t.datum.toRat

theorem ranks_time : Ranks (fun a b : F64 => a.datum.lt b.datum) rank
    {t | t.datum.isFinite = true} :=
  fun _ ha _ hb => Ieee.Datum.lt_iff ha hb

section Groups
variable {rows : List CsvRow} (hfinite : ∀ row ∈ rows, row.timeS.datum.isFinite = true)
include hfinite

theorem byTime_ascending : Ascending rank {t | t.datum.isFinite = true} (byTime rows) :=
  OrderedMap.collect_ascending ({} : Group) Group.add ranks_time hfinite

theorem byTime_entryAt (t : ℚ) : entryAt rank t (byTime rows) =
    (rowsAt rows t).head?.map fun row => (row.timeS, (rowsAt rows t).foldl Group.add {}) :=
  OrderedMap.entryAt_collect ({} : Group) Group.add ranks_time hfinite t

theorem byTime_holds {e : F64 × Group} (he : e ∈ byTime rows) :
    rowsAt rows (rank e.1) ≠ [] ∧ e.2.Holds (rowsAt rows (rank e.1)) := by
  have hentry := (byTime_entryAt hfinite _).symm.trans ((byTime_ascending hfinite).entryAt_mem he)
  obtain ⟨row, hrow, heq⟩ := Option.map_eq_some_iff.mp hentry
  refine ⟨List.ne_nil_of_mem (List.mem_of_mem_head? hrow), ?_⟩
  have hgroup : e.2 = (rowsAt rows (rank e.1)).foldl Group.add {} := congrArg Prod.snd heq.symm
  rw [hgroup]
  exact holds_foldl _

theorem exists_group {row : CsvRow} (hrow : row ∈ rows) :
    ∃ e ∈ byTime rows, rank e.1 = row.time := by
  have hmem : row ∈ rowsAt rows row.time := mem_rowsAt.mpr ⟨hrow, rfl⟩
  have hentry := byTime_entryAt hfinite row.time
  cases hrows : rowsAt rows row.time with
  | nil =>
    rw [hrows] at hmem
    cases hmem
  | cons first rest =>
    rw [hrows] at hentry
    exact ⟨_, List.mem_of_find?_eq_some hentry, by simpa using List.find?_some hentry⟩

theorem hasSat_iff {e : F64 × Group} (he : e ∈ byTime rows) :
    e.2.hasSat = true ↔ ∃ row ∈ rowsAt rows (rank e.1), row.isSat = true := by
  rw [(byTime_holds hfinite he).2.hasSat, List.any_eq_true]

end Groups

/-! ## Satellites are carried forward in the order of time -/

/-- `lastSat` is the satellite of the latest group that has one. -/
def Latest (done : List (F64 × Group)) (lastSat : Option ObjectRecord) : Prop :=
  ∃ e ∈ done, e.2.hasSat = true ∧ (∀ e' ∈ done, e'.2.hasSat = true → rank e'.1 ≤ rank e.1) ∧
    lastSat = some e.2.sat

theorem Latest.next {done : List (F64 × Group)} {e : F64 × Group} {lastSat : Option ObjectRecord}
    (hbelow : ∀ e' ∈ done, rank e'.1 < rank e.1) (h : Latest done lastSat ∨ e.2.hasSat = true) :
    Latest (done ++ [e]) (if e.2.hasSat then some e.2.sat else lastSat) := by
  by_cases hsat : e.2.hasSat = true
  · rw [if_pos hsat]
    refine ⟨e, by simp, hsat, fun e' he' _ => ?_, rfl⟩
    rcases List.mem_append.mp he' with hdone | hlast
    · exact (hbelow e' hdone).le
    · exact List.mem_singleton.mp hlast ▸ le_rfl
  · rw [if_neg hsat]
    obtain ⟨e₀, he₀, hsat₀, hmax, hlast⟩ := h.resolve_right hsat
    refine ⟨e₀, List.mem_append_left _ he₀, hsat₀, fun e' he' hsat' => ?_, hlast⟩
    rcases List.mem_append.mp he' with hdone | hnew
    · exact hmax e' hdone hsat'
    · exact absurd (List.mem_singleton.mp hnew ▸ hsat') hsat

section Frames
variable {rows : List CsvRow} (hfinite : ∀ row ∈ rows, row.timeS.datum.isFinite = true)
include hfinite

theorem satelliteAt {done later : List (F64 × Group)} {e : F64 × Group} {sat : ObjectRecord}
    (hby : byTime rows = done ++ e :: later) (h : Latest (done ++ [e]) (some sat)) :
    SatelliteAt rows (rank e.1) sat := by
  have hranks := (byTime_ascending hfinite).ranks
  rw [hby, List.pairwise_append, List.pairwise_cons] at hranks
  obtain ⟨_, ⟨habove, _⟩, hbelow⟩ := hranks
  have hmem : ∀ e' ∈ done ++ [e], e' ∈ byTime rows ∧ rank e'.1 ≤ rank e.1 := by
    intro e' he'
    rw [hby]
    rcases List.mem_append.mp he' with hdone | hlast
    · exact ⟨List.mem_append_left _ hdone, (hbelow e' hdone e List.mem_cons_self).le⟩
    · obtain rfl := List.mem_singleton.mp hlast
      exact ⟨by simp, le_rfl⟩
  obtain ⟨e₀, he₀, hsat₀, hmax, heq⟩ := h
  obtain ⟨hin, hle⟩ := hmem e₀ he₀
  obtain ⟨row, hrow, hisSat⟩ := (hasSat_iff hfinite hin).mp hsat₀
  have hne : (rowsAt rows (rank e₀.1)).filter CsvRow.isSat ≠ [] :=
    List.ne_nil_of_mem (List.mem_filter.mpr ⟨hrow, hisSat⟩)
  obtain ⟨last, hlast⟩ : ∃ last, _ = some last := ⟨_, List.getLast?_eq_some_getLast hne⟩
  refine ⟨rank e₀.1, last, ⟨⟨hle, row, hrow, hisSat⟩, ?_⟩, hlast,
    (Option.some.inj heq).trans ((byTime_holds hfinite hin).2.sat last hlast)⟩
  rintro t' ⟨hle', row', hrow', hisSat'⟩
  obtain ⟨hrows', htime⟩ := mem_rowsAt.mp hrow'
  obtain ⟨e', he', hrank⟩ := exists_group hfinite hrows'
  have ht' : rank e'.1 = t' := hrank.trans htime
  have hsat' : e'.2.hasSat = true :=
    (hasSat_iff hfinite he').mpr ⟨row', ht'.symm ▸ hrow', hisSat'⟩
  rw [← ht']
  rw [hby] at he'
  rcases List.mem_append.mp he' with hdone | hrest
  · exact hmax e' (List.mem_append_left _ hdone) hsat'
  · rcases List.mem_cons.mp hrest with rfl | hlater
    · exact hmax e' (by simp) hsat'
    · exact absurd (ht' ▸ hle') (habove e' hlater).not_ge

theorem framesOf_rows {done groups : List (F64 × Group)} {lastSat : Option ObjectRecord}
    (hby : byTime rows = done ++ groups)
    (h : Latest done lastSat ∨ ∀ e ∈ groups.head?, e.2.hasSat = true) :
    List.Forall₂ (FrameOf rows) (groups.map fun e => rank e.1) (framesOf lastSat groups) := by
  induction groups generalizing done lastSat with
  | nil => exact .nil
  | cons e groups ih =>
    have hranks := (byTime_ascending hfinite).ranks
    rw [hby, List.pairwise_append] at hranks
    have hnext := Latest.next (fun e' he' => hranks.2.2 e' he' e List.mem_cons_self)
      (h.imp_right fun hhead => hhead e rfl)
    have hin : e ∈ byTime rows := by simp [hby]
    obtain ⟨hne, hholds⟩ := byTime_holds hfinite hin
    obtain ⟨last, hlast⟩ : ∃ last, _ = some last := ⟨_, List.getLast?_eq_some_getLast hne⟩
    have hsplit : byTime rows = (done ++ [e]) ++ groups := by simp [hby]
    rw [framesOf, List.map_cons]
    refine .cons ⟨?_, hholds.objects, ?_⟩ (ih hsplit (.inl hnext))
    · show e.2.t.datum.toRat = rank e.1
      rw [hholds.t last hlast]
      exact (mem_rowsAt.mp (List.mem_of_mem_getLast? hlast)).2
    · obtain ⟨e₀, _, _, _, hsome⟩ := id hnext
      rw [hsome] at hnext ⊢
      exact satelliteAt hfinite hby hnext

theorem mem_times {t : ℚ} :
    t ∈ (byTime rows).map (fun e => rank e.1) ↔ ∃ row ∈ rows, row.time = t := by
  rw [List.mem_map]
  constructor
  · rintro ⟨e, he, rfl⟩
    obtain ⟨row, hrow⟩ := List.exists_mem_of_ne_nil _ (byTime_holds hfinite he).1
    exact ⟨row, mem_rowsAt.mp hrow⟩
  · rintro ⟨row, hrow, rfl⟩
    exact exists_group hfinite hrow

/-- The map of the rows does not depend on the order of rows of different times. -/
theorem byTime_congr {rows' : List CsvRow} (h : ∀ t, rowsAt rows' t = rowsAt rows t) :
    byTime rows' = byTime rows := by
  have hfinite' : ∀ row ∈ rows', row.timeS.datum.isFinite = true := by
    intro row hrow
    have hmem : row ∈ rowsAt rows' row.time := mem_rowsAt.mpr ⟨hrow, rfl⟩
    rw [h] at hmem
    exact hfinite row (mem_rowsAt.mp hmem).1
  apply (byTime_ascending hfinite').ext (byTime_ascending hfinite)
  intro t
  rw [byTime_entryAt hfinite', byTime_entryAt hfinite, h]

end Frames

/-- Only a first group without a satellite is an error. -/
theorem error_cons {rows : List CsvRow} {e : F64 × Group} {groups : List (F64 × Group)}
    (hby : byTime rows = e :: groups) :
    (buildFrames rows).error.isSome = true ↔ e.2.hasSat = false := by
  unfold buildFrames
  rw [hby]
  cases hsat : e.2.hasSat <;> simp [hsat]

section Build
variable {rows : List CsvRow} (hfinite : ∀ row ∈ rows, row.timeS.datum.isFinite = true)
include hfinite

theorem first_time {e : F64 × Group} {groups : List (F64 × Group)} (hby : byTime rows = e :: groups) :
    IsLeast {t | ∃ row ∈ rows, row.time = t} (rank e.1) := by
  have hranks := (byTime_ascending hfinite).ranks
  have hin : e ∈ byTime rows := hby ▸ List.mem_cons_self
  refine ⟨(mem_times hfinite).mp (List.mem_map_of_mem hin), fun t ht => ?_⟩
  obtain ⟨e', he', rfl⟩ := List.mem_map.mp ((mem_times hfinite).mpr ht)
  rw [hby] at he' hranks
  rcases List.mem_cons.mp he' with rfl | he'
  · exact le_rfl
  · exact ((List.pairwise_cons.mp hranks).1 e' he').le

/-- An error is a first time without a satellite. -/
theorem error_iff : (buildFrames rows).error.isSome = true ↔
    ∃ first, IsLeast {t | ∃ row ∈ rows, row.time = t} first ∧
      ∀ row ∈ rowsAt rows first, row.isSat = false := by
  cases hby : byTime rows with
  | nil =>
    rw [buildFrames, hby]
    refine iff_of_false Bool.false_ne_true ?_
    rintro ⟨first, ⟨⟨row, hrow, _⟩, _⟩, _⟩
    obtain ⟨e, he, _⟩ := exists_group hfinite hrow
    rw [hby] at he
    cases he
  | cons e groups =>
    have hin : e ∈ byTime rows := hby ▸ List.mem_cons_self
    have hleast := first_time hfinite hby
    rw [error_cons hby, ← Bool.not_eq_true, hasSat_iff hfinite hin]
    simp only [not_exists, not_and, Bool.not_eq_true]
    constructor
    · intro hno
      exact ⟨rank e.1, hleast, hno⟩
    · rintro ⟨first, hfirst, hno⟩
      exact hfirst.unique hleast ▸ hno

theorem frames_follow (hok : (buildFrames rows).error = none) :
    List.Forall₂ (FrameOf rows) ((byTime rows).map fun e => rank e.1) (buildFrames rows).frames := by
  cases hby : byTime rows with
  | nil =>
    rw [buildFrames, hby]
    exact .nil
  | cons e groups =>
    have hsat : e.2.hasSat = true := by
      by_contra hno
      have herror := (error_cons hby).mpr (Bool.eq_false_iff.mpr hno)
      rw [hok] at herror
      cases herror
    have hframes : (buildFrames rows).frames = framesOf none (byTime rows) := by
      rw [buildFrames, hby]
      exact congrArg GroupResult.frames (if_pos hsat)
    rw [hframes, ← hby]
    have hall : byTime rows = [] ++ byTime rows := rfl
    refine framesOf_rows hfinite hall (.inr fun e' he' => ?_)
    rw [hby] at he'
    exact Option.some.inj he' ▸ hsat

end Build

/-- **Frames say what the rows say**, in whatever order rows of different times come. -/
theorem build_frames (rows : List CsvRow)
    (hfinite : ∀ row ∈ rows, row.timeS.datum.isFinite = true) :
    ((buildFrames rows).error.isSome = true ↔
      ∃ first, IsLeast {t | ∃ row ∈ rows, row.time = t} first ∧
        ∀ row ∈ rowsAt rows first, row.isSat = false) ∧
    ((buildFrames rows).error = none → ∃ times : List ℚ, times.Pairwise (· < ·) ∧
      (∀ t, t ∈ times ↔ ∃ row ∈ rows, row.time = t) ∧
      List.Forall₂ (FrameOf rows) times (buildFrames rows).frames) ∧
    ∀ rows', (∀ t, rowsAt rows' t = rowsAt rows t) → buildFrames rows' = buildFrames rows := by
  have htimes : ((byTime rows).map fun e => rank e.1).Pairwise (· < ·) := by
    rw [List.pairwise_map]
    exact (byTime_ascending hfinite).ranks
  refine ⟨error_iff hfinite, fun hok => ⟨_, htimes, fun t => mem_times hfinite, ?_⟩,
    fun rows' h => ?_⟩
  · exact frames_follow hfinite hok
  · rw [buildFrames, buildFrames, byTime_congr hfinite h]

/-- An object at 2 before a satellite and an object at 1. -/
def sampleRows : List CsvRow :=
  [{ timeS := .ofNat 2 }, { timeS := .ofNat 1, isSat := true }, { timeS := .ofNat 1 }]

theorem build_frames_sample :
    (∃ times : List ℚ, times.Pairwise (· < ·) ∧
      (∀ t, t ∈ times ↔ ∃ row ∈ sampleRows, row.time = t) ∧
      List.Forall₂ (FrameOf sampleRows) times (buildFrames sampleRows).frames) ∧
    buildFrames (sampleRows.rotate 1) = buildFrames sampleRows := by
  obtain ⟨_, hframes, horder⟩ := build_frames sampleRows (by decide +kernel)
  refine ⟨hframes (by decide +kernel), horder _ fun t => ?_⟩
  have htwo : (F64.ofNat 2).datum.toRat = 2 := by decide +kernel
  have hone : (F64.ofNat 1).datum.toRat = 1 := by decide +kernel
  simp only [rowsAt, sampleRows, List.rotate_cons_succ, List.rotate_zero, List.cons_append,
    List.nil_append, List.filter_cons, CsvRow.time, htwo, hone]
  by_cases ht : (2 : ℚ) = t
  · subst ht
    norm_num
  · simp [ht]

end Olv.Sim
