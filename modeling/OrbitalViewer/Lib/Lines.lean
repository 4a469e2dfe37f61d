import Mathlib

/-!
# Lines of a text

A text is lines, each with a separator after it, and a rest without one. Every
text can be written so (`exists_joined`), and splitting it at the separators
gives the lines and the rest back (`splitOn_joined`). Dropping the blanks at both
ends of a line leaves what stands between them (`trimmed_iff`).
-/

namespace Lines

variable {α : Type} {sep : α} {lines : List (List α)} {rest : List α}

def joined (sep : α) (lines : List (List α)) (rest : List α) : List α :=
  lines.flatMap (· ++ [sep]) ++ rest

/-- No line holds the separator. -/
structure Unbroken (sep : α) (lines : List (List α)) (rest : List α) : Prop where
  lines : ∀ l ∈ lines, sep ∉ l
  rest : sep ∉ rest

theorem joined_nil (rest : List α) : joined sep [] rest = rest := rfl

theorem joined_cons (l : List α) (lines : List (List α)) (rest : List α) :
    joined sep (l :: lines) rest = l ++ sep :: joined sep lines rest := by
  simp [joined]

theorem Unbroken.tail {l : List α} (h : Unbroken sep (l :: lines) rest) :
    sep ∉ l ∧ Unbroken sep lines rest :=
  ⟨h.lines l List.mem_cons_self, fun k hk => h.lines k (List.mem_cons_of_mem l hk), h.rest⟩

/-- A text ends with the separator when it has lines and no rest. -/
theorem getLast?_joined (h : Unbroken sep lines rest) :
    (joined sep lines rest).getLast? = some sep ↔ lines ≠ [] ∧ rest = [] := by
  rcases List.eq_nil_or_concat' rest with rfl | ⟨front, last, rfl⟩
  · rcases List.eq_nil_or_concat' lines with rfl | ⟨front, last, rfl⟩
    · simp [joined]
    · simp [joined]
  · have hlast : last ≠ sep := by
      rintro rfl
      exact h.rest (by simp)
    have hlast' : (joined sep lines (front ++ [last])).getLast? = some last := by
      rw [joined, ← List.append_assoc, List.getLast?_concat]
    rw [hlast']
    simp [hlast]

section Split
variable [DecidableEq α]

/-- What stands before the first separator, and what from it on. -/
theorem cut_cons {l t : List α} (hl : sep ∉ l) :
    (l ++ sep :: t).takeWhile (· ≠ sep) = l ∧ (l ++ sep :: t).dropWhile (· ≠ sep) = sep :: t := by
  have hne : ∀ c ∈ l, decide (c ≠ sep) = true := by
    intro c hc
    exact decide_eq_true fun heq => hl (heq ▸ hc)
  rw [List.takeWhile_append_of_pos hne, List.dropWhile_append_of_pos hne]
  simp

theorem cut_last {l : List α} (hl : sep ∉ l) :
    l.takeWhile (· ≠ sep) = l ∧ l.dropWhile (· ≠ sep) = [] := by
  have hne : ∀ c ∈ l, decide (c ≠ sep) = true := by
    intro c hc
    exact decide_eq_true fun heq => hl (heq ▸ hc)
  exact ⟨List.takeWhile_eq_self_iff.mpr hne, List.dropWhile_eq_nil_iff.mpr hne⟩

theorem splitOn_joined (h : Unbroken sep lines rest) :
    (joined sep lines rest).splitOn sep = lines ++ [rest] := by
  induction lines with
  | nil => exact List.splitOn_eq_singleton h.rest
  | cons l lines ih =>
    obtain ⟨hl, htail⟩ := h.tail
    rw [joined_cons, List.splitOn_append_cons_self_of_not_mem hl, ih htail, List.cons_append]

theorem exists_joined (sep : α) (text : List α) :
    ∃ lines rest, text = joined sep lines rest ∧ Unbroken sep lines rest := by
  induction text with
  | nil => exact ⟨[], [], rfl, fun _ hl => (nomatch hl), List.not_mem_nil⟩
  | cons c text ih =>
    obtain ⟨lines, rest, rfl, h⟩ := ih
    by_cases hc : c = sep
    · subst hc
      refine ⟨[] :: lines, rest, (joined_cons [] lines rest).symm, ?_, h.rest⟩
      exact List.forall_mem_cons.mpr ⟨List.not_mem_nil, h.lines⟩
    · cases lines with
      | nil =>
        refine ⟨[], c :: rest, rfl, fun _ hl => (nomatch hl), ?_⟩
        rw [List.mem_cons]
        exact not_or.mpr ⟨fun hsep => hc hsep.symm, h.rest⟩
      | cons l lines =>
        obtain ⟨hl, htail⟩ := h.tail
        refine ⟨(c :: l) :: lines, rest, ?_, ?_, h.rest⟩
        · rw [joined_cons, joined_cons, List.cons_append]
        · refine List.forall_mem_cons.mpr ⟨?_, htail.lines⟩
          rw [List.mem_cons]
          exact not_or.mpr ⟨fun hsep => hc hsep.symm, hl⟩

theorem splitOn_iff {text : List α} : text.splitOn sep = lines ++ [rest] ↔
    text = joined sep lines rest ∧ Unbroken sep lines rest := by
  constructor
  · intro h
    obtain ⟨lines', rest', rfl, hunbroken⟩ := exists_joined sep text
    rw [splitOn_joined hunbroken] at h
    obtain ⟨rfl, hrest⟩ := List.append_inj' h rfl
    obtain ⟨rfl, _⟩ := List.cons.inj hrest
    exact ⟨rfl, hunbroken⟩
  · rintro ⟨rfl, h⟩
    exact splitOn_joined h

/-- The cells that a separator joins, when none of them holds it. -/
theorem splitOn_eq_iff {text : List α} {cells : List (List α)} (hne : cells ≠ []) :
    text.splitOn sep = cells ↔ text = [sep].intercalate cells ∧ ∀ cell ∈ cells, sep ∉ cell := by
  constructor
  · rintro rfl
    refine ⟨(List.intercalate_splitOn sep).symm, ?_⟩
    obtain ⟨lines, rest, rfl, h⟩ := exists_joined sep text
    rw [splitOn_joined h]
    intro cell hcell
    rcases List.mem_append.mp hcell with hline | hrest
    · exact h.lines cell hline
    · exact List.mem_singleton.mp hrest ▸ h.rest
  · rintro ⟨rfl, hfree⟩
    exact List.splitOn_intercalate sep hfree hne

end Split

/-! ## Blanks around a text -/

/-- `core` is what a text holds between the blanks at its ends. -/
structure Trimmed (blank : α → Prop) (text core : List α) : Prop where
  ends : ∃ before after, text = before ++ core ++ after ∧ (∀ c ∈ before, blank c) ∧
    ∀ c ∈ after, blank c
  head : ∀ c ∈ core.head?, ¬ blank c
  last : ∀ c ∈ core.getLast?, ¬ blank c

variable {blank : α → Prop} {p : α → Bool} {text core : List α}

theorem trimmed_drop (hp : ∀ c, p c = true ↔ blank c) (text : List α) :
    Trimmed blank text ((text.dropWhile p).rdropWhile p) where
  ends := by
    refine ⟨text.takeWhile p, (text.dropWhile p).rtakeWhile p, ?_, ?_, ?_⟩
    · rw [List.append_assoc, List.rdropWhile_append_rtakeWhile, List.takeWhile_append_dropWhile]
    · intro c hc
      exact (hp c).mp (List.mem_takeWhile_imp hc)
    · intro c hc
      exact (hp c).mp (List.mem_rtakeWhile_imp hc)
  head := by
    intro c hc hblank
    obtain ⟨rest, hrest⟩ := List.rdropWhile_prefix p (text.dropWhile p)
    cases hcore : (text.dropWhile p).rdropWhile p with
    | nil =>
      rw [hcore] at hc
      cases hc
    | cons d ds =>
      rw [hcore] at hc hrest
      obtain rfl := Option.some.inj hc
      have hdrop := List.head?_dropWhile_not p text
      rw [← hrest, List.cons_append, List.head?_cons] at hdrop
      exact absurd ((hp _).mpr hblank) (by simpa using hdrop)
  last := by
    intro c hc hblank
    have hne : (text.dropWhile p).rdropWhile p ≠ [] := by
      intro hnil
      rw [hnil] at hc
      cases hc
    have hlast := List.rdropWhile_last_not p _ hne
    rw [List.getLast?_eq_some_getLast hne] at hc
    obtain rfl := Option.some.inj hc
    exact hlast ((hp _).mpr hblank)

theorem Trimmed.drop (h : Trimmed blank text core) (hp : ∀ c, p c = true ↔ blank c) :
    (text.dropWhile p).rdropWhile p = core := by
  obtain ⟨⟨before, after, rfl, hbefore, hafter⟩, hhead, hlast⟩ := h
  rw [List.append_assoc, List.dropWhile_append_of_pos fun c hc => (hp c).mpr (hbefore c hc)]
  cases core with
  | nil =>
    have hnil : List.dropWhile p ([] ++ after) = [] :=
      List.dropWhile_eq_nil_iff.mpr fun c hc => (hp c).mpr (hafter c hc)
    rw [hnil, List.rdropWhile_nil]
  | cons c cs =>
    have hc : ¬ p c = true := fun hpc => hhead c rfl ((hp c).mp hpc)
    have hrev : ∀ d ∈ after.reverse, p d = true :=
      fun d hd => (hp d).mpr (hafter d (List.mem_reverse.mp hd))
    rw [List.cons_append, List.dropWhile_cons_of_neg hc, ← List.cons_append, List.rdropWhile,
      List.reverse_append, List.dropWhile_append_of_pos hrev]
    show (c :: cs).rdropWhile p = c :: cs
    refine List.rdropWhile_eq_self_iff.mpr fun hne hpl => ?_
    exact hlast _ (List.getLast?_eq_some_getLast hne) ((hp _).mp hpl)

theorem trimmed_iff (hp : ∀ c, p c = true ↔ blank c) :
    (text.dropWhile p).rdropWhile p = core ↔ Trimmed blank text core :=
  ⟨fun h => h ▸ trimmed_drop hp text, fun h => h.drop hp⟩

end Lines
