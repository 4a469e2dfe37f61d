import Mathlib

/-!
# Families stepped member by member

A step that may fail is taken by some members of a family, one after another
(`each`). Members that are distinct do not see each other: if every one of them
can step from where it stands, then all do, and the others stay (`each_eq`).
-/

namespace Family

variable {ι α : Type} [DecidableEq ι]

/-- One member steps. -/
def stepAt (f : α → Option α) (x : ι → α) (i : ι) : Option (ι → α) :=
  (f (x i)).map (Function.update x i)

/-- The members `l` step in turn. -/
def each (f : α → Option α) (l : List ι) (x : ι → α) : Option (ι → α) := l.foldlM (stepAt f) x

variable {f : α → Option α} {l : List ι} {x : ι → α}

/-- **Every member steps from where it stood.** -/
theorem each_eq (hnodup : l.Nodup) (h : ∀ i ∈ l, ∃ y, f (x i) = some y) :
    ∃ x', each f l x = some x' ∧ (∀ i ∈ l, f (x i) = some (x' i)) ∧ ∀ i ∉ l, x' i = x i := by
  induction l generalizing x with
  | nil => exact ⟨x, rfl, fun i hi => absurd hi List.not_mem_nil, fun _ _ => rfl⟩
  | cons i l ih =>
    obtain ⟨hi, hnodup⟩ := List.nodup_cons.mp hnodup
    obtain ⟨y, hy⟩ := h i (.head l)
    have hstays (j : ι) (hj : j ≠ i) : Function.update x i y j = x j := Function.update_of_ne hj y x
    obtain ⟨x', heach, hin, hout⟩ := @ih (Function.update x i y) hnodup fun j hj => by
      rw [hstays j fun hji => hi (hji ▸ hj)]
      exact h j (.tail i hj)
    refine ⟨x', ?_, ?_, ?_⟩
    · rw [each, List.foldlM_cons, stepAt, hy]
      exact heach
    · intro j hj
      rcases List.mem_cons.mp hj with rfl | hj
      · rw [hy, hout j hi, Function.update_self]
      · rw [← hin j hj, hstays j fun hji => hi (hji ▸ hj)]
    · intro j hj
      obtain ⟨hne, hj⟩ := not_or.mp (mt List.mem_cons.mpr hj)
      exact (hout j hj).trans (hstays j hne)

end Family
