import Mathlib

/-!
# The least, up to a tolerance

A scan keeps the item of the least key. Keys within a tolerance of each other tie,
and then a second key decides. Ties are not transitive, so what is kept may be above
the least by the tolerance once for each item (`least_near`). Where keys are equal or
further apart than the tolerance, it is the least in lexicographic order
(`least_lexicographic`).
-/

namespace NearMin

variable {ι α : Type} [Field α] [LinearOrder α] (key second : ι → α) (ε : α)

def Better (x b : ι) : Prop := key x < key b - ε ∨ |key x - key b| < ε ∧ second x < second b

instance (x b : ι) : Decidable (Better key second ε x b) := inferInstanceAs (Decidable (_ ∨ _))

/-- One item of the scan. -/
def keep (best : Option ι) (x : ι) : Option ι :=
  match best with
  | none => some x
  | some b => if Better key second ε x b then some x else some b

def least (xs : List ι) : Option ι := xs.foldl (keep key second ε) none

variable {key second ε}

theorem least_concat (xs : List ι) (x : ι) :
    least key second ε (xs ++ [x]) = keep key second ε (least key second ε xs) x :=
  List.foldl_concat ..

variable (key second ε) in
/-- What is kept is the new item or what was kept before. -/
theorem keep_cases (best : Option ι) (x : ι) : keep key second ε best x = some x ∧
      (∀ b ∈ best, Better key second ε x b) ∨
    ∃ b ∈ best, keep key second ε best x = some b ∧ ¬ Better key second ε x b := by
  cases best with
  | none => exact .inl ⟨rfl, fun b hb => nomatch hb⟩
  | some b =>
    by_cases hbetter : Better key second ε x b
    · exact .inl ⟨if_pos hbetter, fun b' hb' => Option.some.inj hb' ▸ hbetter⟩
    · exact .inr ⟨b, rfl, if_neg hbetter, hbetter⟩

theorem least_eq_none_iff {xs : List ι} : least key second ε xs = none ↔ xs = [] := by
  induction xs using List.reverseRecOn with
  | nil => exact ⟨fun _ => rfl, fun _ => rfl⟩
  | append_singleton xs x ih =>
    rw [least_concat]
    rcases keep_cases key second ε (least key second ε xs) x with ⟨hkept, _⟩ | ⟨b, _, hkept, _⟩
    · simp [hkept]
    · simp [hkept]

variable (key second ε) in
theorem exists_least {xs : List ι} {x : ι} (h : x ∈ xs) : ∃ b, b ∈ least key second ε xs :=
  Option.ne_none_iff_exists'.mp fun hnone => List.ne_nil_of_mem h (least_eq_none_iff.mp hnone)

theorem least_mem {xs : List ι} : ∀ b ∈ least key second ε xs, b ∈ xs := by
  induction xs using List.reverseRecOn with
  | nil => exact fun b hb => nomatch hb
  | append_singleton xs x ih =>
    intro b hb
    rw [least_concat] at hb
    rcases keep_cases key second ε (least key second ε xs) x with ⟨hkept, _⟩ | ⟨b', hb', hkept, _⟩
    · rw [hkept] at hb
      exact Option.some.inj hb ▸ List.mem_concat_self
    · rw [hkept] at hb
      obtain rfl := Option.some.inj hb
      exact List.mem_append_left _ (ih b' hb')

variable [IsStrictOrderedRing α]

/-- **Near the least**, by a tolerance for each item. -/
theorem least_near (hε : 0 ≤ ε) {xs : List ι} :
    ∀ b ∈ least key second ε xs, ∀ x ∈ xs, key b ≤ key x + xs.length * ε := by
  induction xs using List.reverseRecOn with
  | nil => exact fun b hb => nomatch hb
  | append_singleton xs x ih =>
    intro b hb y hy
    have hlength : ((xs ++ [x]).length : α) * ε = xs.length * ε + ε := by
      rw [List.length_append, List.length_singleton]
      push_cast
      ring
    have hpast : 0 ≤ (xs.length : α) * ε := mul_nonneg (Nat.cast_nonneg _) hε
    rw [least_concat] at hb
    rw [hlength]
    rcases keep_cases key second ε (least key second ε xs) x with ⟨hkept, hbetter⟩ | ⟨b', hb', hkept, hworse⟩
    · rw [hkept] at hb
      obtain rfl := Option.some.inj hb
      rcases List.mem_append.mp hy with hy | hy
      · -- A tie lifts the key by less than the tolerance.
        obtain ⟨b', hb'⟩ := exists_least key second ε hy
        have hbound := ih b' hb' y hy
        have hstep : key x ≤ key b' + ε := by
          rcases hbetter b' hb' with hlt | ⟨htie, _⟩
          · linarith
          · linarith [(abs_lt.mp htie).2]
        linarith
      · obtain rfl := List.mem_singleton.mp hy
        linarith
    · rw [hkept] at hb
      obtain rfl := Option.some.inj hb
      rcases List.mem_append.mp hy with hy | hy
      · linarith [ih b' hb' y hy]
      · obtain rfl := List.mem_singleton.mp hy
        have hnot : key b' - ε ≤ key y := not_lt.mp fun hlt => hworse (.inl hlt)
        linarith

/-- The least by the first key, and of those by the second. -/
def Lexicographic (key second : ι → α) (b x : ι) : Prop :=
  key b < key x ∨ key b = key x ∧ second b ≤ second x

/-- **The least**, where no two keys are near and not equal. -/
theorem least_lexicographic (hε : 0 < ε) {xs : List ι}
    (hapart : ∀ x ∈ xs, ∀ y ∈ xs, key x = key y ∨ ε < |key x - key y|) :
    ∀ b ∈ least key second ε xs, ∀ x ∈ xs, Lexicographic key second b x := by
  induction xs using List.reverseRecOn with
  | nil => exact fun b hb => nomatch hb
  | append_singleton xs x ih =>
    intro b hb y hy
    have hbefore := ih fun u hu v hv =>
      hapart u (List.mem_append_left _ hu) v (List.mem_append_left _ hv)
    have hin : ∀ b' ∈ least key second ε xs, b' ∈ xs ++ [x] :=
      fun b' hb' => List.mem_append_left _ (least_mem b' hb')
    have hnew : x ∈ xs ++ [x] := List.mem_concat_self
    rw [least_concat] at hb
    rcases keep_cases key second ε (least key second ε xs) x with ⟨hkept, hbetter⟩ | ⟨b', hb', hkept, hworse⟩
    · rw [hkept] at hb
      obtain rfl := Option.some.inj hb
      rcases List.mem_append.mp hy with hy | hy
      · obtain ⟨b', hb'⟩ := exists_least key second ε hy
        have hleast := hbefore b' hb' y hy
        have hstep : key x < key b' ∨ key x = key b' ∧ second x < second b' := by
          rcases hbetter b' hb' with hlt | ⟨htie, hsecond⟩
          · exact .inl (by linarith)
          · rcases hapart x hnew b' (hin b' hb') with heq | hfar
            · exact .inr ⟨heq, hsecond⟩
            · exact absurd htie (not_lt.mpr hfar.le)
        rcases hstep with hlt | ⟨heq, hlt⟩ <;> rcases hleast with hlt' | ⟨heq', hle⟩
        · exact .inl (hlt.trans hlt')
        · exact .inl (heq' ▸ hlt)
        · exact .inl (heq ▸ hlt')
        · exact .inr ⟨heq.trans heq', hlt.le.trans hle⟩
      · obtain rfl := List.mem_singleton.mp hy
        exact .inr ⟨rfl, le_rfl⟩
    · rw [hkept] at hb
      obtain rfl := Option.some.inj hb
      rcases List.mem_append.mp hy with hy | hy
      · exact hbefore b' hb' y hy
      · obtain rfl := List.mem_singleton.mp hy
        have hnot : key b' - ε ≤ key y := not_lt.mp fun hlt => hworse (.inl hlt)
        rcases hapart y hnew b' (hin b' hb') with heq | hfar
        · refine .inr ⟨heq.symm, not_lt.mp fun hlt => hworse (.inr ⟨?_, hlt⟩)⟩
          rwa [heq, sub_self, abs_zero]
        · refine .inl ?_
          rcases lt_abs.mp hfar with hover | hunder
          · linarith
          · linarith

end NearMin
