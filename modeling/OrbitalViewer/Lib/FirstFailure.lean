import Mathlib

/-!
# Running to the first failure

A fallible step over a list, which stops at the first element it rejects and
says which one that was. `failure_take` finds that element among the prefixes of
the list. Two steps that fail together, except at a slip where only the first one
fails, are compared by `same_end` and `no_slip`.
-/

namespace FirstFailure

variable {σ τ α β ε δ : Type}

/-- Where a run ended, and the number and the error of the element that ended it. -/
structure Outcome (σ ε : Type) where
  state : σ
  failure : Option (ℕ × ε) := none

/-- The elements in order, after `n` others. -/
def run (step : σ → α → Except ε σ) (n : ℕ) (s : σ) : List α → Outcome σ ε
  | [] => { state := s }
  | x :: xs =>
    match step s x with
    | .error e => { state := s, failure := some (n + 1, e) }
    | .ok t => run step (n + 1) t xs

/-- All of the elements are taken, which leads to `t`. -/
def Passes (step : σ → α → Except ε σ) (s : σ) (xs : List α) (t : σ) : Prop :=
  xs.foldlM step s = .ok t

theorem ok_of_toOption {x : Except ε α} {a : α} (h : x.toOption = some a) : x = .ok a := by
  cases x with
  | error e => cases h
  | ok b => exact congrArg Except.ok (Option.some.inj h)

section Passes
variable {step : σ → α → Except ε σ} {s t : σ} {x : α} {xs ys : List α}

theorem passes_nil : Passes step s [] t ↔ s = t :=
  ⟨fun h => Except.ok.inj h, fun h => congrArg Except.ok h⟩

theorem passes_cons : Passes step s (x :: xs) t ↔ ∃ m, step s x = .ok m ∧ Passes step m xs t := by
  unfold Passes
  rw [List.foldlM_cons]
  constructor
  · intro h
    cases hx : step s x with
    | error e =>
      rw [hx] at h
      cases h
    | ok m =>
      rw [hx] at h
      exact ⟨m, rfl, h⟩
  · rintro ⟨m, hx, h⟩
    rw [hx]
    exact h

theorem passes_append :
    Passes step s (xs ++ ys) t ↔ ∃ m, Passes step s xs m ∧ Passes step m ys t := by
  induction xs generalizing s with
  | nil => simp [passes_nil]
  | cons x xs ih =>
    simp only [List.cons_append, passes_cons, ih]
    constructor
    · rintro ⟨m, hx, m', hm, ht⟩
      exact ⟨m', ⟨m, hx, hm⟩, ht⟩
    · rintro ⟨m', ⟨m, hx, hm⟩, ht⟩
      exact ⟨m, hx, m', hm, ht⟩

theorem passes_concat :
    Passes step s (xs ++ [x]) t ↔ ∃ m, Passes step s xs m ∧ step m x = .ok t := by
  simp [passes_append, passes_cons, passes_nil]

theorem passes_mem (h : Passes step s xs t) (hx : x ∈ xs) : ∃ m m', step m x = .ok m' := by
  obtain ⟨before, later, rfl⟩ := List.append_of_mem hx
  obtain ⟨m, _, hm⟩ := passes_append.mp h
  obtain ⟨m', hstep, _⟩ := passes_cons.mp hm
  exact ⟨m, m', hstep⟩

/-- What every step keeps, a run keeps. -/
theorem passes_keeps {P : σ → Prop} (hstep : ∀ s x t, P s → step s x = .ok t → P t)
    (h : Passes step s xs t) (hs : P s) : P t := by
  induction xs generalizing s with
  | nil => exact passes_nil.mp h ▸ hs
  | cons x xs ih =>
    obtain ⟨m, hm, hrest⟩ := passes_cons.mp h
    exact ih hrest (hstep s x m hs hm)

theorem passes_map (f : β → α) {zs : List β} :
    Passes (fun s z => step s (f z)) s zs t ↔ Passes step s (zs.map f) t := by
  unfold Passes
  rw [List.foldlM_map]

theorem run_map (f : β → α) (n : ℕ) (s : σ) (zs : List β) :
    run (fun s z => step s (f z)) n s zs = run step n s (zs.map f) := by
  induction zs generalizing n s with
  | nil => rfl
  | cons z zs ih =>
    rw [run, List.map_cons, run]
    cases step s (f z) with
    | error e => rfl
    | ok t => exact ih (n + 1) t

theorem passes_idle (h : ∀ x ∈ xs, step s x = .ok s) : Passes step s xs s := by
  induction xs with
  | nil => exact passes_nil.mpr rfl
  | cons x xs ih =>
    have hrest : Passes step s xs s := ih fun y hy => h y (List.mem_cons_of_mem x hy)
    exact passes_cons.mpr ⟨s, h x List.mem_cons_self, hrest⟩

/-- A list of which one element does something. -/
theorem foldlM_single (hx : x ∈ xs) (hnodup : xs.Nodup)
    (idle : ∀ s, ∀ y ∈ xs, y ≠ x → step s y = .ok s) : xs.foldlM step s = step s x := by
  induction xs generalizing s with
  | nil => cases hx
  | cons y ys ih =>
    obtain ⟨hfresh, hrest⟩ := List.nodup_cons.mp hnodup
    rw [List.foldlM_cons]
    by_cases hy : y = x
    · subst hy
      cases hstep : step s y with
      | error e => rfl
      | ok t =>
        apply passes_idle
        intro z hz
        exact idle t z (List.mem_cons_of_mem y hz) fun h => hfresh (h ▸ hz)
    · rw [idle s y List.mem_cons_self hy]
      have hmem : x ∈ ys := (List.mem_cons.mp hx).resolve_left fun h => hy h.symm
      exact ih hmem hrest fun s z hz => idle s z (List.mem_cons_of_mem y hz)

end Passes

section Run
variable {step : σ → α → Except ε σ} {s t : σ} {xs : List α}

theorem run_passes (n : ℕ) (h : Passes step s xs t) : run step n s xs = { state := t } := by
  induction xs generalizing n s with
  | nil => exact passes_nil.mp h ▸ rfl
  | cons x xs ih =>
    obtain ⟨m, hx, hm⟩ := passes_cons.mp h
    rw [run, hx]
    exact ih (n + 1) hm

theorem passes_of_run {n : ℕ} (h : (run step n s xs).failure = none) :
    Passes step s xs (run step n s xs).state := by
  fun_induction run step n s xs with
  | case1 => exact passes_nil.mpr rfl
  | case2 => cases h
  | case3 n s x xs m hx ih => exact passes_cons.mpr ⟨m, hx, ih h⟩

theorem passes_iff_failure (n : ℕ) :
    (∃ t, Passes step s xs t) ↔ (run step n s xs).failure = none := by
  constructor
  · rintro ⟨t, h⟩
    rw [run_passes n h]
  · exact fun h => ⟨_, passes_of_run h⟩

/-- The element that ends a run is the first that its prefix does not pass. -/
theorem failure_prefix {n k : ℕ} {e : ε} (h : (run step n s xs).failure = some (k, e)) :
    ∃ before x later, xs = before ++ x :: later ∧ k = n + before.length + 1 ∧
      (∃ t, Passes step s before t ∧ step t x = .error e) := by
  fun_induction run step n s xs with
  | case1 => cases h
  | case2 n s x xs e' hx =>
    obtain ⟨rfl, rfl⟩ := Prod.mk.inj (Option.some.inj h)
    exact ⟨[], x, xs, rfl, rfl, s, passes_nil.mpr rfl, hx⟩
  | case3 n s x xs m hx ih =>
    obtain ⟨before, y, later, rfl, rfl, t, ht, hy⟩ := ih h
    refine ⟨x :: before, y, later, rfl, ?_, t, passes_cons.mpr ⟨m, hx, ht⟩, hy⟩
    rw [List.length_cons]
    omega

/-- **The run fails at the first element where the list up to it does not pass.** -/
theorem failure_take {k : ℕ} {e : ε} (h : (run step 0 s xs).failure = some (k + 1, e)) :
    k < xs.length ∧ (∃ t, Passes step s (xs.take k) t) ∧
      ¬ ∃ t, Passes step s (xs.take (k + 1)) t := by
  obtain ⟨before, x, later, rfl, hk, t, ht, hx⟩ := failure_prefix h
  obtain rfl : k = before.length := by omega
  refine ⟨by simp, ⟨t, by simpa using ht⟩, ?_⟩
  rintro ⟨u, hu⟩
  rw [List.take_append, List.take_of_length_le (by omega), Nat.add_sub_cancel_left,
    List.take_succ_cons, List.take_zero, passes_concat] at hu
  obtain ⟨m, hm, hxu⟩ := hu
  obtain rfl : t = m := Except.ok.inj (ht.symm.trans hm)
  exact nomatch hx.symm.trans hxu

end Run

/-! ## Two steps -/

section Two
variable {first : σ → α → Except ε σ} {second : τ → α → Except δ τ} {R : σ → τ → Prop}
  {slip : τ → α → Prop} {s : σ} {t : τ} {x : α} {xs : List α}

/-- Both fail, or both lead to related results. -/
def Alike (R : σ → τ → Prop) : Except ε σ → Except δ τ → Prop
  | .ok s, .ok t => R s t
  | .error _, .error _ => True
  | _, _ => False

theorem alike_iff_rel {R : σ → τ → Prop} {a : Except ε σ} {b : Except δ τ} :
    Alike R a b ↔ Option.Rel R a.toOption b.toOption := by
  cases a with
  | error e =>
    cases b with
    | error d => exact iff_of_true trivial .none
    | ok t => exact iff_of_false id fun h => nomatch h
  | ok s =>
    cases b with
    | error d => exact iff_of_false id fun h => nomatch h
    | ok t => exact ⟨fun h => .some h, fun | .some h => h⟩

/-- The second run comes to an element at which it slips. -/
def Slips (second : τ → α → Except δ τ) (slip : τ → α → Prop) (t : τ) (xs : List α) : Prop :=
  ∃ before x later, xs = before ++ x :: later ∧ ∃ u, Passes second t before u ∧ slip u x

theorem slips_nil : ¬ Slips second slip t [] := by
  rintro ⟨before, x, later, hxs, _⟩
  simp at hxs

theorem slips_cons :
    Slips second slip t (x :: xs) ↔
      slip t x ∨ ∃ u, second t x = .ok u ∧ Slips second slip u xs := by
  constructor
  · rintro ⟨before, y, later, hxs, u, hu, hy⟩
    cases before with
    | nil =>
      obtain rfl := passes_nil.mp hu
      obtain ⟨rfl, _⟩ := List.cons.inj hxs
      exact .inl hy
    | cons z before =>
      obtain ⟨rfl, rfl⟩ := List.cons.inj hxs
      obtain ⟨m, hm, hu⟩ := passes_cons.mp hu
      exact .inr ⟨m, hm, before, y, later, rfl, u, hu, hy⟩
  · rintro (hx | ⟨m, hm, before, y, later, rfl, u, hu, hy⟩)
    · exact ⟨[], x, xs, rfl, t, passes_nil.mpr rfl, hx⟩
    · exact ⟨x :: before, y, later, rfl, u, passes_cons.mpr ⟨m, hm, hu⟩, hy⟩

theorem lt_of_failure {step : σ → α → Except ε σ} {n k : ℕ} {e : ε}
    (h : (run step n s xs).failure = some (k, e)) : n < k := by
  obtain ⟨before, _, _, _, hk, _⟩ := failure_prefix h
  omega

/-- Two runs without a slip end alike, in related states or at the same element. -/
theorem same_end
    (alike : ∀ s t, ∀ x ∈ xs, R s t → ¬ slip t x → Alike R (first s x) (second t x))
    (n : ℕ) (h : R s t) (hno : ¬ Slips second slip t xs) :
    (run first n s xs).failure.map Prod.fst = (run second n t xs).failure.map Prod.fst ∧
      ((run first n s xs).failure = none → R (run first n s xs).state (run second n t xs).state) := by
  induction xs generalizing n s t with
  | nil => exact ⟨rfl, fun _ => h⟩
  | cons x xs ih =>
    rw [slips_cons] at hno
    obtain ⟨hx, hlater⟩ := not_or.mp hno
    have hstep := alike s t x List.mem_cons_self h hx
    rw [run, run]
    cases hfirst : first s x with
    | error e =>
      cases hsecond : second t x with
      | error d => exact ⟨rfl, fun hnone => nomatch hnone⟩
      | ok u =>
        rw [hfirst, hsecond] at hstep
        exact hstep.elim
    | ok m =>
      cases hsecond : second t x with
      | error d =>
        rw [hfirst, hsecond] at hstep
        exact hstep.elim
      | ok u =>
        rw [hfirst, hsecond] at hstep
        exact ih (fun s t y hy => alike s t y (List.mem_cons_of_mem x hy)) (n + 1) hstep
          fun hslips => hlater ⟨u, hsecond, hslips⟩

/-- Where the second run slips, the first one has failed and the second goes on. -/
theorem no_slip
    (alike : ∀ s t, ∀ x ∈ xs, R s t → ¬ slip t x → Alike R (first s x) (second t x))
    (slips : ∀ s t, ∀ x ∈ xs, R s t → slip t x →
      (∃ e, first s x = .error e) ∧ ∃ u, second t x = .ok u)
    (n : ℕ) (h : R s t)
    (hsame : (run first n s xs).failure.map Prod.fst = (run second n t xs).failure.map Prod.fst) :
    ¬ Slips second slip t xs := by
  induction xs generalizing n s t with
  | nil => exact slips_nil
  | cons x xs ih =>
    have hnot : ¬ slip t x := by
      intro hx
      obtain ⟨⟨e, he⟩, u, hu⟩ := slips s t x List.mem_cons_self h hx
      rw [run, he, run, hu] at hsame
      obtain ⟨f, hf, hnumber⟩ := Option.map_eq_some_iff.mp hsame.symm
      have hlt : n + 1 < f.1 := lt_of_failure hf
      omega
    rw [slips_cons]
    rintro (hx | ⟨u, hu, hlater⟩)
    · exact hnot hx
    · have hstep := alike s t x List.mem_cons_self h hnot
      rw [hu] at hstep
      cases hfirst : first s x with
      | error e =>
        rw [hfirst] at hstep
        exact hstep.elim
      | ok m =>
        rw [hfirst] at hstep
        rw [run, hfirst, run, hu] at hsame
        exact ih (fun s t y hy => alike s t y (List.mem_cons_of_mem x hy))
          (fun s t y hy => slips s t y (List.mem_cons_of_mem x hy)) (n + 1) hstep hsame hlater

end Two
end FirstFailure
