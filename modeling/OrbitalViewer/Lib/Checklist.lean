import Mathlib

/-!
# Checklists

A checklist is a list of conditions in the order they are checked, each with the
complaint that it holds leads to. `First` is the complaint of the first one that
holds. A check `Decides` a checklist when it complains of just that; checks of two
parts, or of the same part of every element of a list, put together decide the
checklists put together.
-/

namespace Checklist

variable {ε α : Type} {items more : List (Prop × ε)} {p : Prop} {e e' : ε} {r s : Option ε}

/-- `e` is what the first item that holds complains of. -/
def First (items : List (Prop × ε)) (e : ε) : Prop :=
  ∃ before p after, items = before ++ (p, e) :: after ∧ p ∧ ∀ q ∈ before, ¬ q.1

/-- No item holds. -/
def Clear (items : List (Prop × ε)) : Prop := ∀ q ∈ items, ¬ q.1

theorem not_first_nil : ¬ First [] e := by
  rintro ⟨before, p, after, h, _⟩
  simp at h

theorem first_cons : First ((p, e) :: items) e' ↔ p ∧ e = e' ∨ ¬ p ∧ First items e' := by
  constructor
  · rintro ⟨before, q, after, h, hq, hbefore⟩
    cases before with
    | nil =>
      obtain ⟨⟨rfl, rfl⟩, rfl⟩ : (p = q ∧ e = e') ∧ items = after := by simpa using h
      exact .inl ⟨hq, rfl⟩
    | cons b before =>
      obtain ⟨rfl, rfl⟩ : (p, e) = b ∧ items = before ++ (q, e') :: after := by simpa using h
      exact .inr ⟨hbefore _ List.mem_cons_self,
        before, q, after, rfl, hq, fun q' hq' => hbefore q' (List.mem_cons_of_mem _ hq')⟩
  · rintro (⟨hp, rfl⟩ | ⟨hp, before, q, after, rfl, hq, hbefore⟩)
    · exact ⟨[], p, items, rfl, hp, by simp⟩
    · refine ⟨(p, e) :: before, q, after, rfl, hq, fun q' hq' => ?_⟩
      rcases List.mem_cons.mp hq' with rfl | hq'
      · exact hp
      · exact hbefore q' hq'

theorem First.unique (h : First items e) (h' : First items e') : e = e' := by
  induction items with
  | nil => exact absurd h not_first_nil
  | cons q items ih =>
    rcases first_cons.mp h with ⟨hq, rfl⟩ | ⟨hq, h⟩
    · rcases first_cons.mp h' with ⟨_, rfl⟩ | ⟨hn, _⟩
      · rfl
      · exact absurd hq hn
    · rcases first_cons.mp h' with ⟨hp, _⟩ | ⟨_, h'⟩
      · exact absurd hp hq
      · exact ih h h'

theorem first_append :
    First (items ++ more) e ↔ First items e ∨ Clear items ∧ First more e := by
  induction items with
  | nil => simp [not_first_nil, Clear]
  | cons q items ih =>
    obtain ⟨p, e'⟩ := q
    rw [List.cons_append, first_cons, first_cons, ih]
    simp only [Clear, List.forall_mem_cons]
    tauto

/-- A check complains of the first item that holds, or not at all. -/
def Decides (items : List (Prop × ε)) (r : Option ε) : Prop :=
  (∀ e, r = some e → First items e) ∧ (r = none → Clear items)

theorem Decides.first_iff (h : Decides items r) : First items e ↔ r = some e := by
  constructor
  · intro hfirst
    cases hr : r with
    | none =>
      obtain ⟨before, p, after, rfl, hp, _⟩ := hfirst
      exact absurd hp (h.2 hr (p, e) (by simp))
    | some e' => rw [(h.1 e' hr).unique hfirst]
  · exact h.1 e

theorem Decides.nil : Decides ([] : List (Prop × ε)) none := ⟨by simp, fun _ => by simp [Clear]⟩

theorem Decides.cons [Decidable p] (h : Decides items r) :
    Decides ((p, e) :: items) (if p then some e else r) := by
  constructor
  · intro e' he
    rw [first_cons]
    split at he
    · exact .inl ⟨‹_›, Option.some.inj he⟩
    · exact .inr ⟨‹_›, h.1 e' he⟩
  · intro hr
    split at hr
    · cases hr
    · simpa only [Clear, List.forall_mem_cons] using ⟨‹_›, h.2 hr⟩

/-- The second check may count on what the first one found in order. -/
theorem Decides.append (h : Decides items r) (h' : r = none → Decides more s) :
    Decides (items ++ more) (r.or s) := by
  constructor
  · intro e he
    rw [first_append]
    cases hr : r with
    | none =>
      rw [hr] at he
      exact .inr ⟨h.2 hr, (h' hr).1 e he⟩
    | some e' =>
      rw [hr] at he
      exact .inl (h.1 e (hr.trans he))
  · intro hnone
    obtain ⟨hr, hs⟩ := Option.or_eq_none_iff.mp hnone
    exact List.forall_mem_append.mpr ⟨h.2 hr, (h' hr).2 hs⟩

/-- The first complaint about an element decides the items of all elements. -/
theorem Decides.flatMap {check : α → Option ε} {itemsOf : α → List (Prop × ε)} (xs : List α)
    (h : ∀ x ∈ xs, Decides (itemsOf x) (check x)) :
    Decides (xs.flatMap itemsOf) (xs.findSome? check) := by
  induction xs with
  | nil => exact Decides.nil
  | cons x xs ih =>
    have hrest := ih fun y hy => h y (List.mem_cons_of_mem x hy)
    have happend := (h x List.mem_cons_self).append fun _ => hrest
    rw [List.flatMap_cons, List.findSome?_cons]
    cases hx : check x with
    | none => simpa [hx] using happend
    | some e => simpa [hx] using happend

theorem First.mem (h : First items e) : e ∈ items.map Prod.snd := by
  obtain ⟨before, p, after, rfl, _⟩ := h
  simp

theorem first_flatMap {f : α → List (Prop × ε)} {xs : List α} :
    First (xs.flatMap f) e ↔ ∃ before x after, xs = before ++ x :: after ∧
      (∀ y ∈ before, Clear (f y)) ∧ First (f x) e := by
  induction xs with
  | nil => simp [not_first_nil]
  | cons x xs ih =>
    rw [List.flatMap_cons, first_append, ih]
    constructor
    · rintro (h | ⟨hx, before, y, after, rfl, hbefore, hy⟩)
      · exact ⟨[], x, xs, rfl, by simp, h⟩
      · exact ⟨x :: before, y, after, rfl, List.forall_mem_cons.mpr ⟨hx, hbefore⟩, hy⟩
    · rintro ⟨before, y, after, hsplit, hbefore, hy⟩
      cases before with
      | nil =>
        obtain ⟨rfl, rfl⟩ : x = y ∧ xs = after := by simpa using hsplit
        exact .inl hy
      | cons z before =>
        obtain ⟨rfl, rfl⟩ : x = z ∧ xs = before ++ y :: after := by simpa using hsplit
        obtain ⟨hx, hbefore⟩ := List.forall_mem_cons.mp hbefore
        exact .inr ⟨hx, before, y, after, rfl, hbefore, hy⟩

/-! ## Two conditions on every element -/

section rowwise
variable (P Q : α → Prop) (a b : ε) (xs : List α)

/-- Both conditions on the first element, then both on the second, and so on. -/
def rowwise : List (Prop × ε) := xs.flatMap fun x => [(P x, a), (Q x, b)]

/-- The first condition on every element, then the second on every element. -/
def swept : List (Prop × ε) := [(∃ x ∈ xs, P x, a), (∃ x ∈ xs, Q x, b)]

/-- The first element with a condition that holds has only the second, and a
later one has the first. -/
def Masked : Prop :=
  ∃ before x after, xs = before ++ x :: after ∧ (∀ y ∈ before, ¬ P y ∧ ¬ Q y) ∧ ¬ P x ∧ Q x ∧
    ∃ y ∈ after, P y

end rowwise

variable {P Q : α → Prop} {a b : ε} {xs : List α}

theorem first_rowwise : First (rowwise P Q a b xs) e ↔ ∃ before x after,
    xs = before ++ x :: after ∧ (∀ y ∈ before, ¬ P y ∧ ¬ Q y) ∧
      (P x ∧ a = e ∨ ¬ P x ∧ Q x ∧ b = e) := by
  simp only [rowwise, first_flatMap, first_cons, not_first_nil, and_false, or_false, Clear,
    List.forall_mem_cons, List.not_mem_nil, false_implies, implies_true, and_true]

/-- **Checking element by element** agrees with checking one condition after the
other, unless one element masks another. -/
theorem rowwise_swept_iff (hab : a ≠ b) :
    (∀ e, First (items ++ rowwise P Q a b xs) e → First (items ++ swept P Q a b xs) e) ↔
      ¬ (Clear items ∧ Masked P Q xs) := by
  constructor
  · rintro h ⟨hclear, before, x, after, hxs, hbefore, hp, hq, y, hy, hpy⟩
    have hrow : First (rowwise P Q a b xs) b :=
      first_rowwise.mpr ⟨before, x, after, hxs, hbefore, .inr ⟨hp, hq, rfl⟩⟩
    rcases first_append.mp (h b (first_append.mpr (.inr ⟨hclear, hrow⟩))) with hitems | ⟨_, hsweep⟩
    · obtain ⟨front, p, back, rfl, hp, _⟩ := hitems
      exact absurd hp (hclear (p, b) (by simp))
    · rcases first_cons.mp hsweep with ⟨_, heq⟩ | ⟨hnone, _⟩
      · exact hab heq
      · exact hnone ⟨y, by simp [hxs, hy], hpy⟩
  · intro h e he
    rcases first_append.mp he with hitems | ⟨hclear, hrow⟩
    · exact first_append.mpr (.inl hitems)
    · apply first_append.mpr
      obtain ⟨before, x, after, hxs, hbefore, ⟨hp, rfl⟩ | ⟨hp, hq, rfl⟩⟩ := first_rowwise.mp hrow
      · exact .inr ⟨hclear, first_cons.mpr (.inl ⟨⟨x, by simp [hxs], hp⟩, rfl⟩)⟩
      · refine .inr ⟨hclear, first_cons.mpr (.inr ⟨?_, first_cons.mpr (.inl ⟨⟨x, by simp [hxs], hq⟩, rfl⟩)⟩)⟩
        rintro ⟨y, hy, hpy⟩
        rw [hxs] at hy
        rcases List.mem_append.mp hy with hy | hy
        · exact (hbefore y hy).1 hpy
        · rcases List.mem_cons.mp hy with rfl | hy
          · exact hp hpy
          · exact h ⟨hclear, before, x, after, hxs, hbefore, hp, hq, y, hy, hpy⟩

end Checklist
