import Mathlib

/-!
# Tables that forget

A table is written key by key and now and then drops the entries that have
died. Such a table represents its history of writes: every key holds the last
value written to it, or that value is dead and the table no longer has it
(`Represents`). Writing and dropping keep this, so a reader who asks only for
live values reads the history (`Represents.live_iff`).

A history is also checked element by element at its end: `Each P` says `P` of
every element together with everything before it.
-/

namespace LastWrite

variable {K V : Type} [DecidableEq K]

/-- The last value written to `k`. -/
def last (ws : List (K × V)) (k : K) : Option V :=
  ((ws.filter fun w => w.1 = k).map Prod.snd).getLast?

/-- What a table that dropped only dead entries still knows of its history. -/
def Represents (tbl : K → Option V) (ws : List (K × V)) (dead : V → Prop) : Prop :=
  ∀ k, tbl k = last ws k ∨ (tbl k = none ∧ ∃ v, last ws k = some v ∧ dead v)

theorem last_append_same (ws : List (K × V)) (k : K) (v : V) : last (ws ++ [(k, v)]) k = some v := by
  simp [last]

theorem last_append_ne (ws : List (K × V)) {k k' : K} (v : V) (h : k' ≠ k) :
    last (ws ++ [(k', v)]) k = last ws k := by
  simp [last, h]

theorem last_append (ws ws' : List (K × V)) (k : K) :
    last (ws ++ ws') k = (last ws' k).or (last ws k) := by
  simp [last]

theorem last_map {W : Type} (f : V → W) (ws : List (K × V)) (k : K) :
    last (ws.map fun w => (w.1, f w.2)) k = (last ws k).map f := by
  simp [last, List.filter_map, Function.comp_def]

theorem mem_of_last {ws : List (K × V)} {k : K} {v : V} (h : last ws k = some v) :
    (k, v) ∈ ws := by
  obtain ⟨w, hw, rfl⟩ := List.mem_map.mp (List.mem_of_getLast? h)
  obtain ⟨hmem, hk⟩ := List.mem_filter.mp hw
  have hk' : w.1 = k := of_decide_eq_true hk
  exact hk' ▸ hmem

namespace Represents
variable {tbl : K → Option V} {ws : List (K × V)} {dead dead' : V → Prop}

theorem empty : Represents (fun _ : K => none) ([] : List (K × V)) dead := fun _ => .inl rfl

/-- Writing one key. -/
theorem write (h : Represents tbl ws dead) (k : K) (v : V) :
    Represents (Function.update tbl k (some v)) (ws ++ [(k, v)]) dead := by
  intro k'
  by_cases hk : k' = k
  · subst hk
    exact .inl ((Function.update_self ..).trans (last_append_same ws k' v).symm)
  · have hlast := last_append_ne ws v (Ne.symm hk)
    simpa only [Function.update_of_ne hk, hlast] using h k'

/-- Dropping dead entries. -/
theorem drop (h : Represents tbl ws dead) (keep : V → Bool)
    (hkeep : ∀ v, keep v = false → dead v) :
    Represents (fun k => (tbl k).filter keep) ws dead := by
  intro k
  rcases h k with hk | ⟨hk, hdead⟩
  · cases hv : tbl k with
    | none => exact .inl (by simp [hv, ← hk])
    | some v =>
      cases hkv : keep v with
      | true => exact .inl (by simp [hv, hkv, ← hk])
      | false => exact .inr ⟨by simp [hv, hkv], v, hk ▸ hv, hkeep v hkv⟩
  · exact .inr ⟨by simp [hk], hdead⟩

/-- The table knows every live last write, and nothing else that is live. -/
theorem live_iff (h : Represents tbl ws dead) {k : K} {v : V} (hv : ¬ dead v) :
    tbl k = some v ↔ last ws k = some v := by
  rcases h k with hk | ⟨hk, w, hw, hdead⟩
  · exact hk ▸ Iff.rfl
  · refine iff_of_false (by simp [hk]) fun hlast => ?_
    obtain rfl : w = v := Option.some.inj (hw.symm.trans hlast)
    exact hv hdead

end Represents
end LastWrite

namespace Prefixes

variable {α : Type} {P : List α → α → Prop} {xs ys : List α} {x : α}

def Each (P : List α → α → Prop) (xs : List α) : Prop :=
  ∀ before x later, xs = before ++ x :: later → P before x

theorem Each.nil : Each P ([] : List α) := by
  intro before x later h
  simp at h

theorem Each.before (h : Each P (xs ++ ys)) : Each P xs := by
  rintro before x later rfl
  exact h before x (later ++ ys) (by simp)

theorem Each.last (h : Each P (xs ++ [x])) : P xs x := h xs x [] rfl

theorem Each.append (h : Each P xs) (hx : P xs x) : Each P (xs ++ [x]) := by
  intro before y later hsplit
  rcases List.eq_nil_or_concat' later with rfl | ⟨rest, last, rfl⟩
  · obtain ⟨rfl, hy⟩ := List.append_inj' hsplit rfl
    obtain rfl : x = y := by simpa using hy
    exact hx
  · have hfront : xs ++ [x] = (before ++ y :: rest) ++ [last] := by simp [hsplit]
    obtain ⟨rfl, _⟩ := List.append_inj' hfront rfl
    exact h before y rest rfl

end Prefixes
