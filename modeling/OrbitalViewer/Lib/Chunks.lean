import Mathlib

/-!
# Lists cut into chunks

`c` entries a chunk, the last one shorter, and one empty chunk for the empty
list: what a loop emits that tests its end after each chunk.
-/

namespace Chunks

variable {α : Type}

/-- A chunk size. -/
abbrev Size := { c : Nat // 0 < c }

def chunks (c : Size) (xs : List α) : List (List α) :=
  if xs.length ≤ c.1 then [xs] else xs.take c.1 :: chunks c (xs.drop c.1)
termination_by xs.length
decreasing_by
  have := c.2
  simp only [List.length_drop]
  omega

/-- `x` brought into the range from 1 to `hi`. -/
def clamp (hi : Nat) (h : 0 < hi) (x : Nat) : Size :=
  ⟨if x < 1 then 1 else if hi < x then hi else x, by split_ifs <;> omega⟩

theorem clamp_eq (hi : Nat) (h : 0 < hi) (x : Nat) : (clamp hi h x).1 = max 1 (min x hi) := by
  change (if x < 1 then 1 else if hi < x then hi else x) = _
  split
  · omega
  · split <;> omega

theorem chunks_of_le {c : Size} {xs : List α} (h : xs.length ≤ c.1) : chunks c xs = [xs] := by
  rw [chunks, if_pos h]

theorem flatten_chunks (c : Size) (xs : List α) : (chunks c xs).flatten = xs := by
  fun_induction chunks c xs with
  | case1 xs h => simp
  | case2 xs h ih => rw [List.flatten_cons, ih, List.take_append_drop]

theorem chunks_ne (c : Size) (xs : List α) : chunks c xs ≠ [] := by
  unfold chunks
  split <;> exact List.cons_ne_nil _ _

theorem length_le_of_mem {c : Size} {xs chunk : List α} (h : chunk ∈ chunks c xs) :
    chunk.length ≤ c.1 ∧ chunk.length ≤ xs.length := by
  fun_induction chunks c xs with
  | case1 xs hle =>
    obtain rfl := List.mem_singleton.mp h
    exact ⟨hle, le_refl _⟩
  | case2 xs hgt ih =>
    rcases List.mem_cons.mp h with rfl | h
    · rw [List.length_take]
      exact ⟨min_le_left _ _, min_le_right _ _⟩
    · obtain ⟨hc, hlen⟩ := ih h
      rw [List.length_drop] at hlen
      exact ⟨hc, by omega⟩

theorem length_chunks (c : Size) (xs : List α) :
    (chunks c xs).length = max 1 (xs.length ⌈/⌉ c.1) := by
  have hc := c.2
  fun_induction chunks c xs with
  | case1 xs h =>
    have hone : xs.length ⌈/⌉ c.1 ≤ 1 := by
      rw [ceilDiv_le_iff_le_mul hc]
      omega
    rw [List.length_singleton, max_eq_left hone]
  | case2 xs h ih =>
    have hsplit : xs.length ⌈/⌉ c.1 = (xs.drop c.1).length ⌈/⌉ c.1 + 1 := by
      rw [Nat.ceilDiv_eq_add_pred_div, Nat.ceilDiv_eq_add_pred_div, List.length_drop,
        ← Nat.add_div_right _ hc]
      congr 1
      omega
    have hrest : 1 ≤ (xs.drop c.1).length ⌈/⌉ c.1 := by
      rw [Nat.ceilDiv_eq_add_pred_div, Nat.le_div_iff_mul_le hc, List.length_drop]
      omega
    rw [List.length_cons, ih, hsplit, max_eq_right hrest]
    exact (max_eq_right (Nat.le_add_left 1 _)).symm

/-- A full chunk with entries behind it. -/
theorem chunks_append {c : Size} {xs ys : List α} (h : xs.length = c.1) (hne : ys ≠ []) :
    chunks c (xs ++ ys) = xs :: chunks c ys := by
  have hpos := List.length_pos_iff.mpr hne
  rw [chunks, if_neg (by rw [List.length_append]; omega), List.take_left' h, List.drop_left' h]

end Chunks
