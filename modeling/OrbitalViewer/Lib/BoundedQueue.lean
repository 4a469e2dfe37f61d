import Mathlib

/-!
# Queues that forget their oldest entries

A queue bounded by `cap` holds the newest `cap` of everything pushed since it was
last drained, however the pushes were grouped (`latest_append`).
-/

namespace BoundedQueue

variable {α : Type}

/-- The last `cap` entries. -/
def latest (cap : Nat) (xs : List α) : List α := xs.drop (xs.length - cap)

theorem latest_suffix (cap : Nat) (xs : List α) : latest cap xs <:+ xs := List.drop_suffix _ xs

theorem length_latest (cap : Nat) (xs : List α) : (latest cap xs).length = min xs.length cap := by
  rw [latest, List.length_drop]
  omega

theorem latest_eq_self {cap : Nat} {xs : List α} (h : xs.length ≤ cap) : latest cap xs = xs := by
  rw [latest, Nat.sub_eq_zero_of_le h, List.drop_zero]

/-- Forgetting before a push makes no difference. -/
theorem latest_append (cap : Nat) (xs ys : List α) :
    latest cap (latest cap xs ++ ys) = latest cap (xs ++ ys) := by
  have hlen := length_latest cap xs
  have hdropped : xs.length + ys.length - cap =
      xs.length - cap + ((latest cap xs).length + ys.length - cap) := by omega
  have hrest : (latest cap xs).length + ys.length - cap - (latest cap xs).length =
      xs.length + ys.length - cap - xs.length := by omega
  have hfront : (latest cap xs).drop ((latest cap xs).length + ys.length - cap) =
      xs.drop (xs.length + ys.length - cap) := by
    rw [hdropped]
    exact List.drop_drop
  calc latest cap (latest cap xs ++ ys)
      = (latest cap xs).drop ((latest cap xs).length + ys.length - cap) ++
          ys.drop ((latest cap xs).length + ys.length - cap - (latest cap xs).length) := by
        rw [← List.drop_append, ← List.length_append]
        rfl
    _ = xs.drop (xs.length + ys.length - cap) ++
          ys.drop (xs.length + ys.length - cap - xs.length) := by rw [hfront, hrest]
    _ = latest cap (xs ++ ys) := by
        rw [← List.drop_append, ← List.length_append]
        rfl

end BoundedQueue
