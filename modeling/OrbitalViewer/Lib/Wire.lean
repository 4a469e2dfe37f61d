import Mathlib

/-!
# Fixed little-endian layouts

A datagram is a list of bytes read by offset:

* `slice d off n` is the `n` bytes at `off`, `leAt w d off` the `w`-bit number
  whose little-endian bytes they are;
* `leBytes_leValue` and `leValue_leBytes`: writing and reading a number of `n`
  bytes are inverse;
* `slice_chunks` and `chunks_slice`: a run of records of one size is the list
  of its slices;
* `collect`: the loop that reads, checks and keeps one record after another,
  and `collect_eq`, which says what it returns.
-/

namespace Wire

abbrev Byte := BitVec 8

/-- The `n` bytes at `off`. -/
def slice (d : List Byte) (off n : Nat) : List Byte := (d.drop off).take n

/-- As `slice`, with `none` for bytes past the end of the buffer. -/
def read (d : List Byte) (off n : Nat) : Option (List Byte) :=
  if off + n ≤ d.length then some (slice d off n) else none

theorem read_eq {d : List Byte} {off n : Nat} (h : off + n ≤ d.length) :
    read d off n = some (slice d off n) := if_pos h

theorem length_slice {d : List Byte} {off n : Nat} (h : off + n ≤ d.length) :
    (slice d off n).length = n := by
  simp only [slice, List.length_take, List.length_drop]
  omega

theorem slice_succ {d : List Byte} {off n : Nat} (h : off < d.length) :
    slice d off (n + 1) = d[off] :: slice d (off + 1) n := by
  rw [slice, List.drop_eq_getElem_cons h, List.take_succ_cons, slice]

theorem slice_append_left {a b : List Byte} {off n : Nat} (h : off + n ≤ a.length) :
    slice (a ++ b) off n = slice a off n := by
  rw [slice, List.drop_append_of_le_length (by omega), List.take_append_of_le_length, slice]
  rw [List.length_drop]
  omega

theorem slice_append_right {a b : List Byte} {off n : Nat} :
    slice (a ++ b) (a.length + off) n = slice b off n := by
  rw [slice, ← List.drop_drop, List.drop_left, slice]

/-- Reading inside a slice is reading the buffer at the sum of the offsets. -/
theorem slice_slice {d : List Byte} {a m off n : Nat} (h : off + n ≤ m) :
    slice (slice d a m) off n = slice d (a + off) n := by
  simp only [slice, List.drop_take, List.take_take, List.drop_drop]
  rw [Nat.min_eq_left (by omega)]

theorem slice_split (d : List Byte) (off m n : Nat) :
    slice d off (m + n) = slice d off m ++ slice d (off + m) n := by
  simp only [slice, List.take_add, List.drop_drop]

theorem slice_whole (d : List Byte) : slice d 0 d.length = d := by
  simp [slice]

theorem take_append_last {d : List Byte} {n : Nat} (h : n ≤ d.length) :
    d.take (d.length - n) ++ slice d (d.length - n) n = d := by
  have hlast : slice d (d.length - n) n = d.drop (d.length - n) := by
    rw [slice]
    exact List.take_of_length_le (by rw [List.length_drop]; omega)
  rw [hlast, List.take_append_drop]

/-- Layouts of one length are compared part by part. -/
theorem append_eq_iff {a b c d : List Byte} (h : a.length = b.length) :
    a ++ c = b ++ d ↔ a = b ∧ c = d :=
  ⟨fun he => List.append_inj he h, fun ⟨hab, hcd⟩ => by rw [hab, hcd]⟩

/-! ## Little-endian numbers -/

/-- The number whose little-endian bytes are `bs`. -/
def leValue (w : Nat) : List Byte → BitVec w
  | [] => 0
  | b :: bs => b.setWidth w ||| leValue w bs <<< 8

/-- The `n` low bytes of `v`, least significant first. -/
def leBytes {w : Nat} : Nat → BitVec w → List Byte
  | 0, _ => []
  | n + 1, v => v.setWidth 8 :: leBytes n (v >>> 8)

/-- The `w`-bit little-endian number at `off`. -/
def leAt (w : Nat) (d : List Byte) (off : Nat) : BitVec w := leValue w (slice d off (w / 8))

theorem leAt_slice {w a m off : Nat} {d : List Byte} (h : off + w / 8 ≤ m) :
    leAt w (slice d a m) off = leAt w d (a + off) := by
  rw [leAt, leAt, slice_slice h]

@[simp] theorem leValue_nil {w : Nat} : leValue w [] = 0#w := rfl

/-- The Horner step that a loop from the last byte down to the first takes. -/
theorem leValue_cons {w : Nat} (b : Byte) (bs : List Byte) :
    leValue w (b :: bs) = leValue w bs <<< 8 ||| b.setWidth w := BitVec.or_comm _ _

@[simp] theorem length_leBytes {w : Nat} (n : Nat) (v : BitVec w) : (leBytes n v).length = n := by
  induction n generalizing v with
  | zero => rfl
  | succ n ih => simp only [leBytes, List.length_cons, ih]

theorem getLsbD_leValue (w : Nat) (bs : List Byte) (i : Nat) :
    (leValue w bs).getLsbD i = (decide (i < w) && (bs.getD (i / 8) 0).getLsbD (i % 8)) := by
  induction bs generalizing i with
  | nil => simp [leValue]
  | cons b bs ih =>
    simp only [leValue, BitVec.getLsbD_or, BitVec.getLsbD_setWidth, BitVec.getLsbD_shiftLeft, ih]
    by_cases hi : i < 8
    · simp [hi, Nat.div_eq_of_lt hi, Nat.mod_eq_of_lt hi]
    · have hdiv : i / 8 = (i - 8) / 8 + 1 := by omega
      have hmod : (i - 8) % 8 = i % 8 := by omega
      rw [BitVec.getLsbD_of_ge b i (by omega), hdiv, hmod, List.getD_cons_succ]
      by_cases hw : i < w
      · simp [hi, hw, show i - 8 < w by omega]
      · simp [hw]

theorem getLsbD_leBytes {w : Nat} (n : Nat) (v : BitVec w) (j k : Nat) :
    ((leBytes n v).getD j 0).getLsbD k =
      (decide (j < n) && decide (k < 8) && v.getLsbD (8 * j + k)) := by
  induction n generalizing v j with
  | zero => simp [leBytes]
  | succ n ih =>
    cases j with
    | zero => simp [leBytes]
    | succ j =>
      rw [leBytes, List.getD_cons_succ, ih]
      have e : 8 + (8 * j + k) = 8 * (j + 1) + k := by omega
      simp [BitVec.getLsbD_ushiftRight, e]

/-- What is written is read back. -/
theorem leValue_leBytes {w n : Nat} (h : w ≤ 8 * n) (v : BitVec w) : leValue w (leBytes n v) = v := by
  apply BitVec.eq_of_getLsbD_eq
  intro i hi
  rw [getLsbD_leValue, getLsbD_leBytes, Nat.div_add_mod]
  simp [hi, show i / 8 < n by omega, Nat.mod_lt]

/-- What is read is written back. -/
theorem leBytes_leValue {w : Nat} {bs : List Byte} (h : 8 * bs.length ≤ w) :
    leBytes bs.length (leValue w bs) = bs := by
  apply List.ext_getElem (by simp)
  intro j h₁ h₂
  apply BitVec.eq_of_getLsbD_eq
  intro k hk
  have hj := getLsbD_leBytes bs.length (leValue w bs) j k
  rw [List.getD_eq_getElem _ _ h₁] at hj
  rw [hj, getLsbD_leValue, show (8 * j + k) / 8 = j by omega, show (8 * j + k) % 8 = k by omega,
    List.getD_eq_getElem _ _ h₂]
  simp [hk, h₂, show 8 * j + k < w by omega]

theorem leBytes_leAt {n : Nat} {d : List Byte} {off : Nat} (h : off + n ≤ d.length) :
    leBytes n (leAt (8 * n) d off) = slice d off n := by
  have hs : (slice d off n).length = n := length_slice h
  have hl : leBytes _ (leValue (8 * n) (slice d off n)) = _ := leBytes_leValue (by rw [hs])
  rw [hs] at hl
  rw [leAt, show 8 * n / 8 = n by omega]
  exact hl

/-! ## Runs of records of one size -/

section Chunks
variable {α : Type} {f : α → List Byte} {R : Nat}

theorem length_chunks {β : Type} {g : α → List β} (hg : ∀ x, (g x).length = R) (xs : List α) :
    (xs.flatMap g).length = R * xs.length := by
  induction xs with
  | nil => rfl
  | cons x xs ih =>
    rw [List.flatMap_cons, List.length_append, hg, ih, List.length_cons, Nat.mul_succ, Nat.add_comm]

/-- The `i`-th slice of a run of records is the `i`-th record. -/
theorem slice_chunks (hf : ∀ x, (f x).length = R) (xs : List α) (t : List Byte) {i : Nat}
    (hi : i < xs.length) : slice (xs.flatMap f ++ t) (R * i) R = f xs[i] := by
  induction xs generalizing i with
  | nil => simp at hi
  | cons x xs ih =>
    rw [List.flatMap_cons, List.append_assoc]
    cases i with
    | zero =>
      rw [Nat.mul_zero, slice_append_left (by rw [hf]; omega), List.getElem_cons_zero]
      have h := slice_whole (f x)
      rwa [hf] at h
    | succ i =>
      have hi' : i < xs.length := by simpa using hi
      rw [Nat.mul_succ, Nat.add_comm (R * i) R, ← hf x, slice_append_right, hf, ih hi']
      rfl

theorem chunks_eq_iff {g : α → List Byte} {xs : List α}
    (hlen : ∀ x ∈ xs, (f x).length = (g x).length) :
    xs.flatMap f = xs.flatMap g ↔ ∀ x ∈ xs, f x = g x := by
  induction xs with
  | nil => simp
  | cons x xs ih =>
    have hx := hlen x List.mem_cons_self
    have ih' := ih fun y hy => hlen y (List.mem_cons_of_mem x hy)
    rw [List.flatMap_cons, List.flatMap_cons, append_eq_iff hx, ih']
    simp

end Chunks

/-- A run of `n` records is the concatenation of its slices. -/
theorem chunks_slice (d : List Byte) (off R n : Nat) :
    (List.range n).flatMap (fun i => slice d (off + i * R) R) = slice d off (R * n) := by
  induction n with
  | zero => simp [slice]
  | succ n ih =>
    rw [List.range_succ, List.flatMap_append, ih, Nat.mul_succ, slice_split, Nat.mul_comm R n]
    simp

/-! ## Reading records one after another -/

/-- Read record `i`, stop at the first that `check` refuses, else keep it, for
`n` records. The outer `none` is a read past the end of the buffer. -/
def collect {ε α : Type} (read : Nat → Option α) (check : α → Option ε) :
    Nat → Nat → List α → Option (Except ε (List α))
  | 0, _, acc => some (.ok acc)
  | n + 1, i, acc =>
    match read i with
    | none => none
    | some a =>
      match check a with
      | some e => some (.error e)
      | none => collect read check n (i + 1) (acc ++ [a])

/-- When every record can be read, the loop returns them all, or the complaint
about the first one refused. -/
theorem collect_eq {ε α : Type} {r : Nat → Option α} {g : Nat → α} (check : α → Option ε)
    (n i : Nat) (acc : List α) (hr : ∀ j, i ≤ j → j < i + n → r j = some (g j)) :
    collect r check n i acc = some
      (match ((List.range' i n).map g).findSome? check with
        | some e => .error e
        | none => .ok (acc ++ (List.range' i n).map g)) := by
  induction n generalizing i acc with
  | zero => simp [collect]
  | succ n ih =>
    have h0 := hr i (Nat.le_refl i) (by omega)
    have hs : ∀ j, i + 1 ≤ j → j < i + 1 + n → r j = some (g j) :=
      fun j h₁ h₂ => hr j (by omega) (by omega)
    simp only [collect, h0, List.range'_succ, List.map_cons, List.findSome?_cons]
    cases hc : check (g i) with
    | some e => rfl
    | none => simp only [ih (i + 1) (acc ++ [g i]) hs, List.append_assoc, List.singleton_append]

end Wire
