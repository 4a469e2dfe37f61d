import OrbitalViewer.Lib.Ieee

/-!
# Decimal text of numbers

Digits of a natural number, padded to a width, and `printf`'s `%.pf` of a
floating-point value: the exact value rounded to `p` decimals, ties to even
(`fixed`, `rounded`). `length_fixed` says how long that text is.
-/

namespace Decimal
open Ieee (Datum nearestEven)

def digits (n : ℕ) : List Char := Nat.toDigits 10 n

/-- With leading zeros up to the width `w`. -/
def padded (w n : ℕ) : List Char := List.replicate (w - (digits n).length) '0' ++ digits n

/-- The number a run of digits stands for. -/
def value (ds : List Char) : ℕ := Nat.ofDigitChars 10 ds 0

theorem value_digits (n : ℕ) : value (digits n) = n := Nat.ofDigitChars_ten_toDigits

theorem value_append (a b : List Char) : value (a ++ b) = 10 ^ b.length * value a + value b := by
  rw [value, Nat.ofDigitChars_append, Nat.ofDigitChars_eq_ofDigitChars_zero]
  rfl

theorem value_padded (w n : ℕ) : value (padded w n) = n := by
  rw [padded, value, Nat.ofDigitChars_append, Nat.ofDigitChars_replicate_zero, Nat.mul_zero]
  exact value_digits n

theorem digits_ne_nil (n : ℕ) : digits n ≠ [] := Nat.toDigits_ne_nil

theorem isDigit_digits {n : ℕ} {c : Char} (h : c ∈ digits n) : c.isDigit = true :=
  Nat.isDigit_of_mem_toDigits (by decide) (by decide) h

theorem isDigit_padded {w n : ℕ} {c : Char} (h : c ∈ padded w n) : c.isDigit = true := by
  rcases List.mem_append.mp h with h | h
  · rw [List.eq_of_mem_replicate h]
    rfl
  · exact isDigit_digits h

theorem length_digits_le_iff {n k : ℕ} (hk : 0 < k) : (digits n).length ≤ k ↔ n < 10 ^ k :=
  Nat.length_toDigits_le_iff (by decide) hk

theorem length_padded {w n : ℕ} (hw : 0 < w) (hn : n < 10 ^ w) : (padded w n).length = w := by
  have := (length_digits_le_iff hw).mpr hn
  rw [padded, List.length_append, List.length_replicate]
  omega

/-- Only zero has a leading zero. -/
theorem digits_head {n : ℕ} (h : (digits n).head? = some '0') : digits n = ['0'] := by
  induction n using Nat.strongRecOn with
  | ind n ih =>
    by_cases hn : n < 10
    · have hone : digits n = [n.digitChar] := Nat.toDigits_of_lt_base hn
      rw [hone] at h ⊢
      exact congrArg (fun c => [c]) (Option.some.inj h)
    · have hsplit : digits n = digits (n / 10) ++ [(n % 10).digitChar] :=
        Nat.toDigits_of_base_le (by decide) (by omega)
      rw [hsplit, List.head?_append_of_ne_nil _ (digits_ne_nil _)] at h
      have hzero : value (digits (n / 10)) = 0 := by
        rw [ih (n / 10) (by omega) h]
        rfl
      rw [value_digits] at hzero
      omega

/-! ## Fixed-point text -/

def sign (neg : Bool) : List Char := if neg then ['-'] else []

/-- `printf` with `%.pf`, for `p` at least 1. -/
def fixed (p : ℕ) : Datum → List Char
  | .nan neg => sign neg ++ "nan".toList
  | .inf neg => sign neg ++ "inf".toList
  | .fin neg mag =>
    let n := nearestEven (mag * 10 ^ p)
    sign neg ++ (digits (n / 10 ^ p) ++ '.' :: padded p (n % 10 ^ p))

/-- The value of a finite datum rounded to `p` decimals. -/
def rounded (p : ℕ) : Datum → ℚ
  | .fin neg mag =>
    let q : ℚ := nearestEven (mag * 10 ^ p) / 10 ^ p
    if neg then -q else q
  | _ => 0

theorem length_sign_le (neg : Bool) : (sign neg).length ≤ 1 := by cases neg <;> decide

theorem length_fixed {p : ℕ} (hp : 0 < p) (neg : Bool) (mag : ℚ) :
    (fixed p (.fin neg mag)).length =
      (sign neg).length + (digits (nearestEven (mag * 10 ^ p) / 10 ^ p)).length + 1 + p := by
  have hpad : (padded p (nearestEven (mag * 10 ^ p) % 10 ^ p)).length = p :=
    length_padded hp (Nat.mod_lt _ (by positivity))
  simp only [fixed, List.length_append, List.length_cons, hpad]
  omega

/-- A whole number has only zeros after the point. -/
theorem fixed_natCast {p : ℕ} (hp : 0 < p) (n : ℕ) :
    fixed p (.fin false n) = digits n ++ '.' :: List.replicate p '0' ∧
      rounded p (.fin false n) = n := by
  have hround : nearestEven ((n : ℚ) * 10 ^ p) = n * 10 ^ p := by
    have h := Ieee.nearestEven_natCast (n * 10 ^ p)
    rwa [Nat.cast_mul, Nat.cast_pow, Nat.cast_ofNat] at h
  have hzeros : padded p 0 = List.replicate p '0' := by
    obtain ⟨k, rfl⟩ := Nat.exists_eq_succ_of_ne_zero (Nat.ne_of_gt hp)
    exact List.replicate_succ'.symm
  constructor
  · have hpow : 0 < 10 ^ p := Nat.pow_pos (by decide)
    simp only [fixed, hround, Nat.mul_div_cancel n hpow, Nat.mul_mod_left, hzeros]
    rfl
  · have hpow : (10 : ℚ) ^ p ≠ 0 := by positivity
    simp only [rounded, hround, Bool.false_eq_true, if_false]
    push_cast
    exact mul_div_cancel_right₀ _ hpow

/-- How much text a bounded value takes, and that rounding keeps the bound. -/
theorem fixed_bounded {p : ℕ} (hp : 0 < p) {d : Datum} (hd : d.Proper) (hfin : d.isFinite = true)
    {B k : ℕ} (hk : 0 < k) (hB : |d.toRat| ≤ B) (hlt : B < 10 ^ k) :
    (fixed p d).length ≤ k + p + 2 ∧ |rounded p d| ≤ B := by
  cases d with
  | nan _ => cases hfin
  | inf _ => cases hfin
  | fin neg mag =>
    have hmag : (0 : ℚ) ≤ mag := hd
    rw [Datum.abs_toRat hmag] at hB
    have hpow : (0 : ℚ) < 10 ^ p := by positivity
    have hn : nearestEven (mag * 10 ^ p) ≤ B * 10 ^ p := by
      apply Ieee.nearestEven_le (mul_nonneg hmag hpow.le)
      push_cast
      exact mul_le_mul_of_nonneg_right hB hpow.le
    constructor
    · have hint : nearestEven (mag * 10 ^ p) / 10 ^ p ≤ B := by
        rw [← Nat.mul_div_cancel B (Nat.pow_pos (by decide : 0 < 10))]
        exact Nat.div_le_div_right hn
      have hdigits := (length_digits_le_iff hk).mpr (Nat.lt_of_le_of_lt hint hlt)
      have hsign := length_sign_le neg
      rw [length_fixed hp]
      omega
    · have hq : (nearestEven (mag * 10 ^ p) : ℚ) / 10 ^ p ≤ B := by
        rw [div_le_iff₀ hpow]
        exact_mod_cast hn
      have hnonneg : (0 : ℚ) ≤ nearestEven (mag * 10 ^ p) / 10 ^ p := by positivity
      cases neg with
      | true => rwa [rounded, if_pos rfl, abs_neg, abs_of_nonneg hnonneg]
      | false => rwa [rounded, if_neg Bool.false_ne_true, abs_of_nonneg hnonneg]

end Decimal
