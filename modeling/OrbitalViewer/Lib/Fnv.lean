import OrbitalViewer.Lib.Wire

/-!
# FNV-1a

The hash that xors a byte into the register and multiplies by a prime, for any width.
A prime that takes no small difference to a small one (`Spreads`) tells messages
apart that differ in their last two bytes alone (`hash_last_two`).
-/

namespace Fnv
open Wire (Byte)

variable {w : ℕ} {prime : BitVec w}

def step (prime h : BitVec w) (b : Byte) : BitVec w := (h ^^^ b.setWidth w) * prime

def hash (prime offset : BitVec w) (bytes : List Byte) : BitVec w := bytes.foldl (step prime) offset

/-- No difference of two bytes times the prime is a difference of two bytes. -/
def Spreads (prime : BitVec w) : Prop :=
  ∀ d e : ℤ, |d| < 256 → |e| < 256 → (2 ^ w : ℤ) ∣ d * prime.toNat - e → d = 0

theorem mul_cancel (hodd : prime.toNat % 2 = 1) {x y : BitVec w} (h : x * prime = y * prime) :
    x = y := by
  have hcoprime : Nat.gcd (2 ^ w) prime.toNat = 1 :=
    Nat.Coprime.pow_left w (Nat.coprime_two_left.mpr (Nat.odd_iff.mpr hodd))
  have hmod : x.toNat * prime.toNat ≡ y.toNat * prime.toNat [MOD 2 ^ w] := by
    have hnat := congrArg BitVec.toNat h
    rwa [BitVec.toNat_mul, BitVec.toNat_mul] at hnat
  have hxy := Nat.ModEq.cancel_right_of_coprime hcoprime hmod
  exact BitVec.eq_of_toNat_eq (Nat.ModEq.eq_of_lt_of_lt hxy x.isLt y.isLt)

/-- A byte reaches the low octet alone. -/
theorem xor_high (x : BitVec w) (b : Byte) : (x ^^^ b.setWidth w).toNat / 256 = x.toNat / 256 := by
  have hb : (b.setWidth w).toNat / 2 ^ 8 = 0 := by
    rw [BitVec.toNat_setWidth]
    exact Nat.div_eq_of_lt ((Nat.mod_le _ _).trans_lt b.isLt)
  have hxor := Nat.xor_div_two_pow (a := x.toNat) (b := (b.setWidth w).toNat) (n := 8)
  rw [hb, Nat.xor_zero] at hxor
  rw [BitVec.toNat_xor]
  exact hxor

theorem abs_sub_lt {m n : ℕ} (h : m / 256 = n / 256) : |(m : ℤ) - n| < 256 := by
  rw [abs_lt]
  omega

theorem xor_byte_inj (hw : 8 ≤ w) {x : BitVec w} {b c : Byte}
    (h : x ^^^ b.setWidth w = x ^^^ c.setWidth w) : b = c := by
  have hset := (BitVec.xor_right_inj x).mp h
  have hwidth := congrArg (BitVec.setWidth 8) hset
  rwa [BitVec.setWidth_setWidth_of_le _ hw, BitVec.setWidth_setWidth_of_le _ hw, BitVec.setWidth_eq,
    BitVec.setWidth_eq] at hwidth

/-- The products of two registers that differ in the low octet alone differ above it. -/
theorem Spreads.eq (hspread : Spreads prime) {x y : BitVec w} (h : x.toNat / 256 = y.toNat / 256)
    (hmul : (x * prime).toNat / 256 = (y * prime).toNat / 256) : x = y := by
  have hdvd : (2 ^ w : ℤ) ∣
      ((x.toNat : ℤ) - y.toNat) * prime.toNat - ((x * prime).toNat - (y * prime).toNat) := by
    rw [BitVec.toNat_mul, BitVec.toNat_mul]
    push_cast
    have hx := Int.mul_ediv_add_emod (x.toNat * prime.toNat) (2 ^ w)
    have hy := Int.mul_ediv_add_emod (y.toNat * prime.toNat) (2 ^ w)
    exact ⟨x.toNat * prime.toNat / 2 ^ w - y.toNat * prime.toNat / 2 ^ w, by
      linear_combination hy - hx⟩
  have hzero := hspread _ _ (abs_sub_lt h) (abs_sub_lt hmul) hdvd
  exact BitVec.eq_of_toNat_eq (by omega)

/-- **The last two bytes** of a message are told apart. -/
theorem hash_last_two (hw : 8 ≤ w) (hodd : prime.toNat % 2 = 1) (hspread : Spreads prime)
    (offset : BitVec w) (front : List Byte) {b c b' c' : Byte}
    (h : hash prime offset (front ++ [b, c]) = hash prime offset (front ++ [b', c'])) :
    b = b' ∧ c = c' := by
  unfold hash at h
  rw [List.foldl_append, List.foldl_append] at h
  generalize front.foldl (step prime) offset = r at h
  have hfirst : step prime r b ^^^ c.setWidth w = step prime r b' ^^^ c'.setWidth w :=
    mul_cancel hodd h
  have hregister : r ^^^ b.setWidth w = r ^^^ b'.setWidth w := by
    apply hspread.eq
    · rw [xor_high, xor_high]
    · have hhigh := congrArg (fun x : BitVec w => x.toNat / 256) hfirst
      rwa [xor_high, xor_high] at hhigh
  have hb : b = b' := xor_byte_inj hw hregister
  subst hb
  exact ⟨rfl, xor_byte_inj hw hfirst⟩

end Fnv
