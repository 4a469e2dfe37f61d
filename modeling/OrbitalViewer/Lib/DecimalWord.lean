import OrbitalViewer.Lib.Decimal

/-!
# Digits read into a word

The number of a run of digits, digit by digit in a word of `w` bits, given up as soon
as it is above a limit (`readWord_iff`). A word that holds `10 * limit + 9` holds every
sum that is compared with the limit (`toNat_sum`).
-/

namespace Decimal

variable {w limit : ℕ} {v : BitVec w} {c : Char} {ds : List Char}

/-- The number after one digit more. -/
def sum (v : BitVec w) (c : Char) : BitVec w := v * 10 + BitVec.ofNat w (c.toNat - '0'.toNat)

def push (limit : ℕ) (v : BitVec w) (c : Char) : Option (BitVec w) :=
  if c < '0' ∨ '9' < c then none
  else if BitVec.ofNat w limit < sum v c then none
  else some (sum v c)

theorem isDigit_iff : c.isDigit = true ↔ ¬(c < '0' ∨ '9' < c) := by
  rw [Char.isDigit_iff_toNat, not_or, not_lt, not_lt]
  exact Iff.rfl

theorem value_concat : value (ds ++ [c]) = value ds * 10 + (c.toNat - '0'.toNat) := by
  rw [value, Nat.ofDigitChars_append, Nat.ofDigitChars_cons, Nat.ofDigitChars_nil, Nat.mul_comm]
  rfl

theorem toNat_sum (hroom : 10 * limit + 9 < 2 ^ w) (hv : v.toNat ≤ limit)
    (hc : c.isDigit = true) : (sum v c).toNat = v.toNat * 10 + (c.toNat - '0'.toNat) ∧
      (sum v c).toNat ≤ 10 * limit + 9 := by
  have hdigit : c.toNat - '0'.toNat ≤ 9 := by
    have hbounds := Char.isDigit_iff_toNat.mp hc
    have hnine : '9'.toNat - '0'.toNat = 9 := rfl
    omega
  have hsum : (sum v c).toNat = v.toNat * 10 + (c.toNat - '0'.toNat) := by
    have hten : (10 : BitVec w).toNat = 10 % 2 ^ w := rfl
    rw [sum, BitVec.toNat_add, BitVec.toNat_mul, BitVec.toNat_ofNat, hten, Nat.mul_mod_mod,
      ← Nat.add_mod]
    exact Nat.mod_eq_of_lt (by omega)
  exact ⟨hsum, by omega⟩

theorem push_iff (hroom : 10 * limit + 9 < 2 ^ w) (hv : v.toNat ≤ limit) {v' : BitVec w} :
    push limit v c = some v' ↔ c.isDigit = true ∧
      v.toNat * 10 + (c.toNat - '0'.toNat) ≤ limit ∧
        v'.toNat = v.toNat * 10 + (c.toNat - '0'.toNat) := by
  by_cases hc : c.isDigit = true
  · obtain ⟨hsum, _⟩ := toNat_sum hroom hv hc
    have hlimit : BitVec.ofNat w limit < sum v c ↔ ¬(sum v c).toNat ≤ limit := by
      rw [BitVec.lt_def, BitVec.toNat_ofNat, Nat.mod_eq_of_lt (by omega), not_le]
    rw [push, if_neg (isDigit_iff.mp hc), ← hsum]
    by_cases hle : (sum v c).toNat ≤ limit
    · rw [if_neg (mt hlimit.mp (not_not.mpr hle)), Option.some.injEq, BitVec.toNat_inj]
      exact ⟨fun h => ⟨hc, hle, h.symm⟩, fun h => h.2.2.symm⟩
    · rw [if_pos (hlimit.mpr hle)]
      exact ⟨fun h => absurd h (by simp), fun h => absurd h.2.1 hle⟩
  · rw [push, if_pos (not_not.mp (mt isDigit_iff.mpr hc))]
    exact ⟨fun h => absurd h (by simp), fun h => absurd h.1 hc⟩

theorem readWord_concat : (ds ++ [c]).foldlM (push limit) (0 : BitVec w) = some v ↔
    ∃ u, ds.foldlM (push limit) (0 : BitVec w) = some u ∧ push limit u c = some v := by
  simp only [List.foldlM_append, List.foldlM_cons, List.foldlM_nil, bind_pure]
  exact Option.bind_eq_some_iff

/-- **The digits of a number** up to the limit are read. -/
theorem readWord_iff (hroom : 10 * limit + 9 < 2 ^ w) :
    ds.foldlM (push limit) (0 : BitVec w) = some v ↔
      (∀ c ∈ ds, c.isDigit = true) ∧ value ds ≤ limit ∧ v.toNat = value ds := by
  induction ds using List.reverseRecOn generalizing v with
  | nil =>
    have hzero : (0 : BitVec w).toNat = value [] := by
      rw [value, Nat.ofDigitChars_nil]
      exact BitVec.toNat_zero
    rw [List.foldlM_nil, ← hzero, BitVec.toNat_inj]
    constructor
    · intro h
      exact ⟨fun c hc => absurd hc List.not_mem_nil, Nat.zero_le limit, (Option.some.inj h).symm⟩
    · intro h
      exact congrArg some h.2.2.symm
  | append_singleton ds c ih =>
    rw [readWord_concat, value_concat]
    constructor
    · rintro ⟨u, hu, hpush⟩
      obtain ⟨hds, hlimit, hvalue⟩ := ih.mp hu
      rw [push_iff hroom (hvalue ▸ hlimit), hvalue] at hpush
      refine ⟨fun d hd => ?_, hpush.2⟩
      rcases List.mem_append.mp hd with hd | hd
      · exact hds d hd
      · rw [List.mem_singleton.mp hd]
        exact hpush.1
    · rintro ⟨hds, hlimit, hvalue⟩
      have hword : (BitVec.ofNat w (value ds)).toNat = value ds := by
        rw [BitVec.toNat_ofNat]
        exact Nat.mod_eq_of_lt (by omega)
      have hread := ih.mpr ⟨fun d hd => hds d (List.mem_append_left _ hd), by omega, hword⟩
      have hpush : push limit (BitVec.ofNat w (value ds)) c = some v := by
        rw [push_iff hroom (by omega), hword]
        exact ⟨hds c (by simp), hlimit, hvalue⟩
      exact ⟨_, hread, hpush⟩

end Decimal
