import Mathlib

/-!
# Binary interchange floats

The bit patterns of a binary floating-point format and the values they stand
for, and the operations on values rounded to nearest, ties to even:

* a magnitude (a pattern without its sign) stands for a whole number of the
  smallest positive value, `Format.units`; `units_strictMono` says patterns
  are ordered as their values;
* `code_lt_iff`: which exact values round below a given pattern, so in
  particular (`code_finite_iff`) which ones do not overflow;
* `decode_encode`: a value stored in a format is the value rounded to it.
-/

namespace Ieee

/-! ## Rounding to a whole number -/

/-- The whole number nearest to `q`, the even one of two. -/
def nearestEven (q : ℚ) : ℕ :=
  if q - ⌊q⌋₊ < 1 / 2 ∨ (q - ⌊q⌋₊ = 1 / 2 ∧ ⌊q⌋₊ % 2 = 0) then ⌊q⌋₊ else ⌊q⌋₊ + 1

theorem nearestEven_lt_iff {q : ℚ} (hq : 0 ≤ q) {m : ℕ} (hm : m % 2 = 0) :
    nearestEven q < m ↔ q < m - 1 / 2 := by
  have hlo : (⌊q⌋₊ : ℚ) ≤ q := Nat.floor_le hq
  have hhi : q < ⌊q⌋₊ + 1 := Nat.lt_floor_add_one q
  unfold nearestEven
  rcases Nat.lt_trichotomy (⌊q⌋₊ + 1) m with h | h | h
  · have hm' : ((⌊q⌋₊ : ℚ) + 2) ≤ m := by exact_mod_cast h
    refine ⟨fun _ => by linarith, fun _ => ?_⟩
    split <;> omega
  · have hm' : (m : ℚ) = ⌊q⌋₊ + 1 := by exact_mod_cast h.symm
    have hodd : ⌊q⌋₊ % 2 ≠ 0 := by omega
    simp only [hodd, and_false, or_false, hm']
    constructor
    · intro hlt
      by_contra hge
      rw [if_neg (by linarith)] at hlt
      omega
    · intro hlt
      rw [if_pos (by linarith)]
      omega
  · have hm' : (m : ℚ) ≤ ⌊q⌋₊ := by exact_mod_cast Nat.lt_succ_iff.mp h
    refine ⟨fun hlt => ?_, fun hlt => by linarith⟩
    split at hlt <;> omega

@[simp] theorem nearestEven_natCast (n : ℕ) : nearestEven (n : ℚ) = n := by
  simp [nearestEven]

theorem nearestEven_mono {p q : ℚ} (hp : 0 ≤ p) (h : p ≤ q) : nearestEven p ≤ nearestEven q := by
  have hf : ⌊p⌋₊ ≤ ⌊q⌋₊ := Nat.floor_le_floor h
  unfold nearestEven
  rcases Nat.lt_or_eq_of_le hf with hlt | heq
  · split <;> split <;> omega
  · rw [← heq]
    have hlo : (⌊p⌋₊ : ℚ) ≤ p := Nat.floor_le hp
    split
    · split <;> omega
    · rename_i hnp
      rw [if_neg]
      rintro (hq | ⟨hq, he⟩)
      · exact hnp (Or.inl (by linarith))
      · rcases lt_or_eq_of_le h with h' | h'
        · exact hnp (Or.inl (by linarith))
        · exact hnp (Or.inr ⟨by linarith, he⟩)

theorem nearestEven_le {q : ℚ} {n : ℕ} (hq : 0 ≤ q) (h : q ≤ n) : nearestEven q ≤ n := by
  have := nearestEven_mono hq h
  rwa [nearestEven_natCast] at this

theorem le_nearestEven {q : ℚ} {n : ℕ} (h : (n : ℚ) ≤ q) : n ≤ nearestEven q := by
  have := nearestEven_mono (Nat.cast_nonneg n) h
  rwa [nearestEven_natCast] at this

/-! ## Formats -/

/-- A binary interchange format: bits of the exponent and of the fraction. -/
structure Format where
  expo : ℕ
  frac : ℕ

def binary32 : Format := ⟨8, 23⟩
def binary64 : Format := ⟨11, 52⟩

namespace Format
variable (f : Format)

/-- The pattern of infinity: exponent all ones, fraction zero. -/
def infCode : ℕ := (2 ^ f.expo - 1) * 2 ^ f.frac

/-- How many of the smallest positive value a finite magnitude stands for. -/
def units (c : ℕ) : ℕ :=
  if c / 2 ^ f.frac = 0 then c % 2 ^ f.frac
  else (2 ^ f.frac + c % 2 ^ f.frac) * 2 ^ (c / 2 ^ f.frac - 1)

/-- The smallest positive value is the inverse of this. -/
def scale : ℕ := 2 ^ (2 ^ (f.expo - 1) - 2 + f.frac)

/-- How many low bits rounding `u` units drops. -/
def dropped (u : ℚ) : ℕ := Nat.log2 ⌊u⌋₊ - f.frac

/-- The pattern nearest to `u` units, that of infinity past the largest. -/
def code (u : ℚ) : ℕ :=
  min (f.dropped u * 2 ^ f.frac + nearestEven (u / 2 ^ f.dropped u)) f.infCode

theorem units_eq {s m : ℕ} (hm : m ≤ 2 ^ (f.frac + 1)) (hs : s = 0 ∨ 2 ^ f.frac ≤ m) :
    f.units (s * 2 ^ f.frac + m) = m * 2 ^ s := by
  have hp : 0 < 2 ^ f.frac := Nat.two_pow_pos _
  rw [Nat.pow_succ] at hm
  unfold units
  rcases Nat.lt_or_ge m (2 ^ f.frac) with hlt | hge
  · have hs0 : s = 0 := hs.resolve_right (by omega)
    subst hs0
    simp [Nat.div_eq_of_lt hlt, Nat.mod_eq_of_lt hlt]
  · rcases Nat.lt_or_eq_of_le hm with hlt | heq
    · obtain ⟨k, rfl⟩ := Nat.exists_eq_add_of_le hge
      have e : s * 2 ^ f.frac + (2 ^ f.frac + k) = k + 2 ^ f.frac * (s + 1) := by ring
      have hk : k < 2 ^ f.frac := by omega
      rw [e, Nat.add_mul_div_left _ _ hp, Nat.add_mul_mod_self_left, Nat.div_eq_of_lt hk,
        Nat.mod_eq_of_lt hk]
      simp
    · have e : s * 2 ^ f.frac + m = 2 ^ f.frac * (s + 2) := by rw [heq]; ring
      rw [e, Nat.mul_div_right _ hp, Nat.mul_mod_right, heq]
      simp only [Nat.add_eq_zero_iff, OfNat.ofNat_ne_zero, and_false, ↓reduceIte, add_zero]
      rw [show s + 2 - 1 = s + 1 by omega, Nat.pow_succ]
      ring

/-- Every pattern is a shift and a mantissa. -/
theorem exists_mantissa (c : ℕ) :
    ∃ s m, c = s * 2 ^ f.frac + m ∧ m < 2 ^ (f.frac + 1) ∧ (s = 0 ∨ 2 ^ f.frac ≤ m) := by
  have hp : 0 < 2 ^ f.frac := Nat.two_pow_pos _
  have hmod := Nat.mod_lt c hp
  have hdm := Nat.div_add_mod' c (2 ^ f.frac)
  rw [Nat.pow_succ]
  rcases Nat.eq_zero_or_pos (c / 2 ^ f.frac) with h | h
  · refine ⟨0, c % 2 ^ f.frac, ?_, by omega, Or.inl rfl⟩
    rw [h] at hdm
    exact hdm.symm
  · refine ⟨c / 2 ^ f.frac - 1, 2 ^ f.frac + c % 2 ^ f.frac, ?_, by omega, Or.inr (by omega)⟩
    obtain ⟨k, hk⟩ := Nat.exists_eq_add_of_le' h
    rw [hk] at hdm ⊢
    rw [Nat.add_sub_cancel]
    linarith [Nat.succ_mul k (2 ^ f.frac)]

/-- Patterns are ordered as the values they stand for. -/
theorem units_strictMono : StrictMono f.units := by
  apply strictMono_nat_of_lt_succ
  intro c
  obtain ⟨s, m, rfl, hm, hs⟩ := f.exists_mantissa c
  rw [f.units_eq (by omega) hs, Nat.add_assoc, f.units_eq (by omega) (hs.imp id (by omega))]
  exact Nat.mul_lt_mul_of_pos_right (Nat.lt_succ_self m) (Nat.two_pow_pos s)

theorem dropped_bounds {u : ℚ} (hu : 0 ≤ u) :
    u < 2 ^ (f.dropped u + (f.frac + 1)) ∧
    (0 < f.dropped u → 2 ^ (f.dropped u + f.frac) ≤ u) := by
  unfold dropped
  constructor
  · have hlog : ⌊u⌋₊ < 2 ^ (Nat.log2 ⌊u⌋₊ + 1) := Nat.lt_log2_self
    have hpow : 2 ^ (Nat.log2 ⌊u⌋₊ + 1) ≤ 2 ^ (Nat.log2 ⌊u⌋₊ - f.frac + (f.frac + 1)) :=
      Nat.pow_le_pow_right (by decide) (by omega)
    have := (Nat.floor_lt hu).mp (Nat.lt_of_lt_of_le hlog hpow)
    exact_mod_cast this
  · intro hpos
    have hne : ⌊u⌋₊ ≠ 0 := by
      intro h0
      simp [h0] at hpos
    have hle : 2 ^ (Nat.log2 ⌊u⌋₊ - f.frac + f.frac) ≤ ⌊u⌋₊ := by
      rw [Nat.sub_add_cancel (by omega)]
      exact Nat.log2_self_le hne
    have := (Nat.le_floor_iff hu).mp hle
    exact_mod_cast this

/-- The mantissa that rounding produces, one carry allowed for. -/
theorem mantissa_bounds {u : ℚ} (hu : 0 ≤ u) :
    nearestEven (u / 2 ^ f.dropped u) ≤ 2 ^ (f.frac + 1) ∧
    (f.dropped u = 0 ∨ 2 ^ f.frac ≤ nearestEven (u / 2 ^ f.dropped u)) := by
  obtain ⟨hhi, hlo⟩ := f.dropped_bounds hu
  have hpow : (0 : ℚ) < 2 ^ f.dropped u := by positivity
  constructor
  · apply nearestEven_le (div_nonneg hu hpow.le)
    rw [div_le_iff₀ hpow, Nat.cast_pow, Nat.cast_ofNat, ← pow_add, Nat.add_comm]
    exact hhi.le
  · rcases Nat.eq_zero_or_pos (f.dropped u) with h | h
    · exact Or.inl h
    · right
      apply le_nearestEven
      rw [le_div_iff₀ hpow, Nat.cast_pow, Nat.cast_ofNat, ← pow_add, Nat.add_comm]
      exact hlo h

/-- The values that round below a pattern with an even mantissa `m` are those
below the midpoint between it and the pattern before it. -/
theorem code_lt_iff {u : ℚ} (hu : 0 ≤ u) {s m : ℕ} (heven : m % 2 = 0)
    (hlo : 2 ^ f.frac < m) (hhi : m ≤ 2 ^ (f.frac + 1)) (hinf : s * 2 ^ f.frac + m ≤ f.infCode) :
    f.code u < s * 2 ^ f.frac + m ↔ u < (m - 1 / 2) * 2 ^ s := by
  obtain ⟨hM, hM'⟩ := f.mantissa_bounds hu
  obtain ⟨htop, hbot⟩ := f.dropped_bounds hu
  have hmin : f.code u < s * 2 ^ f.frac + m ↔
      f.dropped u * 2 ^ f.frac + nearestEven (u / 2 ^ f.dropped u) < s * 2 ^ f.frac + m := by
    unfold code
    omega
  have hlo' : (2 : ℚ) ^ f.frac + 1 ≤ m := by exact_mod_cast hlo
  have hhi' : (m : ℚ) ≤ 2 ^ (f.frac + 1) := by exact_mod_cast hhi
  have hpow : (0 : ℚ) < 2 ^ s := by positivity
  rw [hmin]
  rw [Nat.pow_succ] at hM hhi
  rcases Nat.lt_trichotomy (f.dropped u) s with h | h | h
  · refine iff_of_true ?_ ?_
    · have := Nat.mul_le_mul_right (2 ^ f.frac) h
      rw [Nat.succ_mul] at this
      omega
    · calc u < 2 ^ (f.dropped u + (f.frac + 1)) := htop
        _ ≤ 2 ^ (f.frac + s) := pow_le_pow_right₀ (by norm_num) (by omega)
        _ = 2 ^ f.frac * 2 ^ s := pow_add _ _ _
        _ ≤ (m - 1 / 2) * 2 ^ s := by
            apply mul_le_mul_of_nonneg_right _ hpow.le
            linarith
  · rw [h, Nat.add_lt_add_iff_left, nearestEven_lt_iff (div_nonneg hu hpow.le) heven,
      div_lt_iff₀ hpow]
  · refine iff_of_false ?_ ?_
    · have := Nat.mul_le_mul_right (2 ^ f.frac) h
      have hM'' := hM'.resolve_left (by omega)
      rw [Nat.succ_mul] at this
      omega
    · apply not_lt.mpr
      calc ((m : ℚ) - 1 / 2) * 2 ^ s ≤ 2 ^ (f.frac + 1) * 2 ^ s := by
            apply mul_le_mul_of_nonneg_right _ hpow.le
            linarith
        _ = 2 ^ (f.frac + 1 + s) := (pow_add _ _ _).symm
        _ ≤ 2 ^ (f.dropped u + f.frac) := pow_le_pow_right₀ (by norm_num) (by omega)
        _ ≤ u := hbot (by omega)

/-- The units from which rounding overflows: half a step past the largest. -/
def overflow : ℚ := (2 ^ (f.frac + 1) - 1 / 2) * 2 ^ (2 ^ f.expo - 3)

theorem code_finite_iff (he : 2 ≤ f.expo) {u : ℚ} (hu : 0 ≤ u) :
    f.code u < f.infCode ↔ u < f.overflow := by
  have h4 : 2 ^ 2 ≤ 2 ^ f.expo := Nat.pow_le_pow_right (by decide) he
  have hinf : (2 ^ f.expo - 3) * 2 ^ f.frac + 2 ^ (f.frac + 1) = f.infCode := by
    rw [infCode, Nat.pow_succ, Nat.mul_comm (2 ^ f.frac) 2, ← Nat.add_mul,
      show 2 ^ f.expo - 3 + 2 = 2 ^ f.expo - 1 by omega]
  have heven : 2 ^ (f.frac + 1) % 2 = 0 := by rw [Nat.pow_succ]; omega
  have h := f.code_lt_iff hu (s := 2 ^ f.expo - 3) heven
    (Nat.pow_lt_pow_right (by decide) (Nat.lt_succ_self _)) (Nat.le_refl _) (Nat.le_of_eq hinf)
  rw [hinf, Nat.cast_pow, Nat.cast_ofNat] at h
  exact h

end Format

/-! ## Values -/

/-- What a pattern stands for; a finite value keeps the sign of its zero. -/
inductive Datum where
  | nan (neg : Bool)
  | inf (neg : Bool)
  | fin (neg : Bool) (mag : ℚ)
  deriving DecidableEq

namespace Datum

def isFinite : Datum → Bool
  | fin _ _ => true
  | _ => false

/-- The exact value of a finite datum. -/
def toRat : Datum → ℚ
  | fin neg mag => if neg then -mag else mag
  | _ => 0

def abs : Datum → Datum
  | nan _ => nan false
  | inf _ => inf false
  | fin _ mag => fin false mag

/-- `a <= b`: false when either is not a number. -/
def le : Datum → Datum → Bool
  | nan _, _ => false
  | _, nan _ => false
  | inf a, inf b => a || !b
  | inf a, fin _ _ => a
  | fin _ _, inf b => !b
  | fin a p, fin b q => decide ((fin a p).toRat ≤ (fin b q).toRat)

/-- `a < b`: false when either is not a number. -/
def lt (a b : Datum) : Bool := a.le b && !b.le a

/-- The exact difference; a zero difference of equal values is positive. -/
def sub : Datum → Datum → Datum
  | nan a, _ => nan a
  | _, nan b => nan b
  | inf a, inf b => if a = b then nan true else inf a
  | inf a, fin _ _ => inf a
  | fin _ _, inf b => inf (!b)
  | fin a p, fin b q =>
    let d := (fin a p).toRat - (fin b q).toRat
    if d = 0 then fin (a && !b && decide (p = 0)) 0 else fin (decide (d < 0)) |d|

def neg : Datum → Datum
  | nan a => nan a
  | inf a => inf (!a)
  | fin a mag => fin (!a) mag

/-- The exact sum: the difference from the other number negated, also for signed
zeros. -/
def add (a b : Datum) : Datum := a.sub b.neg

/-- The exact quotient. -/
def div : Datum → Datum → Datum
  | nan a, _ => nan a
  | _, nan b => nan b
  | inf _, inf _ => nan true
  | inf a, fin b _ => inf (a ^^ b)
  | fin a _, inf b => fin (a ^^ b) 0
  | fin a p, fin b q =>
    if q = 0 then (if p = 0 then nan true else inf (a ^^ b)) else fin (a ^^ b) (p / q)

/-- A datum with a magnitude that is not negative. -/
def Proper : Datum → Prop
  | fin _ mag => 0 ≤ mag
  | _ => True

theorem abs_toRat {a : Bool} {p : ℚ} (hp : 0 ≤ p) : |(fin a p).toRat| = p := by
  cases a <;> simp [toRat, abs_of_nonneg hp]

theorem div_fin (a b : Bool) (p : ℚ) {q : ℚ} (hq : q ≠ 0) :
    (fin a p).div (fin b q) = fin (a ^^ b) (p / q) := if_neg hq

theorem sub_fin (a b : Bool) (p q : ℚ) :
    ∃ neg, (fin a p).sub (fin b q) = fin neg |(fin a p).toRat - (fin b q).toRat| := by
  dsimp only [sub]
  split
  · rename_i h
    rw [h, abs_zero]
    exact ⟨_, rfl⟩
  · exact ⟨_, rfl⟩

theorem eq_of_toRat_pos {d : Datum} (hd : d.Proper) (h : 0 < d.toRat) : d = fin false d.toRat := by
  cases d with
  | nan _ => exact absurd h (lt_irrefl 0)
  | inf _ => exact absurd h (lt_irrefl 0)
  | fin neg mag =>
    cases neg with
    | false => rfl
    | true =>
      have hmag : (0 : ℚ) ≤ mag := hd
      have hneg : 0 < -mag := h
      linarith

theorem le_iff {a b : Datum} (ha : a.isFinite = true) (hb : b.isFinite = true) :
    a.le b = true ↔ a.toRat ≤ b.toRat := by
  cases a with
  | fin _ _ =>
    cases b with
    | fin _ _ => exact decide_eq_true_iff
    | _ => cases hb
  | _ => cases ha

theorem lt_iff {a b : Datum} (ha : a.isFinite = true) (hb : b.isFinite = true) :
    a.lt b = true ↔ a.toRat < b.toRat := by
  rw [lt, Bool.and_eq_true, Bool.not_eq_true', Bool.eq_false_iff, ne_eq, le_iff ha hb, le_iff hb ha,
    lt_iff_le_not_ge]

end Datum

namespace Format
variable (f : Format)

/-- The value of a pattern. -/
def decode (n : ℕ) : Datum :=
  let neg := decide (2 ^ (f.expo + f.frac) ≤ n)
  let c := n % 2 ^ (f.expo + f.frac)
  if c < f.infCode then .fin neg (f.units c / f.scale)
  else if c = f.infCode then .inf neg
  else .nan neg

/-- The pattern of a value, rounded to nearest, ties to even. -/
def encode : Datum → ℕ
  | .nan neg => neg.toNat * 2 ^ (f.expo + f.frac) + f.infCode + 2 ^ (f.frac - 1)
  | .inf neg => neg.toNat * 2 ^ (f.expo + f.frac) + f.infCode
  | .fin neg mag => neg.toNat * 2 ^ (f.expo + f.frac) + f.code (mag * f.scale)

/-- A value rounded to the format. -/
def round : Datum → Datum
  | .fin neg mag =>
    if f.code (mag * f.scale) < f.infCode then .fin neg (f.units (f.code (mag * f.scale)) / f.scale)
    else .inf neg
  | d => d

theorem decode_proper (n : ℕ) : (f.decode n).Proper := by
  unfold decode
  dsimp only
  split
  · exact div_nonneg (Nat.cast_nonneg _) (Nat.cast_nonneg _)
  · split <;> trivial

theorem scale_eq {e : ℕ} (he : 2 ^ (f.expo - 1) - 2 + f.frac = e) : (f.scale : ℚ) = 2 ^ e := by
  rw [scale, he, Nat.cast_pow, Nat.cast_ofNat]

theorem scale_pos : (0 : ℚ) < f.scale := by
  rw [scale]
  positivity

/-- A finite value is below the one the pattern of infinity would stand for. -/
theorem decode_lt {n : ℕ} (h : (f.decode n).isFinite = true) :
    |(f.decode n).toRat| < f.units f.infCode / f.scale := by
  unfold decode at h ⊢
  dsimp only at h ⊢
  split at h
  · rename_i hlt
    have hunits := f.units_strictMono hlt
    rw [if_pos hlt, Datum.abs_toRat (by positivity)]
    exact div_lt_div_of_pos_right (by exact_mod_cast hunits) f.scale_pos
  · split at h <;> cases h

/-- A value past the precision is a whole number. -/
theorem decode_integral {n : ℕ} (h : (f.decode n).isFinite = true)
    (hbig : 2 ^ (f.frac + 1) ≤ |(f.decode n).toRat|) : ∃ k : ℕ, |(f.decode n).toRat| = k := by
  unfold decode at h hbig ⊢
  dsimp only at h hbig ⊢
  split at h
  · rename_i hlt
    rw [if_pos hlt, Datum.abs_toRat (by positivity)] at hbig ⊢
    obtain ⟨s, m, hc, hm, hs⟩ := f.exists_mantissa (n % 2 ^ (f.expo + f.frac))
    obtain ⟨σ, hσ⟩ : ∃ σ, f.scale = 2 ^ σ := ⟨_, rfl⟩
    rw [hc, f.units_eq hm.le hs, hσ] at hbig ⊢
    have hscale : (0 : ℚ) < (2 ^ σ : ℕ) := by positivity
    rw [le_div_iff₀ hscale] at hbig
    have hbig' : 2 ^ (f.frac + 1) * 2 ^ σ ≤ m * 2 ^ s := by exact_mod_cast hbig
    have hshift : σ ≤ s := by
      by_contra hsσ
      have hpow : 2 ^ s ≤ 2 ^ σ := Nat.pow_le_pow_right (by decide) (by omega)
      have : m * 2 ^ s < 2 ^ (f.frac + 1) * 2 ^ σ :=
        Nat.mul_lt_mul_of_lt_of_le hm hpow (Nat.two_pow_pos σ)
      omega
    refine ⟨m * 2 ^ (s - σ), ?_⟩
    rw [div_eq_iff hscale.ne', ← Nat.cast_mul, Nat.mul_assoc, ← Nat.pow_add,
      Nat.sub_add_cancel hshift]
  · split at h <;> cases h

/-- A value below the midpoint before a pattern is rounded below that pattern. -/
theorem round_lt {mag : ℚ} (hmag : 0 ≤ mag) {s m : ℕ} (heven : m % 2 = 0) (hlo : 2 ^ f.frac < m)
    (hhi : m ≤ 2 ^ (f.frac + 1)) (hinf : s * 2 ^ f.frac + m ≤ f.infCode)
    (hlt : mag * f.scale < (m - 1 / 2) * 2 ^ s) (neg : Bool) :
    ∃ mag', f.round (.fin neg mag) = .fin neg mag' ∧ 0 ≤ mag' ∧ mag' * f.scale < m * 2 ^ s := by
  have hpos := f.scale_pos
  have hcode := (f.code_lt_iff (mul_nonneg hmag hpos.le) heven hlo hhi hinf).mpr hlt
  have hunits := f.units_strictMono hcode
  rw [f.units_eq hhi (Or.inr hlo.le)] at hunits
  refine ⟨f.units (f.code (mag * f.scale)) / f.scale, if_pos (Nat.lt_of_lt_of_le hcode hinf),
    by positivity, ?_⟩
  rw [div_mul_cancel₀ _ hpos.ne']
  exact_mod_cast hunits

/-- Rounding does not pass the next power of two. -/
theorem round_le (he : 2 ≤ f.expo) (hf : 0 < f.frac) {k : ℕ}
    (hk : k + 2 ^ (f.expo - 1) < 2 ^ f.expo) (neg : Bool) {mag : ℚ} (hmag : 0 ≤ mag)
    (hle : mag ≤ 2 ^ k) :
    ∃ mag', f.round (.fin neg mag) = .fin neg mag' ∧ 0 ≤ mag' ∧ mag' ≤ 2 ^ (k + 1) := by
  have hexpo : 2 ^ 1 ≤ 2 ^ (f.expo - 1) := Nat.pow_le_pow_right (by decide) (by omega)
  have hfrac : 2 ^ 1 ≤ 2 ^ f.frac := Nat.pow_le_pow_right (by decide) hf
  obtain ⟨s, hs⟩ : ∃ s, s + 2 = k + 2 ^ (f.expo - 1) :=
    ⟨k + 2 ^ (f.expo - 1) - 2, by omega⟩
  have hscale : (2 : ℚ) ^ k * f.scale = 2 ^ f.frac * 2 ^ s := by
    rw [scale, Nat.cast_pow, Nat.cast_ofNat, ← pow_add, ← pow_add]
    congr 1
    omega
  have hu : mag * f.scale ≤ 2 ^ f.frac * 2 ^ s := by
    rw [← hscale]
    exact mul_le_mul_of_nonneg_right hle f.scale_pos.le
  have heven : (2 ^ f.frac + 2) % 2 = 0 := by
    have := dvd_pow_self 2 (Nat.ne_of_gt hf)
    omega
  have hinf : s * 2 ^ f.frac + (2 ^ f.frac + 2) ≤ f.infCode := by
    have : (s + 2) * 2 ^ f.frac ≤ f.infCode := Nat.mul_le_mul_right _ (by omega)
    rw [Nat.add_mul] at this
    omega
  have hm : 2 ^ f.frac + 2 ≤ 2 ^ (f.frac + 1) := by
    rw [Nat.pow_succ]
    omega
  have hpow : (0 : ℚ) < 2 ^ s := by positivity
  obtain ⟨mag', hround, hmag', hlt⟩ := f.round_lt hmag heven (by omega) hm hinf
    (by push_cast; linarith) neg
  refine ⟨mag', hround, hmag', le_of_mul_le_mul_right ?_ f.scale_pos⟩
  calc mag' * f.scale ≤ ((2 ^ f.frac + 2 : ℕ) : ℚ) * 2 ^ s := hlt.le
    _ ≤ (2 ^ (f.frac + 1) : ℕ) * 2 ^ s :=
      mul_le_mul_of_nonneg_right (by exact_mod_cast hm) hpow.le
    _ = 2 ^ (k + 1) * f.scale := by
      rw [pow_succ 2 k, mul_right_comm, hscale]
      push_cast
      ring

theorem infCode_lt : f.infCode < 2 ^ (f.expo + f.frac) := by
  rw [infCode, Nat.pow_add]
  exact Nat.mul_lt_mul_of_pos_right (Nat.sub_lt (Nat.two_pow_pos _) Nat.one_pos) (Nat.two_pow_pos _)

theorem infCode_add_quiet_lt (hf : 0 < f.frac) :
    f.infCode + 2 ^ (f.frac - 1) < 2 ^ (f.expo + f.frac) := by
  have hq : 2 ^ (f.frac - 1) < 2 ^ f.frac := Nat.pow_lt_pow_right (by decide) (by omega)
  obtain ⟨k, hk⟩ := Nat.exists_eq_add_of_le' (Nat.two_pow_pos f.expo)
  rw [infCode, Nat.pow_add, hk, Nat.add_sub_cancel, Nat.succ_mul]
  omega

theorem code_le (u : ℚ) : f.code u ≤ f.infCode := Nat.min_le_right _ _

theorem encode_lt (hf : 0 < f.frac) (d : Datum) : f.encode d < 2 ^ (1 + (f.expo + f.frac)) := by
  have hsign (neg : Bool) : neg.toNat ≤ 1 := Bool.toNat_le neg
  have h1 := f.infCode_lt
  have h2 := f.infCode_add_quiet_lt hf
  rw [Nat.pow_add, Nat.pow_one, Nat.two_mul]
  cases d with
  | nan neg =>
    have := Nat.mul_le_mul_right (2 ^ (f.expo + f.frac)) (hsign neg)
    simp only [encode]
    omega
  | inf neg =>
    have := Nat.mul_le_mul_right (2 ^ (f.expo + f.frac)) (hsign neg)
    simp only [encode]
    omega
  | fin neg mag =>
    have := Nat.mul_le_mul_right (2 ^ (f.expo + f.frac)) (hsign neg)
    have := f.code_le (mag * f.scale)
    simp only [encode]
    omega

/-- The value of a sign and a magnitude pattern put together. -/
theorem decode_signed (neg : Bool) {c : ℕ} (hc : c < 2 ^ (f.expo + f.frac)) :
    f.decode (neg.toNat * 2 ^ (f.expo + f.frac) + c) =
      if c < f.infCode then .fin neg (f.units c / f.scale)
      else if c = f.infCode then .inf neg else .nan neg := by
  have hmod : (neg.toNat * 2 ^ (f.expo + f.frac) + c) % 2 ^ (f.expo + f.frac) = c := by
    rw [Nat.mul_add_mod', Nat.mod_eq_of_lt hc]
  have hneg : decide (2 ^ (f.expo + f.frac) ≤ neg.toNat * 2 ^ (f.expo + f.frac) + c) = neg := by
    cases neg <;> simp [hc]
  simp only [decode, hmod, hneg]

/-- What is stored in a format is read back rounded. -/
theorem decode_encode (hf : 0 < f.frac) (d : Datum) : f.decode (f.encode d) = f.round d := by
  cases d with
  | nan neg =>
    have hq : 0 < 2 ^ (f.frac - 1) := Nat.two_pow_pos _
    rw [encode, Nat.add_assoc, f.decode_signed neg (f.infCode_add_quiet_lt hf)]
    simp [round]
  | inf neg =>
    rw [encode, f.decode_signed neg f.infCode_lt]
    simp [round]
  | fin neg mag =>
    have hle := f.code_le (mag * f.scale)
    rw [encode, f.decode_signed neg (lt_of_le_of_lt hle f.infCode_lt), round]
    rcases Nat.lt_or_eq_of_le hle with h | h
    · simp [h]
    · simp [h]

end Format

/-! ## The two formats -/

/-- A `float`, by its bits. -/
structure F32 where
  bits : BitVec 32
  deriving DecidableEq, Repr

/-- A `double`, by its bits. -/
structure F64 where
  bits : BitVec 64
  deriving DecidableEq, Repr

def F32.datum (x : F32) : Datum := binary32.decode x.bits.toNat
def F64.datum (x : F64) : Datum := binary64.decode x.bits.toNat

def F32.ofDatum (d : Datum) : F32 := ⟨BitVec.ofNat 32 (binary32.encode d)⟩
def F64.ofDatum (d : Datum) : F64 := ⟨BitVec.ofNat 64 (binary64.encode d)⟩

def F64.sub (x y : F64) : F64 := .ofDatum (x.datum.sub y.datum)
def F64.add (x y : F64) : F64 := .ofDatum (x.datum.add y.datum)
def F64.div (x y : F64) : F64 := .ofDatum (x.datum.div y.datum)
def F64.ofNat (n : ℕ) : F64 := .ofDatum (.fin false n)

/-- The conversion from `double` to `float`. -/
def F64.narrow (x : F64) : F32 := .ofDatum x.datum

theorem F32.datum_ofDatum (d : Datum) : (F32.ofDatum d).datum = binary32.round d := by
  have hlt : binary32.encode d < 2 ^ 32 := binary32.encode_lt (by decide) d
  rw [F32.datum, F32.ofDatum, BitVec.toNat_ofNat, Nat.mod_eq_of_lt hlt,
    binary32.decode_encode (by decide)]

theorem F64.datum_ofDatum (d : Datum) : (F64.ofDatum d).datum = binary64.round d := by
  have hlt : binary64.encode d < 2 ^ 64 := binary64.encode_lt (by decide) d
  rw [F64.datum, F64.ofDatum, BitVec.toNat_ofNat, Nat.mod_eq_of_lt hlt,
    binary64.decode_encode (by decide)]

theorem F32.datum_proper (x : F32) : x.datum.Proper := binary32.decode_proper _
theorem F64.datum_proper (x : F64) : x.datum.Proper := binary64.decode_proper _

end Ieee
