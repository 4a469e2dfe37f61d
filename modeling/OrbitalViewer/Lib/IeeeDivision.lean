import OrbitalViewer.Lib.Ieee

/-!
# A rounded quotient times its divisor

A whole number that a format holds with a bit to spare, divided by `2 ^ a + 1`
and multiplied by it again, comes back: the first rounding is off by so little
that the second one undoes it (`units_quotient_mul`).
-/

namespace Ieee

theorem nearestEven_near {q : ℚ} (hq : 0 ≤ q) : |(nearestEven q : ℚ) - q| ≤ 1 / 2 := by
  have hlo : (⌊q⌋₊ : ℚ) ≤ q := Nat.floor_le hq
  have hhi : q < ⌊q⌋₊ + 1 := Nat.lt_floor_add_one q
  rw [abs_le]
  unfold nearestEven
  split
  · rename_i h
    constructor <;> rcases h with h | ⟨h, _⟩ <;> linarith
  · rename_i h
    push Not at h
    push_cast
    constructor <;> linarith [h.1]

theorem nearestEven_eq_of_lt {q : ℚ} (hq : 0 ≤ q) {m : ℕ} (h : |q - m| < 1 / 2) :
    nearestEven q = m := by
  have hnear := abs_le.mp (nearestEven_near hq)
  obtain ⟨hlo, hhi⟩ := abs_lt.mp h
  have hlt : (nearestEven q : ℚ) < m + 1 := by linarith
  have hgt : (m : ℚ) < nearestEven q + 1 := by linarith
  have hlt' : nearestEven q < m + 1 := by exact_mod_cast hlt
  have hgt' : m < nearestEven q + 1 := by exact_mod_cast hgt
  omega

theorem nearestEven_eq_of_even {q : ℚ} (hq : 0 ≤ q) {m : ℕ} (hm : m % 2 = 0)
    (h : |q - m| ≤ 1 / 2) : nearestEven q = m := by
  obtain ⟨hlo, hhi⟩ := abs_le.mp h
  have htie : nearestEven ((m : ℚ) + 1 / 2) = m := by
    have hfloor : ⌊(m : ℚ) + 1 / 2⌋₊ = m := by
      rw [Nat.floor_eq_iff (by positivity)]
      constructor <;> linarith
    rw [nearestEven, hfloor, if_pos (.inr ⟨by ring, hm⟩)]
  have hupper : nearestEven q ≤ m := htie ▸ nearestEven_mono hq (by linarith)
  have hlower : ¬ nearestEven q < m := by
    rw [nearestEven_lt_iff hq hm]
    linarith
  omega

namespace Format
variable (f : Format)

theorem dropped_eq {u : ℚ} {s : ℕ} (hlo : 2 ^ (s + f.frac) ≤ u) (hhi : u < 2 ^ (s + f.frac + 1)) :
    f.dropped u = s := by
  have hu : 0 ≤ u := le_trans (by positivity) hlo
  have hfloor : 2 ^ (s + f.frac) ≤ ⌊u⌋₊ := Nat.le_floor (by exact_mod_cast hlo)
  have hfloor' : ⌊u⌋₊ < 2 ^ (s + f.frac + 1) := (Nat.floor_lt hu).mpr (by exact_mod_cast hhi)
  have hpos : 0 < 2 ^ (s + f.frac) := Nat.two_pow_pos _
  rw [dropped, (Nat.log2_eq_iff (by omega)).mpr ⟨hfloor, hfloor'⟩, Nat.add_sub_cancel]

/-- What a finite pattern stands for, as the mantissa that rounding produced. -/
theorem units_code {u : ℚ} (hu : 0 ≤ u) (h : f.code u < f.infCode) :
    f.units (f.code u) = nearestEven (u / 2 ^ f.dropped u) * 2 ^ f.dropped u := by
  obtain ⟨hM, hM'⟩ := f.mantissa_bounds hu
  have hcode : f.code u = f.dropped u * 2 ^ f.frac + nearestEven (u / 2 ^ f.dropped u) := by
    unfold code at h ⊢
    omega
  rw [hcode]
  exact f.units_eq hM hM'

theorem code_finite {u : ℚ} (hu : 0 ≤ u) {t : ℕ} (hlt : u < 2 ^ (t + f.frac + 1))
    (ht : t + 4 ≤ 2 ^ f.expo) : f.code u < f.infCode := by
  have he : 2 ≤ f.expo := by
    by_contra h
    have : 2 ^ f.expo ≤ 2 ^ 1 := Nat.pow_le_pow_right (by decide) (by omega)
    omega
  rw [f.code_finite_iff he hu]
  have hfrac : (1 : ℚ) ≤ 2 ^ f.frac := one_le_pow₀ (by norm_num)
  calc u < 2 ^ (t + f.frac + 1) := hlt
    _ = 2 ^ f.frac * 2 ^ (t + 1) := by ring
    _ ≤ 2 ^ f.frac * 2 ^ (2 ^ f.expo - 3) := by
        apply mul_le_mul_of_nonneg_left _ (by positivity)
        exact pow_le_pow_right₀ (by norm_num) (by omega)
    _ ≤ f.overflow := by
        rw [overflow]
        apply mul_le_mul_of_nonneg_right _ (by positivity)
        rw [pow_succ]
        linarith

/-- A whole number that fits the mantissa is not rounded. -/
theorem units_code_exact {n t : ℕ} (hn : n < 2 ^ (f.frac + 1)) (ht : t + 4 ≤ 2 ^ f.expo) :
    f.units (f.code (n * 2 ^ t)) = n * 2 ^ t := by
  have hu : (0 : ℚ) ≤ n * 2 ^ t := by positivity
  have hn' : (n : ℚ) < 2 ^ (f.frac + 1) := by exact_mod_cast hn
  have hlt : (n : ℚ) * 2 ^ t < 2 ^ (t + f.frac + 1) := by
    calc (n : ℚ) * 2 ^ t < 2 ^ (f.frac + 1) * 2 ^ t := mul_lt_mul_of_pos_right hn' (by positivity)
      _ = 2 ^ (t + f.frac + 1) := by ring
  have hdropped : f.dropped (n * 2 ^ t) ≤ t := by
    by_contra h
    have hle := (f.dropped_bounds hu).2 (by omega)
    have hpow : (2 : ℚ) ^ (t + f.frac + 1) ≤ 2 ^ (f.dropped (n * 2 ^ t) + f.frac) :=
      pow_le_pow_right₀ (by norm_num) (by omega)
    linarith
  have hquotient : (n : ℚ) * 2 ^ t / 2 ^ f.dropped (n * 2 ^ t) =
      (n * 2 ^ (t - f.dropped (n * 2 ^ t)) : ℕ) := by
    rw [div_eq_iff (by positivity)]
    push_cast
    rw [mul_assoc, ← pow_add, Nat.sub_add_cancel hdropped]
  rw [f.units_code hu (f.code_finite hu hlt ht), hquotient, nearestEven_natCast, Nat.mul_assoc,
    ← pow_add, Nat.sub_add_cancel hdropped]

/-- A value within `2 ^ (a - 1)` of one with `a + 1` low zero bits is rounded to
that one, when as many bits have to go. -/
theorem nearestEven_undo {a n w s K : ℕ} (ha : 0 < a) (hw : a + 1 ≤ w)
    (hnear : |(K : ℚ) - n * 2 ^ w| ≤ 2 ^ (a - 1)) (hlo : (2 : ℚ) ^ (a + f.frac) ≤ K)
    (hhi : (K : ℚ) < 2 ^ (a + f.frac + 2)) :
    (nearestEven (K * 2 ^ s / 2 ^ f.dropped (K * 2 ^ s)) * 2 ^ f.dropped (K * 2 ^ s) : ℚ) =
      n * 2 ^ w * 2 ^ s := by
  have hs : (0 : ℚ) < 2 ^ s := by positivity
  have hhalf : (2 : ℚ) ^ (a - 1) * 2 = 2 ^ a := by rw [← pow_succ, Nat.sub_add_cancel ha]
  have hpa : (0 : ℚ) < 2 ^ (a - 1) := by positivity
  -- What is left of the error once `b` bits are dropped.
  have hshift (b : ℕ) (hb : b ≤ w) :
      (K : ℚ) * 2 ^ s / 2 ^ (s + b) - (n * 2 ^ (w - b) : ℕ) = (K - n * 2 ^ w) / 2 ^ b := by
    push_cast
    rw [pow_add, show (2 : ℚ) ^ w = 2 ^ (w - b) * 2 ^ b by rw [← pow_add, Nat.sub_add_cancel hb]]
    field_simp
  have hback (b : ℕ) (hb : b ≤ w) :
      ((n * 2 ^ (w - b) : ℕ) : ℚ) * 2 ^ (s + b) = n * 2 ^ w * 2 ^ s := by
    push_cast
    rw [show (2 : ℚ) ^ w = 2 ^ (w - b) * 2 ^ b by rw [← pow_add, Nat.sub_add_cancel hb]]
    ring
  have hnonneg (b : ℕ) : (0 : ℚ) ≤ K * 2 ^ s / 2 ^ (s + b) := by positivity
  rcases lt_or_ge (K : ℚ) (2 ^ (a + f.frac + 1)) with hsmall | hbig
  · have hdropped : f.dropped (K * 2 ^ s) = s + a := by
      apply f.dropped_eq
      · rw [show s + a + f.frac = (a + f.frac) + s by omega, pow_add]
        exact mul_le_mul_of_nonneg_right hlo hs.le
      · rw [show s + a + f.frac + 1 = (a + f.frac + 1) + s by omega, pow_add _ _ s]
        exact mul_lt_mul_of_pos_right hsmall hs
    have heven : n * 2 ^ (w - a) % 2 = 0 := by
      obtain ⟨b, hb⟩ := Nat.exists_eq_add_of_lt (show a < w by omega)
      rw [show w - a = b + 1 by omega, Nat.pow_succ, ← Nat.mul_assoc, Nat.mul_mod_left]
    rw [hdropped, nearestEven_eq_of_even (hnonneg a) heven, hback a (by omega)]
    rw [hshift a (by omega), abs_div, abs_of_pos (show (0 : ℚ) < 2 ^ a by positivity),
      div_le_iff₀ (by positivity)]
    linarith
  · have hdropped : f.dropped (K * 2 ^ s) = s + (a + 1) := by
      apply f.dropped_eq
      · rw [show s + (a + 1) + f.frac = (a + f.frac + 1) + s by omega, pow_add _ _ s]
        exact mul_le_mul_of_nonneg_right hbig hs.le
      · rw [show s + (a + 1) + f.frac + 1 = (a + f.frac + 2) + s by omega, pow_add _ _ s]
        exact mul_lt_mul_of_pos_right hhi hs
    rw [hdropped, nearestEven_eq_of_lt (hnonneg (a + 1)), hback (a + 1) hw]
    rw [hshift (a + 1) hw, abs_div, abs_of_pos (show (0 : ℚ) < 2 ^ (a + 1) by positivity),
      div_lt_iff₀ (by positivity), pow_succ]
    linarith

section Quotient
variable {f} {a n t k : ℕ} {v : ℚ}

/-- The quotient is too large for its last bit to be the last of the format. -/
theorem dropped_quotient_pos (hv : 0 ≤ v) (hvD : v * (2 ^ a + 1) = n * 2 ^ t) (hn : 0 < n)
    (hlow : f.frac + a + 2 ≤ t) : 0 < f.dropped v := by
  obtain ⟨hhi, _⟩ := f.dropped_bounds hv
  by_contra h0
  have hone : (1 : ℚ) ≤ n := by exact_mod_cast hn
  have ha1 : (1 : ℚ) ≤ 2 ^ a := one_le_pow₀ (by norm_num)
  have hbig : (2 : ℚ) ^ (f.frac + 1) * (2 ^ a + 1) ≤ v * (2 ^ a + 1) := by
    calc (2 : ℚ) ^ (f.frac + 1) * (2 ^ a + 1) ≤ 2 ^ (f.frac + 1) * (2 ^ a * 2) := by
          apply mul_le_mul_of_nonneg_left _ (by positivity)
          linarith
      _ = 2 ^ (f.frac + a + 2) := by ring
      _ ≤ 2 ^ t := pow_le_pow_right₀ (by norm_num) hlow
      _ ≤ n * 2 ^ t := le_mul_of_one_le_left (by positivity) hone
      _ = v * (2 ^ a + 1) := hvD.symm
  rw [Nat.eq_zero_of_not_pos h0, Nat.zero_add] at hhi
  exact absurd (le_of_mul_le_mul_right hbig (by positivity)) (not_le.mpr hhi)

/-- Nor is its last bit above a half. -/
theorem dropped_quotient_lt (hv : 0 ≤ v) (hvD : v * (2 ^ a + 1) = n * 2 ^ t)
    (hn : n < 2 ^ f.frac) (hpos : 0 < f.dropped v) : f.dropped v + a < t := by
  have hlo := (f.dropped_bounds hv).2 hpos
  by_contra h
  have hpow : (2 : ℚ) ^ (f.frac + t) ≤ 2 ^ (f.dropped v + f.frac) * 2 ^ a := by
    rw [← pow_add]
    exact pow_le_pow_right₀ (by norm_num) (by omega)
  have hle : (2 : ℚ) ^ (f.dropped v + f.frac) * 2 ^ a ≤ v * (2 ^ a + 1) :=
    mul_le_mul hlo (by linarith) (by positivity) hv
  have hlt : v * (2 ^ a + 1) < 2 ^ (f.frac + t) := by
    rw [hvD, pow_add]
    exact mul_lt_mul_of_pos_right (by exact_mod_cast hn) (by positivity)
  linarith

/-- A rounded quotient times its divisor is off by at most `2 ^ (a - 1)`. -/
theorem product_near (ha : 0 < a) {q : ℚ} (hq : 0 ≤ q) {m : ℕ} (hqD : q * (2 ^ a + 1) = m) :
    |(((2 ^ a + 1) * nearestEven q : ℕ) : ℚ) - m| ≤ 2 ^ (a - 1) := by
  have hD : (0 : ℚ) < 2 ^ a + 1 := by positivity
  have herror : (((2 ^ a + 1) * nearestEven q : ℕ) : ℚ) - m =
      (nearestEven q - q) * (2 ^ a + 1) := by
    rw [sub_mul, hqD]
    push_cast
    ring
  have hle : |(((2 ^ a + 1) * nearestEven q : ℕ) : ℚ) - m| ≤ 2 ^ (a - 1) + 1 / 2 := by
    rw [herror, abs_mul, abs_of_pos hD]
    have hhalf : (2 : ℚ) ^ (a - 1) * 2 = 2 ^ a := by rw [← pow_succ, Nat.sub_add_cancel ha]
    calc _ ≤ 1 / 2 * ((2 : ℚ) ^ a + 1) :=
          mul_le_mul_of_nonneg_right (nearestEven_near hq) hD.le
      _ = 2 ^ (a - 1) + 1 / 2 := by rw [← hhalf]; ring
  -- The error is a whole number.
  have hint : |(((2 ^ a + 1) * nearestEven q : ℕ) : ℤ) - m| < 2 ^ (a - 1) + 1 := by
    have : |(((2 ^ a + 1) * nearestEven q : ℕ) : ℚ) - m| < 2 ^ (a - 1) + 1 := by linarith
    exact_mod_cast this
  exact_mod_cast Int.lt_add_one_iff.mp hint

theorem product_bounds (ha : 0 < a) (hlo : 2 ^ f.frac ≤ k) (hhi : k ≤ 2 ^ (f.frac + 1)) :
    (2 : ℚ) ^ (a + f.frac) ≤ ((2 ^ a + 1) * k : ℕ) ∧
      (((2 ^ a + 1) * k : ℕ) : ℚ) < 2 ^ (a + f.frac + 2) := by
  have hlo' : (2 : ℚ) ^ f.frac ≤ k := by exact_mod_cast hlo
  have hhi' : (k : ℚ) ≤ 2 ^ (f.frac + 1) := by exact_mod_cast hhi
  have ha2 : (2 : ℚ) ≤ 2 ^ a := by
    calc (2 : ℚ) = 2 ^ 1 := (pow_one 2).symm
      _ ≤ 2 ^ a := pow_le_pow_right₀ (by norm_num) ha
  push_cast
  constructor
  · rw [pow_add]
    exact mul_le_mul (by linarith) hlo' (by positivity) (by positivity)
  · calc ((2 : ℚ) ^ a + 1) * k ≤ (2 ^ a + 1) * 2 ^ (f.frac + 1) :=
          mul_le_mul_of_nonneg_left hhi' (by positivity)
      _ < (2 ^ a * 2) * 2 ^ (f.frac + 1) := mul_lt_mul_of_pos_right (by linarith) (by positivity)
      _ = 2 ^ (a + f.frac + 2) := by ring

end Quotient

/-- **The quotient by `2 ^ a + 1`, multiplied back.** -/
theorem units_quotient_mul {a n t : ℕ} (ha : 0 < a) (hn : n < 2 ^ f.frac)
    (hlow : f.frac + a + 2 ≤ t) (htop : t + 4 ≤ 2 ^ f.expo) :
    f.units (f.code ((2 ^ a + 1) * f.units (f.code (n * 2 ^ t / (2 ^ a + 1))))) = n * 2 ^ t := by
  rcases Nat.eq_zero_or_pos n with rfl | hpos
  · simp [code, dropped, nearestEven, units]
  obtain ⟨v, hv⟩ : ∃ v : ℚ, v = n * 2 ^ t / (2 ^ a + 1) := ⟨_, rfl⟩
  rw [← hv]
  have hv0 : 0 ≤ v := by rw [hv]; positivity
  have hvD : v * (2 ^ a + 1) = n * 2 ^ t := by rw [hv]; field_simp
  obtain ⟨s, hs⟩ : ∃ s, s = f.dropped v := ⟨_, rfl⟩
  have hps : (0 : ℚ) < 2 ^ s := by positivity
  have hspos : 0 < s := hs ▸ dropped_quotient_pos hv0 hvD hpos hlow
  have hsa : s + a < t := hs ▸ dropped_quotient_lt hv0 hvD hn (hs ▸ hspos)
  obtain ⟨hhi, hlo⟩ := f.dropped_bounds hv0
  rw [← hs] at hhi hlo
  have hvt : v < 2 ^ (t + f.frac + 1) :=
    hhi.trans_le (pow_le_pow_right₀ (by norm_num) (by omega))
  obtain ⟨k, hk⟩ : ∃ k, k = nearestEven (v / 2 ^ s) := ⟨_, rfl⟩
  have hfirst : ((2 ^ a + 1) * (f.units (f.code v)) : ℚ) = ((2 ^ a + 1) * k : ℕ) * 2 ^ s := by
    rw [f.units_code hv0 (f.code_finite hv0 hvt htop), ← hs, ← hk]
    push_cast
    ring
  have hnear : |(((2 ^ a + 1) * k : ℕ) : ℚ) - n * 2 ^ (t - s)| ≤ 2 ^ (a - 1) := by
    have hquotient : v / 2 ^ s * (2 ^ a + 1) = (n * 2 ^ (t - s) : ℕ) := by
      push_cast
      rw [div_mul_eq_mul_div, hvD, div_eq_iff hps.ne', mul_assoc, ← pow_add,
        Nat.sub_add_cancel (by omega)]
    have h := product_near ha (div_nonneg hv0 hps.le) hquotient
    rw [← hk] at h
    exact_mod_cast h
  have hklo : 2 ^ f.frac ≤ k := by
    rw [hk]
    apply le_nearestEven
    rw [le_div_iff₀ hps, Nat.cast_pow, Nat.cast_ofNat, ← pow_add, Nat.add_comm]
    exact hlo hspos
  have hkhi : k ≤ 2 ^ (f.frac + 1) := by
    rw [hk, hs]
    exact (f.mantissa_bounds hv0).1
  obtain ⟨hKlo, hKhi⟩ := product_bounds ha hklo hkhi
  have hfinite : f.code (((2 ^ a + 1) * k : ℕ) * 2 ^ s) < f.infCode := by
    apply f.code_finite (by positivity) _ htop
    calc (((2 ^ a + 1) * k : ℕ) : ℚ) * 2 ^ s < 2 ^ (a + f.frac + 2) * 2 ^ s :=
          mul_lt_mul_of_pos_right hKhi hps
      _ = 2 ^ (s + a + f.frac + 2) := by ring
      _ ≤ 2 ^ (t + f.frac + 1) := pow_le_pow_right₀ (by norm_num) (by omega)
  have hundo := f.nearestEven_undo (s := s) ha (by omega) hnear hKlo hKhi
  have hresult : (f.units (f.code (((2 ^ a + 1) * k : ℕ) * 2 ^ s)) : ℚ) = n * 2 ^ t := by
    rw [f.units_code (by positivity) hfinite]
    push_cast at hundo ⊢
    rw [hundo, mul_assoc, ← pow_add, Nat.sub_add_cancel (by omega)]
  rw [hfirst]
  exact_mod_cast hresult

variable {f} {t : ℕ}

/-- A whole number that fits the mantissa is a value of the format. -/
theorem round_natCast (hscale : (f.scale : ℚ) = 2 ^ t) (htop : t + 4 ≤ 2 ^ f.expo) {n : ℕ}
    (hn : n < 2 ^ (f.frac + 1)) : f.round (.fin false n) = .fin false n := by
  have hpt : (0 : ℚ) < 2 ^ t := by positivity
  have hn' : (n : ℚ) < 2 ^ (f.frac + 1) := by exact_mod_cast hn
  have hexact : (f.units (f.code (n * 2 ^ t)) : ℚ) = n * 2 ^ t := by
    exact_mod_cast f.units_code_exact hn htop
  have hfinite : f.code (n * 2 ^ t) < f.infCode := by
    apply f.code_finite (by positivity) _ htop
    calc (n : ℚ) * 2 ^ t < 2 ^ (f.frac + 1) * 2 ^ t := mul_lt_mul_of_pos_right hn' hpt
      _ = 2 ^ (t + f.frac + 1) := by ring
  rw [round, hscale, if_pos hfinite, hexact, mul_div_cancel_right₀ _ hpt.ne']

/-- Rounding does not pass a power of two downwards. -/
theorem pow_le_round (hscale : (f.scale : ℚ) = 2 ^ t) {k s : ℕ} (hs : f.frac + 1 + s = k + t)
    (htop : s + 3 ≤ 2 ^ f.expo) {neg : Bool} {mag r : ℚ} (hmag : 2 ^ k ≤ mag)
    (hround : f.round (.fin neg mag) = .fin neg r) : 2 ^ k ≤ r := by
  have hpt : (0 : ℚ) < 2 ^ t := by positivity
  have hps : (0 : ℚ) < 2 ^ s := by positivity
  have hpow : (2 : ℚ) ^ k * 2 ^ t = 2 ^ (f.frac + 1) * 2 ^ s := by
    rw [← pow_add, ← pow_add, hs]
  have hu : (2 : ℚ) ^ (f.frac + 1) * 2 ^ s ≤ mag * 2 ^ t := by
    rw [← hpow]
    exact mul_le_mul_of_nonneg_right hmag hpt.le
  have hinf : s * 2 ^ f.frac + 2 ^ (f.frac + 1) ≤ f.infCode := by
    have : (s + 2) * 2 ^ f.frac ≤ f.infCode := Nat.mul_le_mul_right _ (by omega)
    rw [Nat.pow_succ]
    linarith
  have hcode : s * 2 ^ f.frac + 2 ^ (f.frac + 1) ≤ f.code (mag * 2 ^ t) := by
    apply not_lt.mp
    intro hlt
    have hmagt : 0 ≤ mag * 2 ^ t := le_trans (by positivity) hu
    have hbelow := (f.code_lt_iff hmagt (by rw [Nat.pow_succ]; omega)
      (Nat.pow_lt_pow_right (by decide) (Nat.lt_add_one _)) le_rfl hinf).mp hlt
    rw [Nat.cast_pow, Nat.cast_ofNat, sub_mul] at hbelow
    linarith
  have hunits := f.units_strictMono.monotone hcode
  rw [f.units_eq le_rfl (Or.inr (Nat.pow_le_pow_right (by decide) (Nat.le_add_right _ 1)))] at hunits
  have hunits : (2 : ℚ) ^ (f.frac + 1) * 2 ^ s ≤ f.units (f.code (mag * 2 ^ t)) := by
    exact_mod_cast hunits
  rw [round, hscale] at hround
  split at hround
  · rw [← (Datum.fin.inj hround).2, le_div_iff₀ hpt, hpow]
    exact hunits
  · cases hround

/-- The rounded quotient by `2 ^ a + 1`, multiplied back and rounded again. -/
theorem encode_quotient_mul (hscale : (f.scale : ℚ) = 2 ^ t) {a n : ℕ} (ha : 0 < a)
    (hn : n < 2 ^ f.frac) (hlow : f.frac + a + 2 ≤ t) (htop : t + 4 ≤ 2 ^ f.expo) :
    ∃ q, f.round (.fin false (n / (2 ^ a + 1))) = .fin false q ∧
      f.encode (.fin false (q * (2 ^ a + 1))) = f.encode (.fin false n) := by
  have hpt : (0 : ℚ) < 2 ^ t := by positivity
  have hn' : (n : ℚ) < 2 ^ f.frac := by exact_mod_cast hn
  have hswap : (n : ℚ) / (2 ^ a + 1) * 2 ^ t = n * 2 ^ t / (2 ^ a + 1) := by ring
  have hfinite : f.code (n * 2 ^ t / (2 ^ a + 1)) < f.infCode := by
    apply f.code_finite (by positivity) _ htop
    calc (n : ℚ) * 2 ^ t / (2 ^ a + 1) ≤ n * 2 ^ t :=
          div_le_self (by positivity) (by linarith [show (0 : ℚ) < 2 ^ a by positivity])
      _ < 2 ^ f.frac * 2 ^ t := mul_lt_mul_of_pos_right hn' hpt
      _ ≤ 2 ^ (t + f.frac + 1) := by
          rw [← pow_add]
          exact pow_le_pow_right₀ (by norm_num) (by omega)
  refine ⟨f.units (f.code (n * 2 ^ t / (2 ^ a + 1))) / 2 ^ t, ?_, ?_⟩
  · rw [round, hscale, hswap, if_pos hfinite]
  · have hunits : (f.units (f.code (n * 2 ^ t / (2 ^ a + 1))) : ℚ) / 2 ^ t * (2 ^ a + 1) * 2 ^ t =
        (2 ^ a + 1) * f.units (f.code (n * 2 ^ t / (2 ^ a + 1))) := by
      field_simp
    have hcode : f.code ((2 ^ a + 1) * f.units (f.code (n * 2 ^ t / (2 ^ a + 1)))) =
        f.code (n * 2 ^ t) := by
      have hfits : n < 2 ^ (f.frac + 1) := hn.trans (Nat.pow_lt_pow_right (by decide) (by omega))
      apply f.units_strictMono.injective
      rw [f.units_quotient_mul ha hn hlow htop, f.units_code_exact hfits htop]
    rw [encode, encode, hscale, hunits, hcode]

end Format

/-! ## Doubles -/

/-- The exact product. -/
def Datum.mul : Datum → Datum → Datum
  | .nan a, _ => .nan a
  | _, .nan b => .nan b
  | .inf a, .inf b => .inf (a ^^ b)
  | .inf a, .fin b q => if q = 0 then .nan true else .inf (a ^^ b)
  | .fin a p, .inf b => if p = 0 then .nan true else .inf (a ^^ b)
  | .fin a p, .fin b q => .fin (a ^^ b) (p * q)

def F64.mul (x y : F64) : F64 := .ofDatum (x.datum.mul y.datum)

theorem F64.datum_ofNat {n : ℕ} (hn : n < 2 ^ 53) : (F64.ofNat n).datum = .fin false n := by
  rw [F64.ofNat, F64.datum_ofDatum]
  exact Format.round_natCast (binary64.scale_eq rfl) (by decide) hn

/-- Rounding does not look at the sign. -/
theorem Format.round_sign {f : Format} {mag r : ℚ} (h : f.round (.fin false mag) = .fin false r)
    (neg : Bool) : f.round (.fin neg mag) = .fin neg r := by
  unfold Format.round at h ⊢
  dsimp only at h ⊢
  split at h
  · rename_i hcode
    rw [if_pos hcode, (Datum.fin.inj h).2]
  · cases h

theorem Format.round_isFinite_sign (f : Format) (neg : Bool) (mag : ℚ) :
    (f.round (.fin neg mag)).isFinite = (f.round (.fin false mag)).isFinite := by
  unfold Format.round
  dsimp only
  split <;> rfl

theorem Format.round_finite {f : Format} {neg : Bool} {mag : ℚ}
    (h : (f.round (.fin neg mag)).isFinite = true) : ∃ r, f.round (.fin neg mag) = .fin neg r := by
  unfold Format.round at h ⊢
  dsimp only at h ⊢
  split at h
  · rename_i hcode
    exact ⟨_, if_pos hcode⟩
  · cases h

/-- A negative number is rounded to none above zero. -/
theorem Format.round_neg_le (f : Format) (mag : ℚ) : (f.round (.fin true mag)).toRat ≤ 0 := by
  unfold Format.round
  dsimp only
  split
  · have hnonneg : (0 : ℚ) ≤ f.units (f.code (mag * f.scale)) / f.scale :=
      div_nonneg (Nat.cast_nonneg _) f.scale_pos.le
    show -((f.units (f.code (mag * f.scale)) : ℚ) / f.scale) ≤ 0
    linarith
  · exact le_refl (0 : ℚ)

theorem F64.datum_signed {n : ℕ} (hn : n < 2 ^ 53) (neg : Bool) :
    (F64.ofDatum (.fin neg n)).datum = .fin neg n := by
  have hnat := F64.datum_ofNat hn
  rw [F64.ofNat, F64.datum_ofDatum] at hnat
  rw [F64.datum_ofDatum]
  exact Format.round_sign hnat neg

/-- **A fifth, times five.** -/
theorem F64.div_five_mul {n : ℕ} (hn : n < 2 ^ 52) :
    ((F64.ofNat n).div (F64.ofNat 5)).mul (F64.ofNat 5) = F64.ofNat n := by
  obtain ⟨q, hround, hencode⟩ := Format.encode_quotient_mul (binary64.scale_eq rfl)
    (show 0 < 2 by decide) hn (by decide) (by decide)
  have hfive : (F64.ofNat 5).datum = .fin false (2 ^ 2 + 1) := by
    rw [F64.datum_ofNat (by decide)]
    norm_num
  have hquotient : ((F64.ofNat n).div (F64.ofNat 5)).datum = .fin false q := by
    rw [F64.div, F64.datum_ofDatum, F64.datum_ofNat (hn.trans (by decide)), hfive,
      Datum.div_fin _ _ _ (by norm_num)]
    exact hround
  rw [F64.mul, hfive, hquotient]
  exact congrArg (fun c => F64.mk (BitVec.ofNat 64 c)) hencode

end Ieee
