import OrbitalViewer.Lib.IeeeDivision

/-!
# Rounding as a function

What a rational number is rounded to, as a function `Format.rd`. It is odd and monotone,
it leaves the values of the format alone, and it is off by at most half a step. The
operations on doubles are the exact ones and then `rd`, below 2^1023.
-/

namespace Ieee

namespace Format
variable (f : Format)

theorem dropped_mono {u v : ℚ} (h : u ≤ v) : f.dropped u ≤ f.dropped v := by
  unfold dropped
  have hfloor : ⌊u⌋₊ ≤ ⌊v⌋₊ := Nat.floor_le_floor h
  have hlog : Nat.log2 ⌊u⌋₊ ≤ Nat.log2 ⌊v⌋₊ := by
    rw [Nat.log2_eq_log_two, Nat.log2_eq_log_two]
    exact Nat.log_mono_right hfloor
  omega

theorem code_mono {u v : ℚ} (hu : 0 ≤ u) (h : u ≤ v) : f.code u ≤ f.code v := by
  obtain ⟨hM, _⟩ := f.mantissa_bounds hu
  obtain ⟨_, hN⟩ := f.mantissa_bounds (hu.trans h)
  refine min_le_min_right _ ?_
  rcases Nat.lt_or_eq_of_le (f.dropped_mono h) with hlt | heq
  · have hmantissa := hN.resolve_left (by omega)
    have hshift := Nat.mul_le_mul_right (2 ^ f.frac) (Nat.succ_le_of_lt hlt)
    rw [Nat.pow_succ] at hM
    rw [Nat.succ_mul] at hshift
    omega
  · rw [← heq]
    refine Nat.add_le_add_left (nearestEven_mono (by positivity) ?_) _
    exact div_le_div_of_nonneg_right h (by positivity)

/-- A pattern is the nearest to the value it stands for. -/
theorem code_units {c : ℕ} (hc : c ≤ f.infCode) : f.code (f.units c) = c := by
  obtain ⟨s, m, rfl, hm, hs⟩ := f.exists_mantissa c
  have hunits : (f.units (s * 2 ^ f.frac + m) : ℚ) = m * 2 ^ s := by
    rw [f.units_eq hm.le hs]
    push_cast
    ring
  have hdropped : f.dropped (m * 2 ^ s) = s := by
    have hm' : (m : ℚ) < 2 ^ (f.frac + 1) := by exact_mod_cast hm
    rcases hs with rfl | hs
    · have hfloor : ⌊(m : ℚ) * 2 ^ 0⌋₊ = m := by simp
      rw [dropped, hfloor]
      rcases Nat.eq_zero_or_pos m with rfl | hpos
      · simp [Nat.log2]
      · have := (Nat.log2_lt hpos.ne').mpr hm
        omega
    · have hs' : (2 : ℚ) ^ f.frac ≤ m := by exact_mod_cast hs
      apply f.dropped_eq
      · rw [Nat.add_comm, pow_add]
        exact mul_le_mul_of_nonneg_right hs' (by positivity)
      · calc (m : ℚ) * 2 ^ s < 2 ^ (f.frac + 1) * 2 ^ s := mul_lt_mul_of_pos_right hm' (by positivity)
          _ = 2 ^ (s + f.frac + 1) := by ring
  rw [hunits, code, hdropped, mul_div_cancel_right₀ _ (by positivity), nearestEven_natCast]
  exact min_eq_left hc

/-- What a magnitude is rounded to. -/
def roundMag (mag : ℚ) : ℚ := f.units (f.code (mag * f.scale)) / f.scale

/-- What a number is rounded to. -/
def rd (q : ℚ) : ℚ := if q < 0 then -f.roundMag (-q) else f.roundMag q

theorem roundMag_nonneg (mag : ℚ) : 0 ≤ f.roundMag mag :=
  div_nonneg (Nat.cast_nonneg _) f.scale_pos.le

theorem roundMag_mono {p q : ℚ} (hp : 0 ≤ p) (h : p ≤ q) : f.roundMag p ≤ f.roundMag q := by
  have hscale := f.scale_pos
  have hcode := f.code_mono (mul_nonneg hp hscale.le) (mul_le_mul_of_nonneg_right h hscale.le)
  refine div_le_div_of_nonneg_right ?_ hscale.le
  exact_mod_cast f.units_strictMono.monotone hcode

theorem roundMag_zero : f.roundMag 0 = 0 := by
  have hcode := f.code_units (Nat.zero_le f.infCode)
  have hunits : f.units 0 = 0 := by simp [units]
  rw [hunits, Nat.cast_zero] at hcode
  rw [roundMag, zero_mul, hcode, hunits, Nat.cast_zero, zero_div]

theorem rd_of_nonneg {q : ℚ} (h : 0 ≤ q) : f.rd q = f.roundMag q := if_neg (not_lt.mpr h)

theorem rd_neg (q : ℚ) : f.rd (-q) = -f.rd q := by
  rcases lt_trichotomy q 0 with h | rfl | h
  · rw [f.rd_of_nonneg (by linarith), rd, if_pos h, neg_neg]
  · rw [neg_zero, f.rd_of_nonneg le_rfl, roundMag_zero, neg_zero]
  · rw [rd, if_pos (by linarith), neg_neg, f.rd_of_nonneg h.le]

theorem rd_nonneg {q : ℚ} (h : 0 ≤ q) : 0 ≤ f.rd q := by
  rw [f.rd_of_nonneg h]
  exact f.roundMag_nonneg q

theorem rd_mono : Monotone f.rd := by
  intro p q h
  rcases lt_or_ge p 0 with hp | hp
  · rcases lt_or_ge q 0 with hq | hq
    · rw [rd, rd, if_pos hp, if_pos hq]
      exact neg_le_neg (f.roundMag_mono (by linarith) (neg_le_neg h))
    · refine le_trans ?_ (f.rd_nonneg hq)
      rw [rd, if_pos hp]
      exact neg_nonpos.mpr (f.roundMag_nonneg _)
  · rw [f.rd_of_nonneg hp, f.rd_of_nonneg (hp.trans h)]
    exact f.roundMag_mono hp h

theorem abs_rd (q : ℚ) : |f.rd q| = f.rd |q| := by
  rcases le_total 0 q with h | h
  · rw [abs_of_nonneg h, abs_of_nonneg (f.rd_nonneg h)]
  · rw [abs_of_nonpos h, f.rd_neg, abs_of_nonpos]
    have hneg := f.rd_nonneg (neg_nonneg.mpr h)
    rw [f.rd_neg] at hneg
    linarith

theorem roundMag_near {mag : ℚ} (hmag : 0 ≤ mag) {d : ℕ}
    (hlt : mag * f.scale < 2 ^ (d + f.frac + 1)) (hd : d + 4 ≤ 2 ^ f.expo) :
    |f.roundMag mag - mag| ≤ 2 ^ d / 2 / f.scale := by
  have hscale := f.scale_pos
  have hu : 0 ≤ mag * f.scale := mul_nonneg hmag hscale.le
  obtain ⟨s, hs⟩ : ∃ s, f.dropped (mag * f.scale) = s := ⟨_, rfl⟩
  have hdropped : s ≤ d := by
    by_contra hmore
    have hle := (f.dropped_bounds hu).2 (by omega)
    have hpow : (2 : ℚ) ^ (d + f.frac + 1) ≤ 2 ^ (s + f.frac) :=
      pow_le_pow_right₀ (by norm_num) (by omega)
    rw [hs] at hle
    linarith
  have hpow : (0 : ℚ) < 2 ^ s := by positivity
  have hunits := f.units_code hu (f.code_finite hu hlt hd)
  rw [hs] at hunits
  have hnear := nearestEven_near (div_nonneg hu hpow.le)
  have hdiff : f.roundMag mag - mag =
      (nearestEven (mag * f.scale / 2 ^ s) - mag * f.scale / 2 ^ s) * 2 ^ s / f.scale := by
    rw [roundMag, hunits]
    push_cast
    field_simp
  rw [hdiff, abs_div, abs_mul, abs_of_pos hpow, abs_of_pos hscale]
  refine div_le_div_of_nonneg_right ?_ hscale.le
  calc _ ≤ 1 / 2 * (2 : ℚ) ^ s := mul_le_mul_of_nonneg_right hnear hpow.le
    _ ≤ 1 / 2 * 2 ^ d :=
        mul_le_mul_of_nonneg_left (pow_le_pow_right₀ (by norm_num) hdropped) (by norm_num)
    _ = 2 ^ d / 2 := by ring

/-- **Half a step** is what rounding is off by. -/
theorem rd_near {q : ℚ} {d : ℕ} (hlt : |q| * f.scale < 2 ^ (d + f.frac + 1))
    (hd : d + 4 ≤ 2 ^ f.expo) : |f.rd q - q| ≤ 2 ^ d / 2 / f.scale := by
  have hmag := f.roundMag_near (abs_nonneg q) hlt hd
  rcases le_total 0 q with h | h
  · rw [f.rd_of_nonneg h]
    rwa [abs_of_nonneg h] at hmag
  · rw [abs_of_nonpos h, ← f.rd_of_nonneg (neg_nonneg.mpr h), f.rd_neg, ← abs_neg] at hmag
    rwa [show f.rd q - q = -(-f.rd q - -q) by ring]

/-- A number that does not overflow is rounded to `rd`. -/
theorem round_eq {neg : Bool} {mag : ℚ} (h : f.code (mag * f.scale) < f.infCode) :
    f.round (.fin neg mag) = .fin neg (f.roundMag mag) := if_pos h

theorem rd_natCast {t n : ℕ} (hscale : (f.scale : ℚ) = 2 ^ t) (htop : t + 4 ≤ 2 ^ f.expo)
    (hn : n < 2 ^ (f.frac + 1)) : f.rd n = n := by
  have hround := round_natCast hscale htop hn
  rw [round] at hround
  split at hround
  · rw [f.rd_of_nonneg (Nat.cast_nonneg n)]
    exact (Datum.fin.inj hround).2
  · cases hround

theorem toRat_roundMag {neg : Bool} {mag : ℚ} (hmag : 0 ≤ mag) :
    (Datum.fin neg (f.roundMag mag)).toRat = f.rd (Datum.fin neg mag).toRat := by
  cases neg with
  | false => exact (f.rd_of_nonneg hmag).symm
  | true =>
    show -f.roundMag mag = f.rd (-mag)
    rw [f.rd_neg, f.rd_of_nonneg hmag]

end Format

/-! ## Exact operations -/

namespace Datum

theorem exists_fin {d : Datum} (h : d.isFinite = true) : ∃ neg mag, d = fin neg mag := by
  cases d with
  | fin neg mag => exact ⟨neg, mag, rfl⟩
  | _ => cases h

theorem abs_toRat_fin {d : Datum} (hd : d.Proper) {neg : Bool} {mag : ℚ} (h : d = fin neg mag) :
    |d.toRat| = mag := by
  subst h
  exact abs_toRat hd

theorem toRat_sub (a b : Bool) (p q : ℚ) :
    ((fin a p).sub (fin b q)).toRat = (fin a p).toRat - (fin b q).toRat := by
  dsimp only [sub]
  generalize (fin a p).toRat - (fin b q).toRat = d
  split
  · rename_i hzero
    rw [hzero]
    simp [toRat]
  · rcases lt_or_ge d 0 with h | h
    · simp [toRat, h, abs_of_neg h]
    · simp [toRat, not_lt.mpr h, abs_of_nonneg h]

theorem toRat_neg (a : Bool) (p : ℚ) : (fin a p).neg.toRat = -(fin a p).toRat := by
  cases a <;> simp [neg, toRat]

theorem toRat_mul (a b : Bool) (p q : ℚ) :
    ((fin a p).mul (fin b q)).toRat = (fin a p).toRat * (fin b q).toRat := by
  cases a <;> cases b <;> simp [mul, toRat]

theorem toRat_div (a b : Bool) (p : ℚ) {q : ℚ} (hq : q ≠ 0) :
    ((fin a p).div (fin b q)).toRat = (fin a p).toRat / (fin b q).toRat := by
  rw [div_fin a b p hq]
  cases a <;> cases b <;> simp [toRat, neg_div, div_neg]

end Datum

/-! ## Doubles -/

namespace F64

/-- A finite double of this value. -/
structure Is (x : F64) (q : ℚ) : Prop where
  finite : x.datum.isFinite = true
  value : x.datum.toRat = q

variable {x y : F64} {p q : ℚ}

theorem is_value (h : x.datum.isFinite = true) : x.Is x.datum.toRat := ⟨h, rfl⟩

theorem code_finite {mag : ℚ} (hmag : 0 ≤ mag) (h : mag < 2 ^ 1023) :
    binary64.code (mag * binary64.scale) < binary64.infCode := by
  have hscale : (binary64.scale : ℚ) = 2 ^ 1074 := binary64.scale_eq rfl
  refine binary64.code_finite (mul_nonneg hmag binary64.scale_pos.le) (t := 2044) ?_ (by decide)
  rw [hscale]
  calc mag * 2 ^ 1074 < 2 ^ 1023 * 2 ^ 1074 := mul_lt_mul_of_pos_right h (by positivity)
    _ = 2 ^ (2044 + binary64.frac + 1) := (pow_add _ _ _).symm

/-- A finite datum below 2^1023 is stored rounded. -/
theorem is_ofDatum {d : Datum} (hfinite : d.isFinite = true) (hproper : d.Proper)
    (h : |d.toRat| < 2 ^ 1023) : (ofDatum d).Is (binary64.rd d.toRat) := by
  obtain ⟨neg, mag, rfl⟩ := Datum.exists_fin hfinite
  rw [Datum.abs_toRat hproper] at h
  have hround : binary64.round (.fin neg mag) = .fin neg (binary64.roundMag mag) :=
    binary64.round_eq (code_finite hproper h)
  constructor
  · rw [datum_ofDatum, hround]
    rfl
  · rw [datum_ofDatum, hround, binary64.toRat_roundMag hproper]

theorem is_sub (hx : x.Is p) (hy : y.Is q) (h : |p - q| < 2 ^ 1023) :
    (x.sub y).Is (binary64.rd (p - q)) := by
  obtain ⟨a, m, hxd⟩ := Datum.exists_fin hx.finite
  obtain ⟨b, n, hyd⟩ := Datum.exists_fin hy.finite
  have hvalue : (x.datum.sub y.datum).toRat = p - q := by
    rw [← hx.value, ← hy.value, hxd, hyd, Datum.toRat_sub]
  obtain ⟨neg, hsub⟩ := Datum.sub_fin a b m n
  rw [← hvalue] at h ⊢
  refine is_ofDatum ?_ ?_ h <;> rw [hxd, hyd, hsub]
  · rfl
  · exact abs_nonneg _

theorem is_add (hx : x.Is p) (hy : y.Is q) (h : |p + q| < 2 ^ 1023) :
    (x.add y).Is (binary64.rd (p + q)) := by
  obtain ⟨a, m, hxd⟩ := Datum.exists_fin hx.finite
  obtain ⟨b, n, hyd⟩ := Datum.exists_fin hy.finite
  have hvalue : (x.datum.add y.datum).toRat = p + q := by
    rw [← hx.value, ← hy.value, hxd, hyd, Datum.add, Datum.neg, Datum.toRat_sub]
    have hneg := Datum.toRat_neg b n
    rw [Datum.neg] at hneg
    rw [hneg, sub_neg_eq_add]
  obtain ⟨neg, hsub⟩ := Datum.sub_fin a (!b) m n
  rw [← hvalue] at h ⊢
  refine is_ofDatum ?_ ?_ h <;> rw [hxd, hyd, Datum.add, Datum.neg, hsub]
  · rfl
  · exact abs_nonneg _

theorem is_mul (hx : x.Is p) (hy : y.Is q) (h : |p * q| < 2 ^ 1023) :
    (x.mul y).Is (binary64.rd (p * q)) := by
  obtain ⟨a, m, hxd⟩ := Datum.exists_fin hx.finite
  obtain ⟨b, n, hyd⟩ := Datum.exists_fin hy.finite
  have hvalue : (x.datum.mul y.datum).toRat = p * q := by
    rw [← hx.value, ← hy.value, hxd, hyd, Datum.toRat_mul]
  have hm : (0 : ℚ) ≤ m := Datum.abs_toRat_fin x.datum_proper hxd ▸ abs_nonneg _
  have hn : (0 : ℚ) ≤ n := Datum.abs_toRat_fin y.datum_proper hyd ▸ abs_nonneg _
  rw [← hvalue] at h ⊢
  refine is_ofDatum ?_ ?_ h <;> rw [hxd, hyd, Datum.mul]
  · rfl
  · exact mul_nonneg hm hn

theorem is_div (hx : x.Is p) (hy : y.Is q) (hq : q ≠ 0) (h : |p / q| < 2 ^ 1023) :
    (x.div y).Is (binary64.rd (p / q)) := by
  obtain ⟨a, m, hxd⟩ := Datum.exists_fin hx.finite
  obtain ⟨b, n, hyd⟩ := Datum.exists_fin hy.finite
  have hm : (0 : ℚ) ≤ m := Datum.abs_toRat_fin x.datum_proper hxd ▸ abs_nonneg _
  have hn : (0 : ℚ) ≤ n := Datum.abs_toRat_fin y.datum_proper hyd ▸ abs_nonneg _
  have hn0 : n ≠ 0 := by
    rintro rfl
    apply hq
    rw [← hy.value, hyd]
    cases b <;> simp [Datum.toRat]
  have hvalue : (x.datum.div y.datum).toRat = p / q := by
    rw [← hx.value, ← hy.value, hxd, hyd, Datum.toRat_div a b m hn0]
  rw [← hvalue] at h ⊢
  refine is_ofDatum ?_ ?_ h <;> rw [hxd, hyd, Datum.div_fin a b m hn0]
  · rfl
  · exact div_nonneg hm hn

theorem rd_natCast {n : ℕ} (hn : n < 2 ^ 53) : binary64.rd n = n :=
  binary64.rd_natCast (binary64.scale_eq rfl) (by decide) hn

theorem is_ofNat {n : ℕ} (hn : n < 2 ^ 53) : (ofNat n).Is n := by
  constructor <;> rw [datum_ofNat hn]
  · rfl
  · rfl

/-- Doubles below 2^k are off by at most 2^(k - 54). -/
theorem rd_near {k : ℕ} (hk : k ≤ 1022) (h : |q| < 2 ^ k) :
    |binary64.rd q - q| ≤ 2 ^ k / 2 ^ 54 := by
  have hscale : (binary64.scale : ℚ) = 2 ^ 1074 := binary64.scale_eq rfl
  have hnear := binary64.rd_near (q := q) (d := k + 1021) (by
    rw [hscale]
    calc |q| * 2 ^ 1074 < 2 ^ k * 2 ^ 1074 := mul_lt_mul_of_pos_right h (by positivity)
      _ = 2 ^ (k + 1021 + binary64.frac + 1) := (pow_add _ _ _).symm) (by
    show k + 1021 + 4 ≤ 2 ^ 11
    omega)
  have hsplit : (2 : ℚ) ^ 1074 * 2 = 2 ^ 1021 * 2 ^ 54 := by
    rw [← pow_add, ← pow_succ]
  refine hnear.trans_eq ?_
  rw [hscale, pow_add, div_div, mul_comm 2, hsplit, mul_comm ((2 : ℚ) ^ k)]
  exact mul_div_mul_left _ _ (by positivity)

/-- What is stored without overflow is rounded to `rd`, however large. -/
theorem is_of_finite {d : Datum} (hfinite : d.isFinite = true) (hproper : d.Proper)
    (h : (ofDatum d).datum.isFinite = true) : (ofDatum d).Is (binary64.rd d.toRat) := by
  obtain ⟨neg, mag, rfl⟩ := Datum.exists_fin hfinite
  have hcode : binary64.code (mag * binary64.scale) < binary64.infCode := by
    by_contra hover
    rw [datum_ofDatum, Format.round, if_neg hover] at h
    cases h
  refine ⟨h, ?_⟩
  rw [datum_ofDatum, binary64.round_eq hcode, binary64.toRat_roundMag hproper]

/-- A finite quotient of a whole number by a positive one. -/
theorem is_ofNat_div {n : ℕ} (hy : y.Is q) (hq : 0 < q)
    (h : ((ofNat n).div y).datum.isFinite = true) :
    ((ofNat n).div y).Is (binary64.rd (binary64.rd n / q)) := by
  obtain ⟨b, m, hyd⟩ := Datum.exists_fin hy.finite
  have hn : (ofNat n).datum.isFinite = true := by
    have hround := datum_ofDatum (.fin false n)
    rw [Format.round] at hround
    split at hround
    · rw [ofNat, hround]
      rfl
    · rw [div, ofNat, hround, hyd, Datum.div, datum_ofDatum] at h
      cases h
  have hx := is_of_finite (d := .fin false n) rfl (Nat.cast_nonneg n) hn
  obtain ⟨a, k, hxd⟩ := Datum.exists_fin hn
  have hk : (0 : ℚ) ≤ k := Datum.abs_toRat_fin (ofNat n).datum_proper hxd ▸ abs_nonneg _
  have hm : (0 : ℚ) ≤ m := Datum.abs_toRat_fin y.datum_proper hyd ▸ abs_nonneg _
  have hm0 : m ≠ 0 := by
    rintro rfl
    apply hq.ne'
    rw [← hy.value, hyd]
    cases b <;> simp [Datum.toRat]
  have hquotient := Datum.div_fin a b k hm0
  have hvalue : ((ofNat n).datum.div y.datum).toRat = binary64.rd n / q := by
    rw [hxd, hyd, Datum.toRat_div a b k hm0, ← hxd, ← hyd, hy.value]
    exact congrArg (· / q) hx.value
  rw [← hvalue]
  refine is_of_finite ?_ ?_ h <;> rw [hxd, hyd, hquotient]
  · rfl
  · exact div_nonneg hk hm

/-- Quotients by one positive number are in the order of what is divided. -/
theorem ofNat_div_mono {m n : ℕ} (hmn : m ≤ n) (hy : y.Is q) (hq : 0 < q)
    (hm : ((ofNat m).div y).datum.isFinite = true) (hn : ((ofNat n).div y).datum.isFinite = true) :
    ((ofNat m).div y).datum.toRat ≤ ((ofNat n).div y).datum.toRat := by
  rw [(is_ofNat_div hy hq hm).value, (is_ofNat_div hy hq hn).value]
  refine binary64.rd_mono (div_le_div_of_nonneg_right (binary64.rd_mono ?_) hq.le)
  exact_mod_cast hmn

/-! ### Bounds -/

/-- A finite double of at most this magnitude. -/
structure Within (x : F64) (bound : ℕ) : Prop where
  finite : x.datum.isFinite = true
  bound : |x.datum.toRat| ≤ bound

theorem rd_within {bound : ℕ} (hbound : bound < 2 ^ 53) (h : |q| ≤ bound) :
    |binary64.rd q| ≤ bound := by
  rw [binary64.abs_rd, ← rd_natCast hbound]
  exact binary64.rd_mono h

theorem Is.within {bound : ℕ} (hx : x.Is q) (h : |q| ≤ bound) : x.Within bound :=
  ⟨hx.finite, by rwa [hx.value]⟩

theorem lt_of_within {bound : ℕ} (hbound : bound < 2 ^ 53) (h : |q| ≤ bound) : |q| < 2 ^ 1023 := by
  have hcast : (bound : ℚ) < 2 ^ 53 := by exact_mod_cast hbound
  exact (h.trans_lt hcast).trans (pow_lt_pow_right₀ (by norm_num) (by decide))

variable {A B : ℕ}

theorem Within.mono (hx : x.Within A) (h : A ≤ B) : x.Within B :=
  ⟨hx.finite, hx.bound.trans (by exact_mod_cast h)⟩

theorem Within.mul (hx : x.Within A) (hy : y.Within B) (h : A * B < 2 ^ 53) :
    (x.mul y).Within (A * B) := by
  have hle : |x.datum.toRat * y.datum.toRat| ≤ (A * B : ℕ) := by
    rw [abs_mul, Nat.cast_mul]
    exact mul_le_mul hx.bound hy.bound (abs_nonneg _) (Nat.cast_nonneg _)
  exact (is_mul (is_value hx.finite) (is_value hy.finite) (lt_of_within h hle)).within
    (rd_within h hle)

theorem Within.add (hx : x.Within A) (hy : y.Within B) (h : A + B < 2 ^ 53) :
    (x.add y).Within (A + B) := by
  have hle : |x.datum.toRat + y.datum.toRat| ≤ (A + B : ℕ) := by
    rw [Nat.cast_add]
    exact (abs_add_le _ _).trans (add_le_add hx.bound hy.bound)
  exact (is_add (is_value hx.finite) (is_value hy.finite) (lt_of_within h hle)).within
    (rd_within h hle)

theorem Within.sub (hx : x.Within A) (hy : y.Within B) (h : A + B < 2 ^ 53) :
    (x.sub y).Within (A + B) := by
  have hle : |x.datum.toRat - y.datum.toRat| ≤ (A + B : ℕ) := by
    rw [Nat.cast_add]
    exact (abs_sub _ _).trans (add_le_add hx.bound hy.bound)
  exact (is_sub (is_value hx.finite) (is_value hy.finite) (lt_of_within h hle)).within
    (rd_within h hle)

theorem Within.neg (hx : x.Within A) (h : A < 2 ^ 53) : (ofDatum x.datum.neg).Within A := by
  obtain ⟨a, m, hxd⟩ := Datum.exists_fin hx.finite
  have hvalue : x.datum.neg.toRat = -x.datum.toRat := by
    rw [hxd, Datum.toRat_neg]
  have hle : |x.datum.neg.toRat| ≤ A := by
    rw [hvalue, abs_neg]
    exact hx.bound
  have hproper : x.datum.neg.Proper := by
    have hm := x.datum_proper
    rw [hxd] at hm ⊢
    exact hm
  refine (is_ofDatum ?_ hproper (lt_of_within h hle)).within (rd_within h hle)
  rw [hxd]
  rfl

/-- A quotient whose divisor is far enough from zero. -/
theorem Within.div (hx : x.Within A) (hy : y.Is q) (hq : 0 < q) (hle : (A : ℚ) ≤ B * q)
    (h : B < 2 ^ 53) : (x.div y).Within B := by
  have hquotient : |x.datum.toRat / q| ≤ B := by
    rw [abs_div, abs_of_pos hq, div_le_iff₀ hq]
    exact hx.bound.trans hle
  exact (is_div (is_value hx.finite) hy hq.ne' (lt_of_within h hquotient)).within
    (rd_within h hquotient)

/-- What is stored as a float is finite and rounded again. -/
theorem Within.narrow (hx : x.Within A) (h : A < 2 ^ 53) :
    x.narrow.datum.isFinite = true ∧ x.narrow.datum.toRat = binary32.rd x.datum.toRat := by
  obtain ⟨a, m, hxd⟩ := Datum.exists_fin hx.finite
  have hm : |x.datum.toRat| = m := Datum.abs_toRat_fin x.datum_proper hxd
  have hm0 : 0 ≤ m := hm ▸ abs_nonneg _
  have hA : (A : ℚ) < 2 ^ 53 := by exact_mod_cast h
  have hlt : m < 2 ^ 53 := hm ▸ hx.bound.trans_lt hA
  have hscale : (binary32.scale : ℚ) = 2 ^ 149 := binary32.scale_eq rfl
  have hcode : binary32.code (m * binary32.scale) < binary32.infCode := by
    refine binary32.code_finite (mul_nonneg hm0 binary32.scale_pos.le) (t := 252) ?_ (by decide)
    rw [hscale]
    calc m * 2 ^ 149 < 2 ^ 53 * 2 ^ 149 := mul_lt_mul_of_pos_right hlt (by positivity)
      _ = 2 ^ 202 := (pow_add _ _ _).symm
      _ ≤ 2 ^ (252 + binary32.frac + 1) := pow_le_pow_right₀ (by norm_num) (by decide)
  rw [F64.narrow, F32.datum_ofDatum, hxd, binary32.round_eq hcode, binary32.toRat_roundMag hm0]
  exact ⟨rfl, rfl⟩

theorem within_ofNat {n : ℕ} (hn : n < 2 ^ 53) : (ofNat n).Within n :=
  (is_ofNat hn).within (by rw [abs_of_nonneg (Nat.cast_nonneg n)])

/-- A finite double between two numbers. -/
structure Between (lo hi : ℚ) (x : F64) : Prop where
  finite : x.datum.isFinite = true
  lower : lo ≤ x.datum.toRat
  upper : x.datum.toRat ≤ hi

theorem Between.within {lo hi : ℚ} (h : Between lo hi x) {bound : ℕ} (hlo : -(bound : ℚ) ≤ lo)
    (hhi : hi ≤ bound) : x.Within bound :=
  ⟨h.finite, abs_le.mpr ⟨hlo.trans h.lower, h.upper.trans hhi⟩⟩

theorem Between.mono {lo hi lo' hi' : ℚ} (h : Between lo hi x) (hlo : lo' ≤ lo)
    (hhi : hi ≤ hi') : Between lo' hi' x :=
  ⟨h.finite, hlo.trans h.lower, h.upper.trans hhi⟩

/-- So far above a whole number. -/
theorem Between.above {lo hi : ℕ} (h : Between lo hi x) {base : F64} {n : ℕ}
    (hbase : base.Is n) (hsmall : n + hi < 2 ^ 53) :
    Between (n + lo : ℕ) (n + hi : ℕ) (base.add x) := by
  have hlower : ((n + lo : ℕ) : ℚ) ≤ n + x.datum.toRat := by
    rw [Nat.cast_add]
    exact add_le_add_right h.lower _
  have hupper : n + x.datum.toRat ≤ ((n + hi : ℕ) : ℚ) := by
    rw [Nat.cast_add]
    exact add_le_add_right h.upper _
  have hle : n + lo ≤ n + hi := by exact_mod_cast hlower.trans hupper
  have hnonneg := (Nat.cast_nonneg (α := ℚ) _).trans hlower
  have hsum := is_add hbase (is_value h.finite)
    (lt_of_within hsmall (by rwa [abs_of_nonneg hnonneg]))
  refine ⟨hsum.finite, ?_, ?_⟩
  · have hrounded := binary64.rd_mono hlower
    rwa [rd_natCast (hle.trans_lt hsmall), ← hsum.value] at hrounded
  · have hrounded := binary64.rd_mono hupper
    rwa [rd_natCast hsmall, ← hsum.value] at hrounded

theorem Between.narrow {lo hi : ℕ} (hhi : hi < 2 ^ 24) (h : Between lo hi x) :
    x.narrow.datum.isFinite = true ∧ (lo : ℚ) ≤ x.narrow.datum.toRat ∧
      x.narrow.datum.toRat ≤ hi := by
  have hnonneg : -(hi : ℚ) ≤ lo := (neg_nonpos.mpr (Nat.cast_nonneg hi)).trans (Nat.cast_nonneg lo)
  have hwithin : x.Within hi := h.within hnonneg le_rfl
  obtain ⟨hfinite, hvalue⟩ := hwithin.narrow (by omega)
  have hle : lo ≤ hi := by exact_mod_cast h.lower.trans h.upper
  have hwhole {n : ℕ} (hn : n < 2 ^ 24) : binary32.rd n = n :=
    binary32.rd_natCast (binary32.scale_eq rfl) (by decide) hn
  rw [hvalue, ← hwhole hhi, ← hwhole (hle.trans_lt hhi)]
  exact ⟨hfinite, binary32.rd_mono h.lower, binary32.rd_mono h.upper⟩

end F64
end Ieee
