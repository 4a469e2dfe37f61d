import OrbitalViewer.DisBuilder
import OrbitalViewer.Lib.IeeeRounding

/-!
# The simulator's DIS clock

The time stamp of a PDU is the low half of a count of ticks since the start of the run
(`timestampOf_ticks`). However the seconds are rounded on the way, the ticks never go back,
and in half an hour but a second they grow by no more than the backend's staleness test
allows for (`ticksOf_mono`).
-/

namespace Olv.Sim
open Ieee (F64 binary64)

/-! ## Ticks -/

/-- `hour_s * kTicksPerSecond`. -/
def hourTicks (hourS : ℚ) : ℚ :=
  ((F64.ofDatum (.fin false hourS)).mul kTicksPerSecond).datum.toRat

/-- The ticks since the start of the run. -/
def ticksOf (tSeconds : F64) : ℕ :=
  let t := max 0 tSeconds.datum.toRat
  ⌊t / 3600⌋.toNat * 2 ^ 31 + ⌊hourTicks (t - 3600 * ⌊t / 3600⌋)⌋₊

/-- The stamp is the low half of the ticks. -/
theorem timestampOf_ticks (tSeconds : F64) :
    timestampOf tSeconds >>> 1 = BitVec.ofNat 32 (ticksOf tSeconds % 2 ^ 31) := by
  unfold timestampOf ticksOf hourTicks
  dsimp only
  generalize ⌊((F64.ofDatum _).mul kTicksPerSecond).datum.toRat⌋₊ = n
  apply BitVec.eq_of_toNat_eq
  have hmask : (BitVec.ofNat 32 n &&& (0x7FFFFFFF : U32)).toNat = n % 2 ^ 31 := by
    rw [BitVec.toNat_and, BitVec.toNat_ofNat, show (0x7FFFFFFF : U32).toNat = 2 ^ 31 - 1 from rfl,
      Nat.and_two_pow_sub_one_eq_mod]
    omega
  rw [BitVec.toNat_ushiftRight, BitVec.toNat_shiftLeft, hmask, BitVec.toNat_ofNat, Nat.shiftLeft_eq,
    Nat.shiftRight_eq_div_pow]
  omega

/-- The exact number of ticks per second. -/
def tickRate : ℚ := 2 ^ 31 / 3600

theorem kTicksPerSecond_near : ∃ K, kTicksPerSecond.Is K ∧ 0 ≤ K ∧ |K - tickRate| ≤ 2 ^ 20 / 2 ^ 54 := by
  have hK := F64.is_div (F64.is_ofNat (n := 2147483648) (by decide))
    (F64.is_ofNat (n := 3600) (by decide)) (by norm_num) (by
      rw [abs_of_nonneg (by positivity)]
      exact (by norm_num : ((2147483648 : ℕ) : ℚ) / (3600 : ℕ) < 2 ^ 53).trans
        (pow_lt_pow_right₀ (by norm_num) (by decide)))
  refine ⟨_, hK, binary64.rd_nonneg (by positivity), ?_⟩
  have hrate : ((2147483648 : ℕ) : ℚ) / (3600 : ℕ) = tickRate := by norm_num [tickRate]
  rw [hrate]
  exact F64.rd_near (by decide) (by norm_num [tickRate, abs_of_nonneg])

theorem abs_lt_max {q : ℚ} (hq : 0 ≤ q) (h : q < 2 ^ 53) : |q| < 2 ^ 1023 := by
  rw [abs_of_nonneg hq]
  exact h.trans (pow_lt_pow_right₀ (by norm_num) (by decide))

/-- A time of the hour in ticks, twice rounded. -/
theorem hourTicks_rounded {K : ℚ} (hK : kTicksPerSecond.Is K) (hpos : 0 ≤ K)
    (hnear : |K - tickRate| ≤ 2 ^ 20 / 2 ^ 54) {h : ℚ} (hh : 0 ≤ h) (hlt : h < 3600) :
    hourTicks h = binary64.rd (binary64.rd h * K) ∧
      |binary64.rd h * K - h * tickRate| ≤ 1 / 4 := by
  have hrate : tickRate ≤ 2 ^ 20 - 1 := by norm_num [tickRate]
  have hK' : K ≤ 2 ^ 20 := by linarith [(abs_le.mp hnear).2]
  have hoff : |binary64.rd h - h| ≤ 2 ^ 12 / 2 ^ 54 :=
    F64.rd_near (by decide) (by rw [abs_of_nonneg hh]; linarith)
  have hrd : 0 ≤ binary64.rd h := binary64.rd_nonneg hh
  have hrd' : binary64.rd h ≤ 3601 := by linarith [(abs_le.mp hoff).2]
  have hproduct : binary64.rd h * K ≤ 3601 * 2 ^ 20 := mul_le_mul hrd' hK' hpos (by norm_num)
  have hstored : (F64.ofDatum (.fin false h)).Is (binary64.rd h) :=
    F64.is_ofDatum (d := .fin false h) rfl hh
      (show |h| < 2 ^ 1023 from abs_lt_max hh (by linarith))
  refine ⟨(F64.is_mul hstored hK (abs_lt_max (mul_nonneg hrd hpos) (by linarith))).value, ?_⟩
  have hsplit : binary64.rd h * K - h * tickRate =
      (binary64.rd h - h) * K + h * (K - tickRate) := by ring
  calc |binary64.rd h * K - h * tickRate|
      ≤ |binary64.rd h - h| * K + h * |K - tickRate| := by
        rw [hsplit]
        refine (abs_add_le _ _).trans_eq ?_
        rw [abs_mul, abs_mul, abs_of_nonneg hpos, abs_of_nonneg hh]
    _ ≤ 2 ^ 12 / 2 ^ 54 * 2 ^ 20 + 3600 * (2 ^ 20 / 2 ^ 54) :=
        add_le_add (mul_le_mul hoff hK' hpos (by norm_num))
          (mul_le_mul hlt.le hnear (abs_nonneg _) (by norm_num))
    _ ≤ 1 / 4 := by norm_num

theorem hourTicks_near {h : ℚ} (hh : 0 ≤ h) (hlt : h < 3600) :
    0 ≤ hourTicks h ∧ |hourTicks h - h * tickRate| ≤ 1 / 2 := by
  obtain ⟨K, hK, hpos, hnear⟩ := kTicksPerSecond_near
  obtain ⟨heq, hclose⟩ := hourTicks_rounded hK hpos hnear hh hlt
  have hproduct : 0 ≤ binary64.rd h * K := mul_nonneg (binary64.rd_nonneg hh) hpos
  have hexact : h * tickRate ≤ 2 ^ 31 := by
    unfold tickRate
    linarith
  have hround : |binary64.rd (binary64.rd h * K) - binary64.rd h * K| ≤ 2 ^ 32 / 2 ^ 54 :=
    F64.rd_near (by decide) (by rw [abs_of_nonneg hproduct]; linarith [(abs_le.mp hclose).2])
  rw [heq]
  refine ⟨binary64.rd_nonneg hproduct, (abs_sub_le _ (binary64.rd h * K) _).trans ?_⟩
  have hsmall : (2 : ℚ) ^ 32 / 2 ^ 54 ≤ 1 / 4 := by norm_num
  linarith

theorem hourTicks_mono {h h' : ℚ} (hh : 0 ≤ h) (hle : h ≤ h') (hlt : h' < 3600) :
    hourTicks h ≤ hourTicks h' := by
  obtain ⟨K, hK, hpos, hnear⟩ := kTicksPerSecond_near
  rw [(hourTicks_rounded hK hpos hnear hh (hle.trans_lt hlt)).1,
    (hourTicks_rounded hK hpos hnear (hh.trans hle) hlt).1]
  exact binary64.rd_mono (mul_le_mul_of_nonneg_right (binary64.rd_mono hle) hpos)

/-- The ticks of a time of so many hours and seconds. -/
theorem ticksOf_eq (t : F64) : ∃ (hours : ℕ) (h : ℚ), 0 ≤ h ∧ h < 3600 ∧
    max 0 t.datum.toRat = 3600 * hours + h ∧ ticksOf t = hours * 2 ^ 31 + ⌊hourTicks h⌋₊ := by
  have hnonneg : 0 ≤ max 0 t.datum.toRat := le_max_left _ _
  generalize hq : max 0 t.datum.toRat = q at hnonneg
  have hfloor : (0 : ℤ) ≤ ⌊q / 3600⌋ := Int.floor_nonneg.mpr (by positivity)
  have hcast : ((⌊q / 3600⌋.toNat : ℕ) : ℚ) = (⌊q / 3600⌋ : ℤ) := by
    exact_mod_cast congrArg (Int.cast (R := ℚ)) (Int.toNat_of_nonneg hfloor)
  have hlo := Int.floor_le (q / 3600)
  have hhi := Int.lt_floor_add_one (q / 3600)
  refine ⟨⌊q / 3600⌋.toNat, q - 3600 * ⌊q / 3600⌋, by linarith, by linarith, ?_, ?_⟩
  · rw [hcast]
    ring
  · unfold ticksOf
    rw [hq]

/-- **Ticks do not go back**, and grow by at most half the range of the stamp within
1799 seconds. -/
theorem ticksOf_mono {t t' : F64} (h : t.datum.toRat ≤ t'.datum.toRat) :
    ticksOf t ≤ ticksOf t' ∧
      (t'.datum.toRat - t.datum.toRat ≤ 1799 → ticksOf t' ≤ ticksOf t + 2 ^ 30) := by
  obtain ⟨hours, s, hs, hs', ht, hticks⟩ := ticksOf_eq t
  obtain ⟨hours', s₁, hs₁, hs₁', ht', hticks'⟩ := ticksOf_eq t'
  obtain ⟨hnonneg, hnear⟩ := hourTicks_near hs hs'
  obtain ⟨hnonneg', hnear'⟩ := hourTicks_near hs₁ hs₁'
  have hmax : max 0 t.datum.toRat ≤ max 0 t'.datum.toRat := max_le_max_left 0 h
  rw [ht, ht'] at hmax
  have hlo := Nat.floor_le hnonneg
  have hhi := Nat.lt_floor_add_one (hourTicks s)
  have hlo' := Nat.floor_le hnonneg'
  have hrate : tickRate * 3600 = 2 ^ 31 := by norm_num [tickRate]
  rw [hticks, hticks']
  constructor
  · rcases Nat.lt_trichotomy hours hours' with hlt | rfl | hgt
    · have hnext : ⌊hourTicks s⌋₊ ≤ 2 ^ 31 := by
        have htop : (⌊hourTicks s⌋₊ : ℚ) < 2 ^ 31 + 1 := by
          have hexact : s * tickRate ≤ 2 ^ 31 := by
            unfold tickRate
            linarith
          linarith [(abs_le.mp hnear).2]
        exact Nat.lt_succ_iff.mp (by exact_mod_cast htop)
      have := Nat.mul_le_mul_right (2 ^ 31) (Nat.succ_le_of_lt hlt)
      rw [Nat.succ_mul] at this
      omega
    · have hfloor := Nat.floor_le_floor (hourTicks_mono hs (by linarith) hs₁')
      omega
    · have hcast : (hours' : ℚ) + 1 ≤ hours := by exact_mod_cast hgt
      linarith
  · intro hclose
    have hspan : 3600 * (hours' : ℚ) + s₁ - (3600 * hours + s) ≤ 1799 := by
      rw [← ht, ← ht']
      rcases le_total 0 t.datum.toRat with hpos | hneg
      · rw [max_eq_right hpos, max_eq_right (hpos.trans h)]
        exact hclose
      · rw [max_eq_left hneg, sub_zero]
        exact max_le (by norm_num) (by linarith)
    have hscaled : (hours' : ℚ) * 2 ^ 31 + s₁ * tickRate - (hours * 2 ^ 31 + s * tickRate) ≤
        1799 * tickRate := by
      rw [← hrate]
      have hmul := mul_le_mul_of_nonneg_right hspan (show 0 ≤ tickRate by norm_num [tickRate])
      linarith
    have hbound : (1799 : ℚ) * tickRate + 3 ≤ 2 ^ 30 := by norm_num [tickRate]
    have hsum : ((hours' * 2 ^ 31 + ⌊hourTicks s₁⌋₊ : ℕ) : ℚ) ≤
        (hours * 2 ^ 31 + ⌊hourTicks s⌋₊ + 2 ^ 30 : ℕ) := by
      push_cast
      linarith [(abs_le.mp hnear).1, (abs_le.mp hnear').2]
    exact_mod_cast hsum

end Olv.Sim
