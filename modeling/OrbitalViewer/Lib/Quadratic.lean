import Mathlib

/-!
# Quadratics

Where a quadratic with a positive start is negative between 0 and 1, told by its
nearer root alone (`dips_iff`).
-/

namespace Quadratic

variable {a b c t : ℝ}

/-- By the distance from the vertex. -/
theorem neg_iff (ha : 0 < a) : a * t ^ 2 + 2 * b * t + c < 0 ↔ |a * t + b| < √(b * b - a * c) := by
  have hsquare : a * (a * t ^ 2 + 2 * b * t + c) = |a * t + b| ^ 2 - (b * b - a * c) := by
    rw [sq_abs]
    ring
  rw [Real.lt_sqrt (abs_nonneg _), ← smul_neg_iff_of_pos_left ha, smul_eq_mul, hsquare,
    sub_neg]

/-- Both roots are behind the start, or both are ahead of it. -/
theorem vertex_ahead (ha : 0 < a) (hc : 0 < c) (ht : 0 < t) (h : |a * t + b| < √(b * b - a * c)) :
    √(b * b - a * c) < -b := by
  have hroot : √(b * b - a * c) < |b| := by
    rw [← Real.sqrt_mul_self_eq_abs]
    apply Real.sqrt_lt_sqrt
    · exact (Real.sqrt_pos.mp ((abs_nonneg _).trans_lt h)).le
    · linarith [mul_pos ha hc]
  have hb : b < 0 := by
    by_contra hb
    have hb := not_lt.mp hb
    rw [abs_of_nonneg hb] at hroot
    linarith [(abs_lt.mp h).2, mul_pos ha ht]
  rwa [abs_of_neg hb] at hroot

/-- **The nearer root tells** whether the quadratic is negative between 0 and 1. -/
theorem dips_iff (ha : 0 < a) (hc : 0 < c) :
    (∃ t, 0 < t ∧ t < 1 ∧ a * t ^ 2 + 2 * b * t + c < 0) ↔
      0 < b * b - a * c ∧ 0 < (-b - √(b * b - a * c)) / a ∧ (-b - √(b * b - a * c)) / a < 1 := by
  constructor
  · rintro ⟨t, hpos, hlt, hneg⟩
    rw [neg_iff ha] at hneg
    have hahead := vertex_ahead ha hc hpos hneg
    refine ⟨Real.sqrt_pos.mp ((abs_nonneg _).trans_lt hneg), div_pos (by linarith) ha, ?_⟩
    rw [div_lt_one ha]
    have hroot : -b - √(b * b - a * c) < a * t := by linarith [(abs_lt.mp hneg).1]
    exact hroot.trans (mul_lt_of_lt_one_right ha hlt)
  · rintro ⟨hdisc, hpos, hlt⟩
    have hvertex : (-b - √(b * b - a * c)) / a < -b / a :=
      div_lt_div_of_pos_right (sub_lt_self _ (Real.sqrt_pos.mpr hdisc)) ha
    obtain ⟨t, hroot, ht⟩ := exists_between (lt_min hlt hvertex)
    obtain ⟨hlt', hbefore⟩ := lt_min_iff.mp ht
    refine ⟨t, hpos.trans hroot, hlt', (neg_iff ha).mpr (abs_lt.mpr ⟨?_, ?_⟩)⟩
    · linarith [(div_lt_iff₀' ha).mp hroot]
    · linarith [(lt_div_iff₀' ha).mp hbefore, Real.sqrt_pos.mpr hdisc]

end Quadratic
