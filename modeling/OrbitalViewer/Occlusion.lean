import OrbitalViewer.Lib.Quadratic
import OrbitalViewer.Math3

/-!
# Points behind the Earth

`occludedBySphere` of `frontend/js/math3.js` asks for the nearer root of a quadratic
alone. Seen from outside the sphere that is enough: it is between the eye and the
point exactly when the segment enters the sphere (`occluded_iff`).
-/

namespace Math3
open scoped Matrix
open Frames (len)

variable {eye p : Vec3} {r : ℝ}

theorem len_lt_iff (hr : 0 < r) (q : Vec3) : len q < r ↔ q ⬝ᵥ q < r ^ 2 := Real.sqrt_lt' hr

/-- How far a point of the line is from the sphere, by squares. -/
theorem dot_along (eye d : Vec3) (t : ℝ) :
    (eye + t • d) ⬝ᵥ (eye + t • d) = d ⬝ᵥ d * t ^ 2 + 2 * (eye ⬝ᵥ d) * t + eye ⬝ᵥ eye := by
  rw [add_dotProduct, dotProduct_add, dotProduct_add, smul_dotProduct, smul_dotProduct,
    dotProduct_smul, dotProduct_smul, dotProduct_comm d eye]
  simp only [smul_eq_mul]
  ring

/-- The segment enters the sphere. -/
theorem enters_iff (hr : 0 < r) : (∃ q ∈ openSegment ℝ eye p, len q < r) ↔
    ∃ t, 0 < t ∧ t < 1 ∧ (p - eye) ⬝ᵥ (p - eye) * t ^ 2 + 2 * (eye ⬝ᵥ (p - eye)) * t +
      (eye ⬝ᵥ eye - r * r) < 0 := by
  rw [openSegment_eq_image']
  simp only [Set.mem_image, Set.mem_Ioo]
  constructor
  · rintro ⟨_, ⟨t, ⟨hpos, hlt⟩, rfl⟩, hq⟩
    rw [len_lt_iff hr, dot_along] at hq
    exact ⟨t, hpos, hlt, by linarith⟩
  · rintro ⟨t, hpos, hlt, hneg⟩
    refine ⟨_, ⟨t, ⟨hpos, hlt⟩, rfl⟩, ?_⟩
    rw [len_lt_iff hr, dot_along]
    linarith

/-- The code asks for the nearer root. -/
theorem occludedBySphere_iff {a b c : ℝ} (ha : (p - eye) ⬝ᵥ (p - eye) = a)
    (hb : eye ⬝ᵥ (p - eye) = b) (hc : eye ⬝ᵥ eye - r * r = c) :
    occludedBySphere eye (p 0) (p 1) (p 2) r = true ↔ a ≠ 0 ∧ 0 < b * b - a * c ∧
      0 < (-b - √(b * b - a * c)) / a ∧ (-b - √(b * b - a * c)) / a < 1 := by
  simp only [Matrix.vec3_dotProduct, Pi.sub_apply] at ha hb hc
  simp only [occludedBySphere, ha, hb, hc]
  by_cases hzero : a = 0
  · simp [hzero]
  · by_cases hdisc : b * b - a * c ≤ 0
    · simp [hdisc, hdisc.not_gt]
    · simp [hzero, hdisc, not_le.mp hdisc]

theorem dot_self_pos {d : Vec3} (h : d ≠ 0) : 0 < d ⬝ᵥ d :=
  (Frames.dot_self_nonneg d).lt_of_ne' (mt dotProduct_self_eq_zero.mp h)

/-- From outside, the sphere hides what the segment reaches only through it. -/
theorem hides_iff (hr : 0 < r) (heye : r < len eye) :
    occludedBySphere eye (p 0) (p 1) (p 2) r = true ↔ ∃ q ∈ openSegment ℝ eye p, len q < r := by
  have hc : 0 < eye ⬝ᵥ eye - r * r := by
    rw [← Frames.len_sq]
    nlinarith
  rw [occludedBySphere_iff rfl rfl rfl, enters_iff hr]
  by_cases hp : p - eye = 0
  · have hout : ¬ eye ⬝ᵥ eye < r * r := by linarith
    simp [hp, hout]
  · have ha := dot_self_pos hp
    rw [Quadratic.dips_iff ha hc, and_iff_right ha.ne']

/-- **Occlusion.** A point is hidden exactly when something strictly between it and the
eye is strictly inside the sphere; so not along a tangent, nor in front of the sphere. -/
theorem occluded_iff (r : ℝ) (hr : 0 < r) (eye p : Vec3) (heye : r < len eye) :
    (occludedBySphere eye (p 0) (p 1) (p 2) r = true ↔ ∃ q ∈ openSegment ℝ eye p, len q < r) ∧
      ((∀ t : ℝ, r ≤ len (eye + t • (p - eye))) →
        occludedBySphere eye (p 0) (p 1) (p 2) r = false) ∧
      ((∀ q ∈ segment ℝ eye p, r ≤ len q) →
        occludedBySphere eye (p 0) (p 1) (p 2) r = false) ∧
      (p = eye → occludedBySphere eye (p 0) (p 1) (p 2) r = false) := by
  have hiff := hides_iff (p := p) hr heye
  have hout : (∀ q ∈ openSegment ℝ eye p, r ≤ len q) →
      occludedBySphere eye (p 0) (p 1) (p 2) r = false := by
    intro h
    rw [← Bool.not_eq_true, hiff]
    rintro ⟨q, hq, hlt⟩
    exact (h q hq).not_gt hlt
  refine ⟨hiff, fun h => hout fun q hq => ?_, fun h => hout fun q hq => ?_, fun h => hout ?_⟩
  · rw [openSegment_eq_image'] at hq
    obtain ⟨t, _, rfl⟩ := hq
    exact h t
  · exact h q (openSegment_subset_segment ℝ eye p hq)
  · intro q hq
    rw [h, openSegment_same] at hq
    exact hq ▸ heye.le

/-- A point on the far side, through the origin. -/
theorem antipode_hidden : occludedBySphere ![2, 0, 0] (-2) 0 0 1 = true := by
  have hlen : len ![2, 0, 0] = 2 := by
    have hdot : ![2, 0, 0] ⬝ᵥ ![2, 0, 0] = (2 : ℝ) ^ 2 := by norm_num
    unfold len
    rw [hdot, Real.sqrt_sq (by norm_num)]
  have heye : 1 < len ![2, 0, 0] := by
    rw [hlen]
    norm_num
  have hthrough : ∃ q ∈ openSegment ℝ ![2, 0, 0] ![-2, 0, 0], len q < 1 := by
    refine ⟨0, ⟨1 / 2, 1 / 2, by norm_num, by norm_num, by norm_num, ?_⟩, ?_⟩
    · ext i
      fin_cases i <;> norm_num
    · simp [len]
  exact (occluded_iff 1 one_pos ![2, 0, 0] ![-2, 0, 0] heye).1.mpr hthrough

end Math3
