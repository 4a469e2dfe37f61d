import Mathlib

/-!
# Frames

Vectors of three reals: their length, the unit vector along one, and what is left
of one off an axis. Two unit vectors at a right angle and their cross product make
a rotation (`frame_mem`).
-/

namespace Frames
open Matrix

section Rotation
variable {R : Type} [CommRing R] {x z : Fin 3 → R}

theorem cross_unit (hx : x ⬝ᵥ x = 1) (hz : z ⬝ᵥ z = 1) (h : x ⬝ᵥ z = 0) :
    (z ⨯₃ x) ⬝ᵥ (z ⨯₃ x) = 1 := by
  have hzx : z ⬝ᵥ x = 0 := (dotProduct_comm z x).trans h
  rw [cross_dot_cross, hx, hz, h, hzx]
  ring

/-- The vector at a right angle to the axis comes back. -/
theorem cross_cross_axis (hz : z ⬝ᵥ z = 1) (h : x ⬝ᵥ z = 0) : z ⨯₃ (x ⨯₃ z) = x := by
  rw [cross_cross_eq_smul_sub_smul', hz, h]
  simp

/-- **Two unit vectors at a right angle make a rotation.** -/
theorem frame_mem (hx : x ⬝ᵥ x = 1) (hz : z ⬝ᵥ z = 1) (h : x ⬝ᵥ z = 0) :
    Matrix.of ![x, z ⨯₃ x, z] ∈ Matrix.specialOrthogonalGroup (Fin 3) R := by
  have hy : (z ⨯₃ x) ⬝ᵥ (z ⨯₃ x) = 1 := cross_unit hx hz h
  have hzx : z ⬝ᵥ x = 0 := (dotProduct_comm z x).trans h
  have hxy : x ⬝ᵥ (z ⨯₃ x) = 0 := dot_cross_self z x
  have hyx : (z ⨯₃ x) ⬝ᵥ x = 0 := (dotProduct_comm _ _).trans hxy
  have hzy : z ⬝ᵥ (z ⨯₃ x) = 0 := dot_self_cross z x
  have hyz : (z ⨯₃ x) ⬝ᵥ z = 0 := (dotProduct_comm _ _).trans hzy
  have hdet : x ⬝ᵥ ((z ⨯₃ x) ⨯₃ z) = 1 := by
    rw [cross_cross_eq_smul_sub_smul, hz, h, one_smul, zero_smul, sub_zero, hx]
  refine Matrix.mem_specialOrthogonalGroup_iff.mpr
    ⟨(Matrix.mem_orthogonalGroup_iff (Fin 3) R).mpr ?_, ?_⟩
  · ext i j
    change Matrix.of ![x, z ⨯₃ x, z] i ⬝ᵥ Matrix.of ![x, z ⨯₃ x, z] j = _
    fin_cases i <;> fin_cases j
    exacts [hx, hxy, h, hyx, hy, hyz, hzx, hzy, hz]
  · exact (triple_product_eq_det x (z ⨯₃ x) z).symm.trans hdet

end Rotation

noncomputable section

/-- The Euclidean length. -/
def len (v : Fin 3 → ℝ) : ℝ := √(v ⬝ᵥ v)

/-- The unit vector along a vector. -/
def unit (v : Fin 3 → ℝ) : Fin 3 → ℝ := (len v)⁻¹ • v

/-- What is left of a vector off the axis of a unit vector. -/
def rejection (v f : Fin 3 → ℝ) : Fin 3 → ℝ := v - (v ⬝ᵥ f) • f

end

variable {v f : Fin 3 → ℝ}

theorem dot_self_nonneg (v : Fin 3 → ℝ) : 0 ≤ v ⬝ᵥ v :=
  Finset.sum_nonneg fun i _ => mul_self_nonneg (v i)

theorem len_sq (v : Fin 3 → ℝ) : len v ^ 2 = v ⬝ᵥ v := Real.sq_sqrt (dot_self_nonneg v)

theorem len_nonneg (v : Fin 3 → ℝ) : 0 ≤ len v := Real.sqrt_nonneg _

theorem len_neg (v : Fin 3 → ℝ) : len (-v) = len v := by
  unfold len
  rw [neg_dotProduct_neg]

theorem len_eq_one (h : v ⬝ᵥ v = 1) : len v = 1 := by
  unfold len
  rw [h, Real.sqrt_one]

theorem unit_of_len_eq_one (h : len v = 1) : unit v = v := by
  unfold unit
  rw [h, inv_one, one_smul]

theorem unit_neg (v : Fin 3 → ℝ) : unit (-v) = -unit v := by
  unfold unit
  rw [len_neg, smul_neg]

theorem len_smul_unit (h : len v ≠ 0) : len v • unit v = v := by
  unfold unit
  rw [smul_smul, mul_inv_cancel₀ h, one_smul]

theorem unit_dot_self (h : len v ≠ 0) : unit v ⬝ᵥ unit v = 1 := by
  unfold unit
  rw [smul_dotProduct, dotProduct_smul, ← len_sq]
  simp only [smul_eq_mul]
  field_simp

theorem unit_dot_zero {w : Fin 3 → ℝ} (h : v ⬝ᵥ w = 0) : unit v ⬝ᵥ w = 0 := by
  unfold unit
  rw [smul_dotProduct, h, smul_zero]

theorem rejection_dot (v : Fin 3 → ℝ) (hf : f ⬝ᵥ f = 1) : rejection v f ⬝ᵥ f = 0 := by
  unfold rejection
  rw [sub_dotProduct, smul_dotProduct, hf]
  simp

theorem len_rejection_sq (v : Fin 3 → ℝ) (hf : f ⬝ᵥ f = 1) :
    len (rejection v f) ^ 2 = v ⬝ᵥ v - (v ⬝ᵥ f) ^ 2 := by
  have hself : rejection v f ⬝ᵥ rejection v f = rejection v f ⬝ᵥ v := by
    nth_rewrite 2 [rejection]
    rw [dotProduct_sub, dotProduct_smul, rejection_dot v hf]
    simp
  rw [len_sq, hself, rejection, sub_dotProduct, smul_dotProduct, dotProduct_comm f v]
  simp only [smul_eq_mul]
  ring

/-- What two unit vectors at a right angle take of a third. -/
theorem dot_sq_add_dot_sq_le {a b : Fin 3 → ℝ} (ha : a ⬝ᵥ a = 1) (hb : b ⬝ᵥ b = 1)
    (hab : a ⬝ᵥ b = 0) (v : Fin 3 → ℝ) : (v ⬝ᵥ a) ^ 2 + (v ⬝ᵥ b) ^ 2 ≤ v ⬝ᵥ v := by
  have hb' : rejection v a ⬝ᵥ b = v ⬝ᵥ b := by
    rw [rejection, sub_dotProduct, smul_dotProduct, hab, smul_zero, sub_zero]
  have htwice : len (rejection (rejection v a) b) ^ 2 = v ⬝ᵥ v - (v ⬝ᵥ a) ^ 2 - (v ⬝ᵥ b) ^ 2 := by
    rw [len_rejection_sq _ hb, hb', ← len_sq, len_rejection_sq v ha]
  linarith [sq_nonneg (len (rejection (rejection v a) b))]

/-- No axis is along both of two vectors at a right angle. -/
theorem rejections {a b : Fin 3 → ℝ} (ha : a ⬝ᵥ a = 1) (hb : b ⬝ᵥ b = 1) (hab : a ⬝ᵥ b = 0)
    (hf : f ⬝ᵥ f = 1) : 1 ≤ len (rejection a f) ^ 2 + len (rejection b f) ^ 2 := by
  have hboth := dot_sq_add_dot_sq_le ha hb hab f
  rw [len_rejection_sq a hf, len_rejection_sq b hf, ha, hb, dotProduct_comm a, dotProduct_comm b]
  linarith

end Frames
