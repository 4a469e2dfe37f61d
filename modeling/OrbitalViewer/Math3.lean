import OrbitalViewer.Views

/-!
# Vectors and matrices of the renderer

The functions of `frontend/js/math3.js` as those of frames. A view that `lookAt` makes
is a rotation about the eye (`lookAt_rotation`, `transform_eye`) unless its `|| 1`
stands in for a length of zero.
-/

namespace Math3
open scoped Matrix
open Frames (len unit rejection)

variable {v f eye center up : Vec3}

/-! ## What the functions are -/

theorem hypot_eq_len (v : Vec3) : hypot [v 0, v 1, v 2] = len v := by
  unfold hypot len
  congr 1
  simp [Matrix.vec3_dotProduct]
  ring

theorem length_eq_len (v : Vec3) : length v = len v := hypot_eq_len v

theorem dot_eq (a b : Vec3) : dot a b = a ⬝ᵥ b := (Matrix.vec3_dotProduct a b).symm

theorem sub_eq (a b : Vec3) : sub a b = a - b := by
  ext i
  fin_cases i <;> rfl

theorem scale_eq (v : Vec3) (s : ℝ) : scale v s = s • v := by
  ext i
  fin_cases i <;> exact mul_comm _ _

theorem normalize_eq_unit (v : Vec3) : normalize v = unit v := by
  unfold normalize
  rw [hypot_eq_len]
  dsimp only
  split
  · next hzero =>
    unfold unit
    rw [hzero, inv_zero, zero_smul]
    ext i
    fin_cases i <;> rfl
  · ext i
    fin_cases i <;> exact div_eq_inv_mul _ _

theorem overLength_eq_unit (h : len v ≠ 0) : overLength v = unit v := by
  unfold overLength orOne
  rw [hypot_eq_len, if_neg h]
  ext i
  exact div_eq_inv_mul _ _

/-! ## Views -/

theorem lookAt_eq_viewOf (eye center up : Vec3) :
    lookAt eye center up = viewOf (rightward eye center up)
      (backward eye center ⨯₃ rightward eye center up) (backward eye center) eye := by
  ext i
  fin_cases i <;> rfl

theorem rotation_viewOf (x y z eye : Vec3) :
    rotation (viewOf x y z eye) = Matrix.of ![x, y, z] := by
  ext i j
  fin_cases i <;> fin_cases j <;> rfl

theorem transform_viewOf (x y z eye v : Vec3) :
    transform (viewOf x y z eye) v =
      ![x ⬝ᵥ (v - eye), y ⬝ᵥ (v - eye), z ⬝ᵥ (v - eye), 1] := by
  ext i
  fin_cases i <;> simp [transform, viewOf, dot, Matrix.vec3_dotProduct] <;> ring

section LookAt
variable (hz : len (eye - center) ≠ 0) (hx : len (up ⨯₃ unit (eye - center)) ≠ 0)
include hz

theorem backward_eq : backward eye center = unit (eye - center) := overLength_eq_unit hz

theorem backward_dot_self : backward eye center ⬝ᵥ backward eye center = 1 := by
  rw [backward_eq hz]
  exact Frames.unit_dot_self hz

include hx

theorem rightward_eq : rightward eye center up = unit (up ⨯₃ unit (eye - center)) := by
  unfold rightward
  rw [backward_eq hz]
  exact overLength_eq_unit hx

theorem rightward_dot_self : rightward eye center up ⬝ᵥ rightward eye center up = 1 := by
  rw [rightward_eq hz hx]
  exact Frames.unit_dot_self hx

theorem rightward_dot_backward : rightward eye center up ⬝ᵥ backward eye center = 0 := by
  rw [rightward_eq hz hx, backward_eq hz]
  apply Frames.unit_dot_zero
  rw [dotProduct_comm]
  exact dot_cross_self up _

theorem lookAt_rotation :
    rotation (lookAt eye center up) ∈ Matrix.specialOrthogonalGroup (Fin 3) ℝ := by
  rw [lookAt_eq_viewOf, rotation_viewOf]
  exact Frames.frame_mem (rightward_dot_self hz hx) (backward_dot_self hz)
    (rightward_dot_backward hz hx)

/-- The center is straight ahead. -/
theorem transform_center :
    transform (lookAt eye center up) center = ![0, 0, -len (eye - center), 1] := by
  have hback : center - eye = -len (eye - center) • backward eye center := by
    rw [backward_eq hz, neg_smul, Frames.len_smul_unit hz, neg_sub]
  have hy : (backward eye center ⨯₃ rightward eye center up) ⬝ᵥ backward eye center = 0 := by
    rw [dotProduct_comm]
    exact dot_self_cross _ _
  rw [lookAt_eq_viewOf, transform_viewOf, hback]
  simp only [dotProduct_smul, rightward_dot_backward hz hx, hy, backward_dot_self hz, smul_eq_mul,
    mul_zero, mul_one]

end LookAt

theorem transform_eye (eye center up : Vec3) :
    transform (lookAt eye center up) eye = ![0, 0, 0, 1] := by
  rw [lookAt_eq_viewOf, transform_viewOf, sub_self]
  simp only [dotProduct_zero]

section Upright
variable (hz : len (eye - center) ≠ 0) (hup : up ⬝ᵥ up = 1)
  (h : up ⬝ᵥ unit (eye - center) = 0)
include hz hup h

theorem len_cross_sight : len (up ⨯₃ unit (eye - center)) = 1 :=
  Frames.len_eq_one
    (Frames.cross_unit (Frames.unit_dot_self hz) hup ((dotProduct_comm _ _).trans h))

/-- A unit vector at a right angle to the line of sight is what the camera has up. -/
theorem lookAt_up : rotation (lookAt eye center up) 1 = up := by
  have hcross : len (up ⨯₃ unit (eye - center)) = 1 := len_cross_sight hz hup h
  have hx : len (up ⨯₃ unit (eye - center)) ≠ 0 := hcross ▸ one_ne_zero
  rw [lookAt_eq_viewOf, rotation_viewOf, rightward_eq hz hx, backward_eq hz,
    Frames.unit_of_len_eq_one hcross]
  exact Frames.cross_cross_axis (Frames.unit_dot_self hz) h

end Upright

end Math3
