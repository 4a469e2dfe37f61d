import OrbitalViewer.Math3

/-!
# The satellite camera

`satViewMatrix` of `frontend/js/sat_camera.js`, over exact reals. Whatever the
velocity, one of the three choices of an up vector is long enough to normalise
(`upC_long`), so the camera is never degenerate (`satViewMatrix_upright`).
-/

namespace SatCamera
open scoped Matrix
open Frames (len unit rejection)
open Math3

variable {v f : Vec3}

theorem perp_eq_rejection (v f : Vec3) : perp v f = rejection v f := by
  unfold perp rejection
  rw [sub_eq, scale_eq, dot_eq]

theorem boresight_eq (eye : Vec3) : boresight eye = -unit eye := by
  unfold boresight
  rw [normalize_eq_unit, scale_eq, neg_smul, one_smul, Frames.unit_neg]

theorem valid_some (v : Vec3) : valid (some fun i => some (v i)) = some v := by
  have hv : ![v 0, v 1, v 2] = v := by
    ext i
    fin_cases i <;> rfl
  exact congrArg some hv

/-! ## The up vector -/

theorem perp_dot (v : Vec3) (hf : f ⬝ᵥ f = 1) : perp v f ⬝ᵥ f = 0 := by
  rw [perp_eq_rejection]
  exact Frames.rejection_dot v hf

theorem upC_dot (vel : Option Velocity) (hf : f ⬝ᵥ f = 1) : upC vel f ⬝ᵥ f = 0 := by
  have hfirst : (valid vel).elim ![0, 0, 0] (perp · f) ⬝ᵥ f = 0 := by
    cases valid vel with
    | none => simp
    | some v => exact perp_dot v hf
  unfold upC
  dsimp only
  split_ifs
  · exact perp_dot _ hf
  · exact perp_dot _ hf
  · exact hfirst

/-- North and `+X` are not both near nadir. -/
theorem perp_long (hf : f ⬝ᵥ f = 1) (hnorth : length (perp ![0, 0, 1] f) < 1e-6) :
    1e-6 ≤ length (perp ![1, 0, 0] f) := by
  have hboth := Frames.rejections (a := ![0, 0, 1]) (b := ![1, 0, 0]) (by simp) (by simp) (by simp) hf
  rw [length_eq_len, perp_eq_rejection] at hnorth ⊢
  nlinarith [Frames.len_nonneg (rejection ![0, 0, 1] f), Frames.len_nonneg (rejection ![1, 0, 0] f)]

theorem upC_long (vel : Option Velocity) (hf : f ⬝ᵥ f = 1) : 1e-6 ≤ length (upC vel f) := by
  unfold upC
  dsimp only
  split_ifs with hfirst hnorth
  · exact perp_long hf hnorth
  · exact not_lt.mp hnorth
  · exact not_lt.mp hfirst

/-- A velocity that is not along nadir is kept. -/
theorem upC_velocity (h : 1e-6 ≤ length (perp v f)) :
    upC (some fun i => some (v i)) f = perp v f := by
  unfold upC
  rw [valid_some, Option.elim_some]
  dsimp only
  rw [if_neg (not_lt.mpr h), if_neg (not_lt.mpr h)]

/-! ## The view -/

section View
variable {pos : Vec3} (hpos : 1e-9 ≤ len pos)
include hpos

theorem len_ne_zero : len pos ≠ 0 := by
  intro h
  norm_num [h] at hpos

theorem boresight_dot_self : boresight pos ⬝ᵥ boresight pos = 1 := by
  rw [boresight_eq, neg_dotProduct_neg]
  exact Frames.unit_dot_self (len_ne_zero hpos)

theorem satViewMatrix_eq (vel : Option Velocity) : satViewMatrix (some pos) vel =
    some (lookAt pos ![0, 0, 0] (unit (upC vel (boresight pos)))) := by
  unfold satViewMatrix
  dsimp only
  rw [length_eq_len, if_neg (not_not.mpr hpos), normalize_eq_unit]

theorem up_dot_self (vel : Option Velocity) :
    unit (upC vel (boresight pos)) ⬝ᵥ unit (upC vel (boresight pos)) = 1 := by
  have hlong := upC_long vel (boresight_dot_self hpos)
  apply Frames.unit_dot_self
  rw [length_eq_len] at hlong
  intro hzero
  norm_num [hzero] at hlong

theorem up_dot_sight (vel : Option Velocity) : unit (upC vel (boresight pos)) ⬝ᵥ unit pos = 0 := by
  apply Frames.unit_dot_zero
  have hdot := upC_dot vel (boresight_dot_self hpos)
  nth_rewrite 2 [boresight_eq] at hdot
  rwa [dotProduct_neg, neg_eq_zero] at hdot

end View

/-- **The camera is never degenerate.** Its view is a rotation about the satellite with
the Earth straight ahead, and what a velocity has across nadir is up. -/
theorem satViewMatrix_upright (pos : Vec3) (vel : Option Velocity) (hpos : 1e-9 ≤ len pos) :
    ∃ m, satViewMatrix (some pos) vel = some m ∧
      rotation m ∈ Matrix.specialOrthogonalGroup (Fin 3) ℝ ∧
      transform m pos = ![0, 0, 0, 1] ∧ transform m ![0, 0, 0] = ![0, 0, -len pos, 1] ∧
      rotation m 1 = unit (upC vel (boresight pos)) ∧ 1e-6 ≤ len (upC vel (boresight pos)) ∧
      ∀ v, vel = some (fun i => some (v i)) → 1e-6 ≤ len (rejection v (-unit pos)) →
        rotation m 1 = unit (rejection v (-unit pos)) := by
  have hcenter : pos - ![0, 0, 0] = pos := by
    ext i
    fin_cases i <;> exact sub_zero _
  have hz : len (pos - ![0, 0, 0]) ≠ 0 := hcenter.symm ▸ len_ne_zero hpos
  have hsight : unit (upC vel (boresight pos)) ⬝ᵥ unit (pos - ![0, 0, 0]) = 0 :=
    hcenter.symm ▸ up_dot_sight hpos vel
  have hup := lookAt_up hz (up_dot_self hpos vel) hsight
  have hx := len_cross_sight hz (up_dot_self hpos vel) hsight
  have hlong : 1e-6 ≤ len (upC vel (boresight pos)) :=
    length_eq_len _ ▸ upC_long vel (boresight_dot_self hpos)
  refine ⟨_, satViewMatrix_eq hpos vel, lookAt_rotation hz (hx ▸ one_ne_zero), transform_eye .., ?_,
    hup, hlong, ?_⟩
  · rw [transform_center hz (hx ▸ one_ne_zero), hcenter]
  · rintro v rfl hv
    rw [← boresight_eq, ← perp_eq_rejection, ← length_eq_len] at hv
    rw [hup, upC_velocity hv, perp_eq_rejection, boresight_eq]

/-- Over the equator, on the way east. -/
theorem equatorial_upright : ∃ m,
    satViewMatrix (some ![7, 0, 0]) (some fun i => some (![0, 1, 0] i)) = some m ∧
      rotation m ∈ Matrix.specialOrthogonalGroup (Fin 3) ℝ ∧
      transform m ![0, 0, 0] = ![0, 0, -7, 1] ∧ rotation m 1 = ![0, 1, 0] := by
  have hlen : len ![7, 0, 0] = 7 := by
    have hdot : ![7, 0, 0] ⬝ᵥ ![7, 0, 0] = (7 : ℝ) ^ 2 := by norm_num
    unfold len
    rw [hdot, Real.sqrt_sq (by norm_num)]
  have heast : len ![0, 1, 0] = 1 := Frames.len_eq_one (by simp)
  have hdot : ![0, 1, 0] ⬝ᵥ -unit ![7, 0, 0] = 0 := by
    rw [dotProduct_neg, dotProduct_comm, Frames.unit_dot_zero (by simp), neg_zero]
  have hacross : rejection ![0, 1, 0] (-unit ![7, 0, 0]) = ![0, 1, 0] := by
    unfold rejection
    rw [hdot, zero_smul, sub_zero]
  obtain ⟨m, hm, hrotation, _, hcenter, _, _, hup⟩ :=
    satViewMatrix_upright ![7, 0, 0] (some fun i => some (![0, 1, 0] i)) (by rw [hlen]; norm_num)
  refine ⟨m, hm, hrotation, hlen ▸ hcenter, ?_⟩
  have hacrossLong : 1e-6 ≤ len (rejection ![0, 1, 0] (-unit ![7, 0, 0])) := by
    rw [hacross, heast]
    norm_num
  rw [hup ![0, 1, 0] rfl hacrossLong, hacross, Frames.unit_of_len_eq_one heast]

end SatCamera
