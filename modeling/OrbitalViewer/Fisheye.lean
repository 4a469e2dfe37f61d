import OrbitalViewer.Math3

/-!
# The fisheye, twice

`fisheyeProjectNdc` of `frontend/js/sat_camera.js`, which places labels and picks, and
`fisheyePosition` of the shaders in `frontend/js/renderer.js`, over exact reals. They
compare the angle with different numbers for a right angle, but only near the axis,
where it is far from either (`right_angles`). So they agree (`fisheye_agrees`).
-/

namespace Renderer
open scoped Matrix
open Real (pi arccos)
open Math3 (Vec3 Vec4 Mat4 hypot identity transform length scale)
open SatCamera (DEG SAT_FOV_DEG SAT_NEAR SAT_FAR Ndc fisheyeProjectNdc)

/-! ## Angles -/

theorem arccos_near_axis {z : ℝ} (h : 1 / 2 ≤ z ^ 2) : arccos z ≤ pi / 4 ∨ 3 * pi / 4 ≤ arccos z := by
  have hroot : (√2 / 2) ^ 2 = (1 / 2 : ℝ) := by
    rw [div_pow, Real.sq_sqrt (by norm_num)]
    norm_num
  have habs : √2 / 2 ≤ |z| := by
    have hsq := sq_le_sq.mp (hroot.le.trans h)
    rwa [abs_of_nonneg (by positivity)] at hsq
  rcases le_total 0 z with hz | hz
  · rw [abs_of_nonneg hz] at habs
    exact .inl (Real.arccos_le_pi_div_four.mpr habs)
  · rw [abs_of_nonpos hz] at habs
    have hneg := Real.arccos_le_pi_div_four.mpr habs
    rw [Real.arccos_neg] at hneg
    exact .inr (by linarith)

/-- Near the axis the two numbers for a right angle tell the same. -/
theorem right_angles {z : ℝ} (h : 1 / 2 ≤ z ^ 2) : arccos z > 1.5707963 ↔ arccos z > pi / 2 := by
  rcases arccos_near_axis h with hahead | hbehind
  · have hsmall : arccos z ≤ 1 := hahead.trans (by linarith [Real.pi_le_four])
    have hhalf : 1 ≤ pi / 2 := by linarith [Real.two_le_pi]
    exact iff_of_false (by norm_num; linarith) (not_lt.mpr (hsmall.trans hhalf))
  · have hlarge : 9 / 4 < arccos z := by linarith [Real.pi_gt_three]
    exact iff_of_true (by norm_num; linarith) (by linarith [Real.pi_pos])

/-! ## One projection -/

theorem clampGl_eq (x : ℝ) {lo hi : ℝ} (h : lo ≤ hi) : clampGl x lo hi = SatCamera.clamp x lo hi := by
  unfold clampGl SatCamera.clamp
  rw [max_min_distrib_left, max_eq_right h, min_comm, max_comm]

theorem mulGl_eq (m : Mat4) (v : Vec3) : mulGl m ![v 0, v 1, v 2, 1] = transform m v := by
  ext r
  fin_cases r <;> simp [mulGl, transform, Fin.sum_univ_four]

theorem div_eq_scale (x y z rho : ℝ) : ![x / rho, y / rho, z / rho] = scale ![x, y, z] (1 / rho) := by
  ext i
  fin_cases i <;> exact div_eq_mul_one_div _ _

/-- Near the axis the third component is nearly 1. -/
theorem near_axis {dir : Vec3} (hdir : dir ⬝ᵥ dir = 1) (h : hypot [dir 0, dir 1] < 1e-6) :
    1 / 2 ≤ SatCamera.clamp (-dir 2) (-1) 1 ^ 2 := by
  have hsum : dir 0 ^ 2 + dir 1 ^ 2 + dir 2 ^ 2 = 1 := by
    rw [Matrix.vec3_dotProduct] at hdir
    linarith
  have hoff : dir 0 ^ 2 + dir 1 ^ 2 < 1e-6 ^ 2 := by
    have hsq := (Real.sqrt_lt' (by norm_num)).mp h
    simpa using hsq
  have hbound : |dir 2| ≤ 1 := (sq_le_one_iff_abs_le_one _).mp (by nlinarith)
  obtain ⟨hlo, hhi⟩ := abs_le.mp hbound
  have hclamp : SatCamera.clamp (-dir 2) (-1) 1 = -dir 2 := by
    unfold SatCamera.clamp
    rw [min_eq_right (by linarith), max_eq_right (by linarith)]
  rw [hclamp, neg_sq]
  norm_num at hoff ⊢
  linarith

theorem direction_unit {v : Vec3} (hv : ¬ length v < 1e-9) :
    scale v (1 / length v) ⬝ᵥ scale v (1 / length v) = 1 := by
  rw [Math3.length_eq_len] at hv ⊢
  rw [Math3.scale_eq, one_div]
  apply Frames.unit_dot_self
  intro hzero
  norm_num [hzero] at hv

/-- What is not projected is culled, and the rest goes where it is projected. -/
theorem glPosition_eq (view : Mat4) (aspect : ℝ) (point : Vec3) :
    glPosition view aspect point =
      (fisheyeProjectNdc view point aspect).elim cull fun n => ![n.x, n.y, n.depth, 1] := by
  have hlength : ∀ xs, lengthGl xs = hypot xs := fun xs => rfl
  have hrho (v : Vec4) : hypot [v 0, v 1, v 2] = length ![v 0, v 1, v 2] := rfl
  unfold glPosition fisheyePosition fisheyeProjectNdc
  rw [mulGl_eq]
  generalize transform view point = vp
  dsimp only
  rw [hlength, hlength, hrho, div_eq_scale, clampGl_eq _ (by norm_num), clampGl_eq _ zero_le_one]
  by_cases heye : length ![vp 0, vp 1, vp 2] < 1e-9
  · rw [if_pos heye, if_pos heye]
    rfl
  · rw [if_neg heye, if_neg heye]
    have hdir := direction_unit heye
    generalize scale ![vp 0, vp 1, vp 2] (1 / length ![vp 0, vp 1, vp 2]) = dir at hdir ⊢
    by_cases haxis : hypot [dir 0, dir 1] < 1e-6
    · have hsame := right_angles (near_axis hdir haxis)
      rw [if_pos haxis, if_pos haxis]
      by_cases hbehind : arccos (SatCamera.clamp (-dir 2) (-1) 1) > pi / 2
      · rw [if_pos (hsame.mpr hbehind), if_pos hbehind]
        rfl
      · rw [if_neg fun h => hbehind (hsame.mp h), if_neg hbehind]
        rfl
    · rw [if_neg haxis, if_neg haxis]
      rfl

theorem depth_mem {view : Mat4} {point : Vec3} {aspect : ℝ} {n : Ndc}
    (h : fisheyeProjectNdc view point aspect = some n) : -1 ≤ n.depth ∧ n.depth ≤ 1 := by
  have hclamp (x : ℝ) : -1 ≤ SatCamera.clamp x 0 1 * 2 - 1 ∧ SatCamera.clamp x 0 1 * 2 - 1 ≤ 1 := by
    have hlo : 0 ≤ SatCamera.clamp x 0 1 := le_max_left ..
    have hhi : SatCamera.clamp x 0 1 ≤ 1 := max_le zero_le_one (min_le_left ..)
    exact ⟨by linarith, by linarith⟩
  unfold fisheyeProjectNdc at h
  dsimp only at h
  split_ifs at h
  · obtain rfl := Option.some.inj h
    exact hclamp _
  · obtain rfl := Option.some.inj h
    exact hclamp _

/-- **The shader draws a point where the page takes it to be**, or culls what the page
does not project. -/
theorem fisheye_agrees (view : Mat4) (point : Vec3) (aspect : ℝ) :
    (fisheyeProjectNdc view point aspect = none ↔ glPosition view aspect point = cull) ∧
      ∀ n, fisheyeProjectNdc view point aspect = some n →
        glPosition view aspect point = ![n.x, n.y, n.depth, 1] ∧ -1 ≤ n.depth ∧ n.depth ≤ 1 := by
  have hgl := glPosition_eq view aspect point
  cases h : fisheyeProjectNdc view point aspect with
  | none =>
    rw [h] at hgl
    exact ⟨iff_of_true rfl hgl, fun n hn => nomatch hn⟩
  | some n =>
    obtain ⟨hlo, hhi⟩ := depth_mem h
    rw [h, Option.elim_some] at hgl
    refine ⟨iff_of_false (Option.some_ne_none n) fun hcull => ?_, ?_⟩
    · have hdepth : n.depth = -3 := congrFun (hgl.symm.trans hcull) 2
      linarith
    · rintro _ ⟨⟩
      exact ⟨hgl, hlo, hhi⟩

theorem abeam_projected : fisheyeProjectNdc identity ![1, 0, 0] 2 =
    some { x := 9 / 17, y := 0, depth := 38 / 19999 - 1, theta := pi / 2 } := by
  have hvp : transform identity ![1, 0, 0] = ![1, 0, 0, 1] := by
    ext i
    fin_cases i <;> simp [transform, identity]
  have hrho : length ![1, 0, 0] = 1 := by simp [length, hypot]
  have hdir : scale ![1, 0, 0] (1 / 1) = ![1, 0, 0] := by simp [scale]
  have hpLen : hypot [1, 0] = 1 := by simp [hypot]
  have htheta : arccos (SatCamera.clamp (-0) (-1) 1) = pi / 2 := by norm_num [SatCamera.clamp]
  have hdepth : SatCamera.clamp ((1 - SAT_NEAR) / (SAT_FAR - SAT_NEAR)) 0 1 = 19 / 19999 := by
    norm_num [SatCamera.clamp, SAT_NEAR, SAT_FAR]
  have hr : pi / 2 / (SAT_FOV_DEG / 2 * DEG) = 18 / 17 := by
    unfold SAT_FOV_DEG DEG
    field_simp
    norm_num
  unfold fisheyeProjectNdc
  simp only [hvp, Matrix.cons_val, hrho, hdir, hpLen, htheta, hdepth, hr]
  rw [if_neg (by norm_num), if_neg (by norm_num)]
  norm_num

/-- A point abeam of the camera is drawn beyond the edge. -/
theorem abeam_agrees : glPosition identity 2 ![1, 0, 0] = ![9 / 17, 0, 38 / 19999 - 1, 1] :=
  ((fisheye_agrees identity ![1, 0, 0] 2).2 _ abeam_projected).1

end Renderer
