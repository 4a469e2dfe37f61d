import OrbitalViewer.Occlusion

/-!
# The orbit camera

`createCamera` of `frontend/js/camera.js`, over exact reals. However it is dragged and
zoomed, north stays up in its view and it stays outside of the globe, where the test
behind labels and picking is exact (`camera_upright`).
-/

namespace OrbitCamera
open scoped Matrix
open Real (pi cos sin exp)
open Math3 (Vec3 rotation transform)
open SatCamera (DEG)
open Frames (len unit)

noncomputable section

/-! ## What every event keeps -/

/-- Within the limits of the options and of the pitch. -/
structure Within (options : Options) (cam : Camera) : Prop where
  near : options.minDistance ≤ cam.distance
  far : cam.distance ≤ options.maxDistance
  pitch : |cam.pitch| ≤ PITCH_LIMIT

variable {options : Options} {cam : Camera}

theorem clampDist_mem (h : options.minDistance ≤ options.maxDistance) (d : ℝ) :
    options.minDistance ≤ clampDist options d ∧ clampDist options d ≤ options.maxDistance :=
  ⟨le_max_left _ _, max_le h (min_le_left _ _)⟩

theorem pitchLimit_pos : 0 < PITCH_LIMIT := by
  unfold PITCH_LIMIT DEG
  positivity

theorem clampPitch_mem (p : ℝ) : |clampPitch p| ≤ PITCH_LIMIT :=
  abs_le.mpr ⟨le_max_left _ _,
    max_le (neg_le_self pitchLimit_pos.le) (min_le_left _ _)⟩

theorem Within.step (h : Within options cam) (hrange : options.minDistance ≤ options.maxDistance)
    (e : Event) : Within options (step options cam e) := by
  have hclamped := clampDist_mem hrange
  cases e with
  | onDown clientX clientY => exact ⟨h.near, h.far, h.pitch⟩
  | onMove clientX clientY =>
    dsimp only [OrbitCamera.step]
    split
    · exact h
    · exact ⟨h.near, h.far, clampPitch_mem _⟩
  | onUp => exact ⟨h.near, h.far, h.pitch⟩
  | onWheel deltaY => exact ⟨(hclamped _).1, (hclamped _).2, h.pitch⟩
  | setDistance d => exact ⟨(hclamped d).1, (hclamped d).2, h.pitch⟩

theorem within_run (hrange : options.minDistance ≤ options.maxDistance)
    (hpitch : |options.pitch| ≤ PITCH_LIMIT) (events : List Event) :
    Within options (run options events) := by
  have hclamped := clampDist_mem hrange options.distance
  exact List.foldlRecOn events _ ⟨hclamped.1, hclamped.2, hpitch⟩ fun _ h e _ => h.step hrange e

/-! ## The view -/

/-- From the target to the eye, at distance one. -/
def sight (cam : Camera) : Vec3 :=
  ![cos cam.pitch * cos cam.yaw, cos cam.pitch * sin cam.yaw, sin cam.pitch]

theorem eye_sub (options : Options) (cam : Camera) :
    getEye options cam - options.target = cam.distance • sight cam := by
  ext i
  fin_cases i <;> simp [getEye, sight, mul_assoc]

theorem sight_dot_self (cam : Camera) : sight cam ⬝ᵥ sight cam = 1 := by
  have hpitch := Real.sin_sq_add_cos_sq cam.pitch
  have hyaw := Real.sin_sq_add_cos_sq cam.yaw
  simp only [sight, Matrix.vec3_dotProduct, Matrix.cons_val]
  linear_combination hpitch + cos cam.pitch ^ 2 * hyaw

theorem len_smul {c : ℝ} (hc : 0 ≤ c) {v : Vec3} (hv : v ⬝ᵥ v = 1) : len (c • v) = c := by
  unfold len
  rw [smul_dotProduct, dotProduct_smul, hv, smul_eq_mul, smul_eq_mul, mul_one]
  exact Real.sqrt_mul_self hc

theorem unit_smul {c : ℝ} (hc : 0 < c) {v : Vec3} (hv : v ⬝ᵥ v = 1) : unit (c • v) = v := by
  unfold unit
  rw [len_smul hc.le hv, smul_smul, inv_mul_cancel₀ hc.ne', one_smul]

/-- Off the axis, for a pitch below a right angle. -/
theorem len_north_sight (hcos : 0 < cos cam.pitch) : len (![0, 0, 1] ⨯₃ sight cam) = cos cam.pitch := by
  have hcross : ![0, 0, 1] ⨯₃ sight cam =
      cos cam.pitch • ![-sin cam.yaw, cos cam.yaw, 0] := by
    simp [sight, cross_apply]
  have hself : ![-sin cam.yaw, cos cam.yaw, 0] ⬝ᵥ ![-sin cam.yaw, cos cam.yaw, 0] = 1 := by
    have hyaw := Real.sin_sq_add_cos_sq cam.yaw
    simp only [Matrix.vec3_dotProduct, Matrix.cons_val]
    linear_combination hyaw
  rw [hcross, len_smul hcos.le hself]

theorem cos_pitch_pos (h : |cam.pitch| ≤ PITCH_LIMIT) : 0 < cos cam.pitch := by
  have hlimit : PITCH_LIMIT < pi / 2 := by
    unfold PITCH_LIMIT DEG
    linarith [Real.pi_pos]
  obtain ⟨hlo, hhi⟩ := abs_le.mp h
  exact Real.cos_pos_of_mem_Ioo ⟨by linarith, by linarith⟩

section View
variable (hdistance : 0 < cam.distance) (hpitch : |cam.pitch| ≤ PITCH_LIMIT)
include hdistance

variable (options) in
theorem len_eye_sub : len (getEye options cam - options.target) = cam.distance := by
  rw [eye_sub]
  exact len_smul hdistance.le (sight_dot_self cam)

theorem unit_eye_sub : unit (getEye options cam - options.target) = sight cam := by
  rw [eye_sub]
  exact unit_smul hdistance (sight_dot_self cam)

include hpitch

variable (options) in
/-- What `lookAt` asks for. -/
theorem upright : len (getEye options cam - options.target) ≠ 0 ∧
    len (![0, 0, 1] ⨯₃ unit (getEye options cam - options.target)) = cos cam.pitch := by
  constructor
  · rw [len_eye_sub options hdistance]
    exact hdistance.ne'
  · rw [unit_eye_sub hdistance]
    exact len_north_sight (cos_pitch_pos hpitch)

/-- North is up in the view, never left or right. -/
theorem north_up : rotation (getViewMatrix options cam) *ᵥ ![0, 0, 1] =
    ![0, cos cam.pitch, sin cam.pitch] := by
  obtain ⟨hz, hx⟩ := upright options hdistance hpitch
  have hcos := cos_pitch_pos hpitch
  have hx' : len (![0, 0, 1] ⨯₃ unit (getEye options cam - options.target)) ≠ 0 :=
    hx ▸ hcos.ne'
  rw [getViewMatrix, Math3.lookAt_eq_viewOf, Math3.rotation_viewOf, Math3.rightward_eq hz hx',
    Math3.backward_eq hz, unit, hx, unit_eye_sub hdistance]
  ext i
  fin_cases i
  · simp [sight, cross_apply]
  · have hyaw := Real.sin_sq_add_cos_sq cam.yaw
    have hplane : cos cam.pitch * cos cam.yaw * ((cos cam.pitch)⁻¹ * (cos cam.pitch * cos cam.yaw)) +
        cos cam.pitch * sin cam.yaw * ((cos cam.pitch)⁻¹ * (cos cam.pitch * sin cam.yaw)) =
          cos cam.pitch := by
      rw [inv_mul_cancel_left₀ hcos.ne', inv_mul_cancel_left₀ hcos.ne']
      linear_combination cos cam.pitch * hyaw
    simpa [sight, cross_apply] using hplane
  · simp [sight]

variable (options) in
/-- The view turns the globe and pushes it away. -/
theorem view_rigid :
    rotation (getViewMatrix options cam) ∈ Matrix.specialOrthogonalGroup (Fin 3) ℝ ∧
      transform (getViewMatrix options cam) options.target = ![0, 0, -cam.distance, 1] := by
  obtain ⟨hz, hx⟩ := upright options hdistance hpitch
  have hx' : len (![0, 0, 1] ⨯₃ unit (getEye options cam - options.target)) ≠ 0 :=
    hx ▸ (cos_pitch_pos hpitch).ne'
  have hcenter := Math3.transform_center hz hx'
  rw [len_eye_sub options hdistance] at hcenter
  exact ⟨Math3.lookAt_rotation hz hx', hcenter⟩

end View

/-! ## The camera of the renderer -/

theorem within_renderer (events : List Event) : Within rendererOptions (run rendererOptions events) := by
  have hrange : rendererOptions.minDistance ≤ rendererOptions.maxDistance := by
    simp only [rendererOptions]
    norm_num
  have hpitch : |rendererOptions.pitch| ≤ PITCH_LIMIT := by
    have hdeg : 0 < DEG := by
      unfold DEG
      positivity
    simp only [rendererOptions, PITCH_LIMIT]
    rw [abs_of_nonneg (by positivity)]
    linarith
  exact within_run hrange hpitch events

/-- **The camera of the renderer.** After any drags and zooms it is from 8 to 200 units away
from the centre of the Earth, straight ahead of it, and its view is a rotation with north up.
The test for what is behind the Earth is exact there: a point is behind it just when the line
from the eye to the point goes through it. -/
theorem camera_upright (events : List Event) :
    let cam := run rendererOptions events
    let view := getViewMatrix rendererOptions cam
    len (getEye rendererOptions cam) = cam.distance ∧ 8 ≤ cam.distance ∧ cam.distance ≤ 200 ∧
    rotation view ∈ Matrix.specialOrthogonalGroup (Fin 3) ℝ ∧
    transform view ![0, 0, 0] = ![0, 0, -cam.distance, 1] ∧
    |cam.pitch| ≤ PITCH_LIMIT ∧
    (0 < cos cam.pitch ∧ rotation view *ᵥ ![0, 0, 1] = ![0, cos cam.pitch, sin cam.pitch]) ∧
    ∀ o, behindEarth (getEye rendererOptions cam) o = true ↔
      ∃ q ∈ openSegment ℝ (getEye rendererOptions cam) o, len q < OCCLUDE_R := by
  intro cam view
  obtain ⟨hnear, hfar, hpitch⟩ := within_renderer events
  have hdistance : 0 < cam.distance := lt_of_lt_of_le (by norm_num [rendererOptions]) hnear
  have hlen : len (getEye rendererOptions cam) = cam.distance := by
    have hsub := len_eye_sub rendererOptions hdistance
    have hzero : rendererOptions.target = 0 := by
      ext i
      fin_cases i <;> rfl
    rwa [hzero, sub_zero] at hsub
  obtain ⟨hrotation, hcenter⟩ := view_rigid rendererOptions hdistance hpitch
  refine ⟨hlen, hnear, hfar, hrotation, hcenter, hpitch,
    ⟨cos_pitch_pos hpitch, north_up hdistance hpitch⟩, fun o => ?_⟩
  have hradius : OCCLUDE_R < 8 := by norm_num [OCCLUDE_R, EARTH_R]
  exact Math3.hides_iff (by norm_num [OCCLUDE_R, EARTH_R]) (hlen.symm ▸ hradius.trans_le hnear)

end

end OrbitCamera
