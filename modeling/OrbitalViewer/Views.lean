import OrbitalViewer.Lib.Frames

/-!
# Views of the renderer

What `frontend/js/math3.js`, `frontend/js/sat_camera.js`, `frontend/js/camera.js` and the
vertex shaders of `frontend/js/renderer.js` compute of a view, over exact reals.
-/

namespace Math3
open scoped Matrix

abbrev Vec3 := Fin 3 → ℝ
abbrev Vec4 := Fin 4 → ℝ

/-- Column-major: row `r` and column `c` at `c * 4 + r`. -/
abbrev Mat4 := Fin 16 → ℝ

noncomputable section

def hypot (xs : List ℝ) : ℝ := √(xs.map (· ^ 2)).sum

/-- `x || 1` -/
def orOne (x : ℝ) : ℝ := if x = 0 then 1 else x

def identity : Mat4 := ![1, 0, 0, 0, 0, 1, 0, 0, 0, 0, 1, 0, 0, 0, 0, 1]

def lookAt (eye center up : Vec3) : Mat4 :=
  let zx := eye 0 - center 0
  let zy := eye 1 - center 1
  let zz := eye 2 - center 2
  let zl := orOne (hypot [zx, zy, zz])
  let zx := zx / zl
  let zy := zy / zl
  let zz := zz / zl
  let xx := up 1 * zz - up 2 * zy
  let xy := up 2 * zx - up 0 * zz
  let xz := up 0 * zy - up 1 * zx
  let xl := orOne (hypot [xx, xy, xz])
  let xx := xx / xl
  let xy := xy / xl
  let xz := xz / xl
  let yx := zy * xz - zz * xy
  let yy := zz * xx - zx * xz
  let yz := zx * xy - zy * xx
  ![xx, yx, zx, 0,
    xy, yy, zy, 0,
    xz, yz, zz, 0,
    -(xx * eye 0 + xy * eye 1 + xz * eye 2),
    -(yx * eye 0 + yy * eye 1 + yz * eye 2),
    -(zx * eye 0 + zy * eye 1 + zz * eye 2),
    1]

/-- Of a vector of three components. -/
def transform (m : Mat4) (v : Vec3) : Vec4 :=
  let x := v 0
  let y := v 1
  let z := v 2
  let w := 1
  ![m 0 * x + m 4 * y + m 8 * z + m 12 * w,
    m 1 * x + m 5 * y + m 9 * z + m 13 * w,
    m 2 * x + m 6 * y + m 10 * z + m 14 * w,
    m 3 * x + m 7 * y + m 11 * z + m 15 * w]

def length (v : Vec3) : ℝ := hypot [v 0, v 1, v 2]

def dot (a b : Vec3) : ℝ := a 0 * b 0 + a 1 * b 1 + a 2 * b 2

def normalize (v : Vec3) : Vec3 :=
  let l := hypot [v 0, v 1, v 2]
  if l = 0 then ![0, 0, 0] else ![v 0 / l, v 1 / l, v 2 / l]

def sub (a b : Vec3) : Vec3 := ![a 0 - b 0, a 1 - b 1, a 2 - b 2]

def scale (v : Vec3) (s : ℝ) : Vec3 := ![v 0 * s, v 1 * s, v 2 * s]

/-- Whether the sphere about the origin hides the point. -/
def occludedBySphere (eye : Vec3) (px py pz r : ℝ) : Bool :=
  let dx := px - eye 0
  let dy := py - eye 1
  let dz := pz - eye 2
  let a := dx * dx + dy * dy + dz * dz
  if a = 0 then false
  else
    let b := eye 0 * dx + eye 1 * dy + eye 2 * dz
    let c := eye 0 * eye 0 + eye 1 * eye 1 + eye 2 * eye 2 - r * r
    let disc := b * b - a * c
    if disc ≤ 0 then false
    else
      let t := (-b - √disc) / a
      t > 0 ∧ t < 1

/-- The upper left of a matrix. -/
def rotation (m : Mat4) : Matrix (Fin 3) (Fin 3) ℝ :=
  !![m 0, m 4, m 8; m 1, m 5, m 9; m 2, m 6, m 10]

/-- The view of an eye, with the rows of its rotation. -/
def viewOf (x y z eye : Vec3) : Mat4 :=
  ![x 0, y 0, z 0, 0,
    x 1, y 1, z 1, 0,
    x 2, y 2, z 2, 0,
    -dot x eye, -dot y eye, -dot z eye, 1]

/-- A vector over its length, or the vector itself where that is zero. -/
def overLength (v : Vec3) : Vec3 := fun i => v i / orOne (hypot [v 0, v 1, v 2])

/-- `z` of `lookAt`. -/
def backward (eye center : Vec3) : Vec3 := overLength (eye - center)

/-- `x` of `lookAt`. -/
def rightward (eye center up : Vec3) : Vec3 := overLength (up ⨯₃ backward eye center)

end

end Math3

namespace SatCamera
open Real (pi arccos)
open Math3

noncomputable section

/-- Component of `v` perpendicular to the unit vector `f`. -/
def perp (v f : Vec3) : Vec3 := sub v (scale f (dot v f))

/-- The components of a velocity, `none` for one that is not a finite number. -/
abbrev Velocity := Fin 3 → Option ℝ

/-- `velUnits`, when `velValid`. -/
def valid (velUnits : Option Velocity) : Option Vec3 := do
  let v ← velUnits
  some ![← v 0, ← v 1, ← v 2]

/-- The candidate, after both fallbacks. -/
def upC (velUnits : Option Velocity) (f : Vec3) : Vec3 :=
  let upC := (valid velUnits).elim ![0, 0, 0] (perp · f)
  let upC := if length upC < 1e-6 then perp ![0, 0, 1] f else upC
  if length upC < 1e-6 then perp ![1, 0, 0] f else upC

/-- The boresight: nadir. -/
def boresight (eye : Vec3) : Vec3 := normalize (scale eye (-1))

def satViewMatrix (posUnits : Option Vec3) (velUnits : Option Velocity) : Option Mat4 :=
  match posUnits with
  | none => none
  | some eye =>
    if ¬ 1e-9 ≤ length eye then none
    else some (lookAt eye ![0, 0, 0] (normalize (upC velUnits (boresight eye))))

def DEG : ℝ := pi / 180
def SAT_FOV_DEG : ℝ := 170
def SAT_NEAR : ℝ := 0.05
def SAT_FAR : ℝ := 1000

def clamp (x lo hi : ℝ) : ℝ := max lo (min hi x)

structure Ndc where
  x : ℝ
  y : ℝ
  depth : ℝ
  theta : ℝ

def fisheyeProjectNdc (viewMatrix : Mat4) (worldPoint : Vec3) (aspect : ℝ)
    (fovDeg : ℝ := SAT_FOV_DEG) : Option Ndc :=
  let thetaMax := fovDeg / 2 * DEG
  let vp := transform viewMatrix worldPoint
  let v := ![vp 0, vp 1, vp 2]
  let rho := length v
  if rho < 1e-9 then none
  else
    let dir := scale v (1 / rho)
    let theta := arccos (clamp (-dir 2) (-1) 1)
    let depth := clamp ((rho - SAT_NEAR) / (SAT_FAR - SAT_NEAR)) 0 1 * 2 - 1
    let pLen := hypot [dir 0, dir 1]
    if pLen < 1e-6 then
      if theta > pi / 2 then none
      else some { x := 0, y := 0, depth, theta }
    else
      let r := theta / thetaMax
      some { x := r * (dir 0 / pLen) / aspect, y := r * (dir 1 / pLen), depth, theta }

end

end SatCamera

namespace Renderer
open scoped Matrix
open Real (pi arccos)
open Math3 (Vec3 Vec4 Mat4 hypot identity transform length scale)
open SatCamera (DEG SAT_FOV_DEG SAT_NEAR SAT_FAR Ndc fisheyeProjectNdc)

noncomputable section

def SAT_THETA_MAX : ℝ := SAT_FOV_DEG / 2 * DEG

/-- The built-in `clamp`. -/
def clampGl (x minVal maxVal : ℝ) : ℝ := min (max x minVal) maxVal

/-- The built-in `length`, of as many components. -/
def lengthGl (xs : List ℝ) : ℝ := √(xs.map (· ^ 2)).sum

/-- A `mat4` times a `vec4`. -/
def mulGl (m : Mat4) (v : Vec4) : Vec4 := fun r => ∑ c : Fin 4, m ⟨c * 4 + r, by omega⟩ * v c

/-- Behind or at the eye. -/
def cull : Vec4 := ![0, 0, -3, 1]

def fisheyePosition (viewPos : Vec4) (thetaMax aspect : ℝ) (depthRange : Fin 2 → ℝ) : Vec4 :=
  let rho := lengthGl [viewPos 0, viewPos 1, viewPos 2]
  if rho < 1e-9 then cull
  else
    let dir : Vec3 := ![viewPos 0 / rho, viewPos 1 / rho, viewPos 2 / rho]
    let theta := arccos (clampGl (-dir 2) (-1) 1)
    let depth :=
      clampGl ((rho - depthRange 0) / (depthRange 1 - depthRange 0)) 0 1 * 2 - 1
    let pLen := lengthGl [dir 0, dir 1]
    if pLen < 1e-6 then
      if theta > 1.5707963 then cull
      else ![0, 0, depth, 1]
    else
      let r := theta / thetaMax
      ![r * (dir 0 / pLen) / aspect, r * (dir 1 / pLen), depth, 1]

/-- `gl_Position` of a vertex, with the uniforms of `setTransformUniforms`. -/
def glPosition (view : Mat4) (aspectGl : ℝ) (aPos : Vec3) : Vec4 :=
  fisheyePosition (mulGl view ![aPos 0, aPos 1, aPos 2, 1]) SAT_THETA_MAX aspectGl
    ![SAT_NEAR, SAT_FAR]

end

end Renderer

namespace OrbitCamera
open Math3 (Vec3 Mat4 lookAt occludedBySphere)
open SatCamera (DEG)
open Real (cos sin exp)

noncomputable section

def PITCH_LIMIT : ℝ := 89 * DEG

structure Options where
  target : Vec3 := ![0, 0, 0]
  minDistance : ℝ := 8
  maxDistance : ℝ := 200
  rotateSpeed : ℝ := 0.005
  zoomSpeed : ℝ := 0.0015
  yaw : ℝ := 0
  pitch : ℝ := 20 * DEG
  distance : ℝ := 25

/-- The variables of `createCamera`. -/
structure Camera where
  yaw : ℝ
  pitch : ℝ
  distance : ℝ
  dragging : Bool := false
  lastX : ℝ := 0
  lastY : ℝ := 0

/-- The listeners, and `setDistance`. -/
inductive Event
  | onDown (clientX clientY : ℝ)
  | onMove (clientX clientY : ℝ)
  | onUp
  | onWheel (deltaY : ℝ)
  | setDistance (d : ℝ)

def clampPitch (p : ℝ) : ℝ := max (-PITCH_LIMIT) (min PITCH_LIMIT p)

section Options
variable (options : Options)

def clampDist (d : ℝ) : ℝ := max options.minDistance (min options.maxDistance d)

def createCamera : Camera where
  yaw := options.yaw
  pitch := options.pitch
  distance := clampDist options options.distance

def step (cam : Camera) : Event → Camera
  | .onDown clientX clientY => { cam with dragging := true, lastX := clientX, lastY := clientY }
  | .onMove clientX clientY =>
    if ¬ cam.dragging then cam
    else { cam with
      lastX := clientX
      lastY := clientY
      yaw := cam.yaw - (clientX - cam.lastX) * options.rotateSpeed
      pitch := clampPitch (cam.pitch + (clientY - cam.lastY) * options.rotateSpeed) }
  | .onUp => { cam with dragging := false }
  | .onWheel deltaY => { cam with
      distance := clampDist options (cam.distance * exp (deltaY * options.zoomSpeed)) }
  | .setDistance d => { cam with distance := clampDist options d }

def run (events : List Event) : Camera := events.foldl (step options) (createCamera options)

def getEye (cam : Camera) : Vec3 :=
  let cp := cos cam.pitch
  let sp := sin cam.pitch
  let cy := cos cam.yaw
  let sy := sin cam.yaw
  ![options.target 0 + cam.distance * cp * cy, options.target 1 + cam.distance * cp * sy,
    options.target 2 + cam.distance * sp]

def getViewMatrix (cam : Camera) : Mat4 := lookAt (getEye options cam) options.target ![0, 0, 1]

end Options

def EARTH_R : ℝ := 6.371
def OCCLUDE_R : ℝ := EARTH_R * 0.999

/-- What `createRenderer` asks for. -/
def rendererOptions : Options where
  distance := 25
  yaw := 0
  pitch := 20 * DEG
  minDistance := 8
  maxDistance := 200

/-- `behindEarth` of `createRenderer`. -/
def behindEarth (eye o : Vec3) : Bool := occludedBySphere eye (o 0) (o 1) (o 2) OCCLUDE_R

end

end OrbitCamera
