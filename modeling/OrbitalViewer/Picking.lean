import OrbitalViewer.Lib.NearMin
import OrbitalViewer.SceneBuffers

/-!
# Picking

`pick` of `frontend/js/renderer.js`. What the cameras make of a point is a parameter.
Among what is drawn within 12 pixels of the click and not behind the Earth, it takes
the nearest (`pick_nearest`).
-/

namespace Renderer
open NetParse (Vec3 ObjectRow)

/-- A point of the canvas, in CSS pixels. -/
structure Screen where
  sx : ℚ
  sy : ℚ

/-- What a view matrix makes of points. -/
structure Lens where
  projectToScreen : Point → Option Screen
  /-- The `x` and `y` of the point as seen from the eye. -/
  transform : Point → ℚ × ℚ

/-- The view of a frame, `activeView`. -/
structure View extends Lens where
  fisheye : Bool
  eye : Point

/-- What the geometry of the scene computes. -/
structure Geometry where
  orbitEye : Point
  orbitLens : Lens
  /-- That of a satellite by its position and velocity, unless it is at the centre. -/
  satLens : Point → Vec3 → Option Lens
  behindEarth : Point → Point → Bool
  hypot : ℚ → ℚ → ℚ

/-- What has an id and a place: the satellite or an object. -/
structure Target where
  id : ℚ
  w : Point

/-- The candidate so far. -/
structure Best where
  id : ℚ
  d : ℚ
  cam : ℚ

/-- The square of the distance to the eye. -/
def camDistance (eye w : Point) : ℚ :=
  (w.x - eye.x) ^ 2 + (w.y - eye.y) ^ 2 + (w.z - eye.z) ^ 2

namespace Scene
section Pick
variable (geo : Geometry) (worldFromMeters : Vec3 → Point)

def computeActiveView (sc : Scene) : View :=
  let orbit : View := { geo.orbitLens with fisheye := false, eye := geo.orbitEye }
  if sc.settings.viewMode = "sat" then
    match sc.snapshot.bind (·.satellite) with
    | none => orbit
    | some s =>
      match geo.satLens (worldFromMeters s.pos) s.vel with
      | none => orbit
      | some lens => { lens with fisheye := true, eye := worldFromMeters s.pos }
  else orbit

def satTarget (sc : Scene) : Option Target := sc.satRender.map fun s => ⟨s.id, s.w⟩

def objectTargets (sc : Scene) : List Target := sc.sprites.map fun s => ⟨s.id, s.w⟩

/-- `none` is the start, where the distances are `Infinity`. -/
def consider (view : View) (x y : ℚ) (best : Option Best) (o : Target) : Option Best :=
  if geo.behindEarth view.eye o.w then best
  else
    match view.projectToScreen o.w with
    | none => best
    | some p =>
      let d := geo.hypot (p.sx - x) (p.sy - y)
      if 12 < d then best
      else
        let cam := camDistance view.eye o.w
        match best with
        | none => some ⟨o.id, d, cam⟩
        | some b =>
          if d < b.d - 1 / 10 ^ 9 ∨ |d - b.d| < 1 / 10 ^ 9 ∧ cam < b.cam then some ⟨o.id, d, cam⟩
          else best

def pick (x y : ℚ) (sc : Scene) : Option ℚ :=
  let view := sc.computeActiveView geo worldFromMeters
  let best := if view.fisheye then none else sc.satTarget.elim none (consider geo view x y none)
  (sc.objectTargets.foldl (consider geo view x y) best).map Best.id

/-! ## What is within reach -/

/-- All that can be picked in a view. -/
def targets (view : View) (sc : Scene) : List Target :=
  (if view.fisheye then [] else sc.satTarget.toList) ++ sc.objectTargets

/-- A target in front of the Earth and within 12 pixels. -/
def reached (view : View) (x y : ℚ) (o : Target) : Option Best :=
  if geo.behindEarth view.eye o.w then none
  else (view.projectToScreen o.w).bind fun p =>
    if 12 < geo.hypot (p.sx - x) (p.sy - y) then none
    else some ⟨o.id, geo.hypot (p.sx - x) (p.sy - y), camDistance view.eye o.w⟩

/-- What is within reach of a click. -/
def reach (x y : ℚ) (sc : Scene) : List Best :=
  let view := sc.computeActiveView geo worldFromMeters
  (sc.targets view).filterMap (reached geo view x y)

end Pick

variable {geo : Geometry} {worldFromMeters : Vec3 → Point} {view : View} {x y : ℚ} {sc : Scene}

/-- The scan of `NearMin`, with the keys of `pick`. -/
def nearest (bs : List Best) : Option Best := NearMin.least Best.d Best.cam (1 / 10 ^ 9) bs

theorem consider_eq (best : Option Best) (o : Target) : consider geo view x y best o =
    (reached geo view x y o).elim best (NearMin.keep Best.d Best.cam (1 / 10 ^ 9) best) := by
  unfold consider reached
  split
  · rfl
  cases view.projectToScreen o.w with
  | none => rfl
  | some p =>
    dsimp only [Option.bind_some]
    split
    · rfl
    cases best <;> rfl

theorem foldl_consider (best : Option Best) (os : List Target) :
    os.foldl (consider geo view x y) best = (os.filterMap (reached geo view x y)).foldl
      (NearMin.keep Best.d Best.cam (1 / 10 ^ 9)) best := by
  induction os generalizing best with
  | nil => rfl
  | cons o os ih =>
    rw [List.foldl_cons, ih, consider_eq]
    cases h : reached geo view x y o with
    | none => rw [List.filterMap_cons_none h, Option.elim_none]
    | some b => rw [List.filterMap_cons_some h, List.foldl_cons, Option.elim_some]

theorem pick_eq (sc : Scene) : sc.pick geo worldFromMeters x y =
    (nearest (sc.reach geo worldFromMeters x y)).map Best.id := by
  unfold pick nearest NearMin.least reach targets
  dsimp only
  rw [List.filterMap_append, List.foldl_append, ← foldl_consider, ← foldl_consider]
  generalize sc.computeActiveView geo worldFromMeters = view
  cases view.fisheye with
  | true => rfl
  | false => cases sc.satTarget <;> rfl

/-- An id of what a snapshot shows: its satellite, unless the view is from there, or an object
of a category that is not hidden. -/
def Shown (settings : RenderSettings) (snapshot : Option Snapshot) (fisheye : Bool) (id : ℚ) : Prop :=
  (fisheye = false ∧ ∃ s, snapshot.bind (·.satellite) = some s ∧ s.id = id) ∨
    ∃ o ∈ snapshot.elim [] (·.objects), o.id = id ∧ settings.hidden o.cat = false

theorem reached_id {o : Target} {b : Best} (h : reached geo view x y o = some b) : b.id = o.id := by
  unfold reached at h
  split at h
  · cases h
  obtain ⟨p, _, hp⟩ := Option.bind_eq_some_iff.mp h
  split at hp
  · cases hp
  · exact Option.some.inj hp ▸ rfl

section Current
variable (hcurrent : sc.Current worldFromMeters)
include hcurrent

theorem Current.target {o : Target} (ho : o ∈ sc.targets view) :
    Shown sc.settings sc.snapshot view.fisheye o.id := by
  rcases List.mem_append.mp ho with hsat | hobject
  · cases hfisheye : view.fisheye with
    | true =>
      rw [hfisheye] at hsat
      cases hsat
    | false =>
      rw [hfisheye, if_neg Bool.false_ne_true, satTarget, hcurrent.satRender, Option.map_map] at hsat
      obtain ⟨s, hs, rfl⟩ := Option.map_eq_some_iff.mp (Option.mem_toList.mp hsat)
      exact .inl ⟨rfl, s, hs, rfl⟩
  · obtain ⟨sp, hsp, rfl⟩ := List.mem_map.mp hobject
    rw [hcurrent.sprites] at hsp
    obtain ⟨row, hrow, hdrawn⟩ := List.mem_filterMap.mp (List.mem_of_mem_take hsp)
    unfold drawn at hdrawn
    split at hdrawn
    · cases hdrawn
    · rename_i hshown
      obtain ⟨look, _, rfl⟩ := Option.map_eq_some_iff.mp hdrawn
      exact .inr ⟨row, hrow, rfl, Bool.not_eq_true _ |>.mp hshown⟩

theorem Current.length_reach : (sc.reach geo worldFromMeters x y).length ≤ 5001 := by
  have hsprites : sc.objectTargets.length ≤ 5000 := by
    rw [objectTargets, List.length_map, hcurrent.sprites]
    exact List.length_take_le _ _
  have hsat : sc.satTarget.toList.length ≤ 1 := by cases sc.satTarget <;> simp
  refine (List.length_filterMap_le _ _).trans ?_
  rw [targets, List.length_append]
  split
  · rw [List.length_nil]
    omega
  · omega

/-- What is picked is shown and near. -/
theorem Current.picked {id : ℚ} (hid : id ∈ sc.pick geo worldFromMeters x y) :
    Shown sc.settings sc.snapshot (sc.computeActiveView geo worldFromMeters).fisheye id ∧
    ∃ b ∈ nearest (sc.reach geo worldFromMeters x y), b ∈ sc.reach geo worldFromMeters x y ∧
      b.id = id ∧ ∀ c ∈ sc.reach geo worldFromMeters x y, b.d ≤ c.d + 5001 / 10 ^ 9 := by
  rw [pick_eq] at hid
  obtain ⟨b, hb, rfl⟩ := Option.map_eq_some_iff.mp hid
  have hmem : b ∈ sc.reach geo worldFromMeters x y := NearMin.least_mem b hb
  refine ⟨?_, b, hb, hmem, rfl, ?_⟩
  · obtain ⟨o, ho, hreached⟩ := List.mem_filterMap.mp hmem
    have hshown := hcurrent.target ho
    rwa [← reached_id hreached] at hshown
  · intro c hc
    refine (NearMin.least_near (by norm_num) b hb c hc).trans (add_le_add_right ?_ _)
    have hlength : ((sc.reach geo worldFromMeters x y).length : ℚ) ≤ 5001 := by
      exact_mod_cast hcurrent.length_reach
    linarith

end Current

theorem pick_none : sc.pick geo worldFromMeters x y = none ↔ sc.reach geo worldFromMeters x y = [] := by
  rw [pick_eq, Option.map_eq_none_iff]
  exact NearMin.least_eq_none_iff

variable (geo worldFromMeters) in
/-- **A click takes the nearest.** After any calls, nothing is picked just when nothing that is
drawn is within reach. What is picked is of the last snapshot and shown under the last
settings, and no more than 5001 billionths of a pixel further than the nearest. Where no two
distances are within a billionth of a pixel, it is the nearest, and of these the one
closest to the eye. -/
theorem pick_nearest (dateNow : ℚ) (calls : List Call) (x y : ℚ) :
    let sc := run worldFromMeters dateNow calls
    let near := sc.reach geo worldFromMeters x y
    (sc.pick geo worldFromMeters x y = none ↔ near = []) ∧
    ∀ id ∈ sc.pick geo worldFromMeters x y,
      Shown (normalizeSettings (given calls).getLast?)
        ((snapshots calls).getLast?.bind (·.snapshot))
        (sc.computeActiveView geo worldFromMeters).fisheye id ∧
      ∃ b ∈ near, b.id = id ∧ (∀ c ∈ near, b.d ≤ c.d + 5001 / 10 ^ 9) ∧
        ((∀ c ∈ near, ∀ c' ∈ near, c.d = c'.d ∨ 1 / 10 ^ 9 < |c.d - c'.d|) →
          ∀ c ∈ near, NearMin.Lexicographic Best.d Best.cam b c) := by
  intro sc near
  obtain ⟨hcurrent, hfollows⟩ := run_current worldFromMeters dateNow calls
  refine ⟨pick_none, ?_⟩
  intro id hid
  obtain ⟨hshown, b, hb, hmem, hbid, hnear⟩ := hcurrent.picked hid
  rw [hfollows.settings, hfollows.snapshot] at hshown
  refine ⟨hshown, b, hmem, hbid, hnear, ?_⟩
  intro hapart
  exact NearMin.least_lexicographic (by norm_num) hapart b hb

end Scene
end Renderer
