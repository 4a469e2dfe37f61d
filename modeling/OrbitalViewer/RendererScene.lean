import OrbitalViewer.Lib.Entries
import OrbitalViewer.RendererTrails

/-!
# The scene of the renderer

What `createRenderer` of `frontend/js/renderer.js` keeps between frames: the last
snapshot and settings, and the buffers made of them. A snapshot rebuilds all of the
buffers, settings those that depend on them. The coordinates of the scene are
exact numbers.
-/

namespace Renderer
open NetParse (Vec3 ObjectRow TrailPointRow Satellite)

structure Point where
  x : ℚ
  y : ℚ
  z : ℚ
  deriving DecidableEq

structure Color where
  r : ℚ
  g : ℚ
  b : ℚ
  deriving DecidableEq

def SCALE : ℚ := 1 / 10 ^ 6
def MAX_OBJECTS : ℕ := 5000

/-! ## Settings -/

structure RenderSettings where
  showTrails : Bool
  trailSeconds : ℚ
  showLabels : Bool
  showSky : Bool
  viewMode : String
  categories : List (String × Bool)

/-- What `applyRendererSettings` of `main.js` passes. -/
structure GivenSettings where
  showTrails : Bool
  trailSeconds : ℤ
  showLabels : Bool
  showSky : Bool
  categories : List (String × Bool)
  viewMode : String

/-- Each category, shown unless it is given as `false`. -/
def normalizeCategories (c : List (String × Bool)) : List (String × Bool) :=
  CAT.map fun cat => (cat, c.lookup cat != some false)

def normalizeSettings : Option GivenSettings → RenderSettings
  | none => {
      showTrails := false
      trailSeconds := 20
      showLabels := false
      showSky := true
      viewMode := "orbit"
      categories := normalizeCategories [] }
  | some s => {
      showTrails := s.showTrails
      trailSeconds := max 0 (min 60 s.trailSeconds)
      showLabels := s.showLabels
      showSky := s.showSky
      viewMode := if s.viewMode = "sat" then "sat" else "orbit"
      categories := normalizeCategories s.categories }

namespace RenderSettings

def hidden (settings : RenderSettings) (cat : String) : Bool :=
  settings.categories.lookup cat = some false

def catVisible (settings : RenderSettings) : Option String → Bool
  | none => true
  | some cat => !settings.hidden cat

end RenderSettings

/-! ## Objects -/

/-- An entry of `CAT`. -/
structure Appearance where
  color : Color
  size : ℕ
  icon : ℕ

def appearance (cat : String) : Option Appearance :=
  if cat = "debris" then some ⟨⟨0xaa / 255, 0xb2 / 255, 0xbd / 255⟩, 10, 0⟩
  else if cat = "star" then some ⟨⟨1, 1, 1⟩, 9, 1⟩
  else if cat = "comet" then some ⟨⟨0x6f / 255, 0xd3 / 255, 1⟩, 14, 2⟩
  else if cat = "satellite" then some ⟨⟨0x58 / 255, 0xd6 / 255, 0x8d / 255⟩, 14, 3⟩
  else if cat = "groundHot" then some ⟨⟨1, 0.5647, 0.251⟩, 13, 4⟩
  else if cat = "unknown" then some ⟨⟨0xc7 / 255, 0x92 / 255, 0xea / 255⟩, 12, 7⟩
  else none

def SAT_COLOR : Color := ⟨1, 0.8353, 0.2902⟩
def GH_LO : Color := ⟨1, 0.5647, 0.251⟩
def GH_HI : Color := ⟨1, 0.1882, 0.1255⟩

/-- `v < 0 ? 0 : v > 1 ? 1 : v`. -/
def clamp01 (v : ℚ) : ℚ := if v < 0 then 0 else if 1 < v then 1 else v

def groundHotColor (k : ℚ) : Color :=
  let t := clamp01 ((k - 300) / (2000 - 300))
  ⟨GH_LO.r + (GH_HI.r - GH_LO.r) * t, GH_LO.g + (GH_HI.g - GH_LO.g) * t,
    GH_LO.b + (GH_HI.b - GH_LO.b) * t⟩

/-- An entry of `renderObjects`, with its vertex. -/
structure Sprite where
  id : ℚ
  cat : String
  w : Point
  color : Color
  size : ℕ
  icon : ℕ

section Objects
variable (worldFromMeters : Vec3 → Point) (settings : RenderSettings)

def sprite (o : ObjectRow) (look : Appearance) : Sprite where
  id := o.id
  cat := o.cat
  w := worldFromMeters o.pos
  color := if o.cat = "groundHot" then groundHotColor o.intensity else look.color
  size := look.size
  icon := look.icon

/-- The loop of `rebuildObjectBuffer`, from the `n`-th sprite on. -/
def objectBuffer (n : ℕ) : List ObjectRow → List Sprite
  | [] => []
  | o :: objs =>
    if n < MAX_OBJECTS then
      match appearance o.cat with
      | none => objectBuffer n objs
      | some look =>
        if settings.hidden o.cat then objectBuffer n objs
        else sprite worldFromMeters o look :: objectBuffer (n + 1) objs
    else []

end Objects

/-! ## Trails -/

/-- The trails in the order of the `Map`. -/
abbrev TrailMap := List (Key × Trail Point)

def TrailMap.get (m : TrailMap) : Trails Point := fun k => m.lookup k

section Append
variable (worldFromMeters : Vec3 → Point)

def setPoint (nowMs serverTimeMs : ℚ) (objects : List ObjectRow) (m : TrailMap)
    (p : TrailPointRow) : TrailMap :=
  if takes nowMs serverTimeMs objects m.get p then
    let s := (m.get (.object p.id)).elim [] (·.s)
    Entries.assign (.object p.id) {
      cat := categoryOf m.get objects p.id
      server := true
      s := push SERVER_TRAIL_CAP ⟨mapped nowMs serverTimeMs p, worldFromMeters p.pos⟩ s } m
  else m

def setObject (nowMs : ℚ) (m : TrailMap) (o : ObjectRow) : TrailMap :=
  if feeds m.get o then
    let s := (m.get (.object o.id)).elim [] (·.s)
    Entries.assign (.object o.id) {
      cat := some o.cat
      s := push TRAIL_CAP ⟨nowMs, worldFromMeters o.pos⟩ s } m
  else m

def setSatellite (nowMs : ℚ) (m : TrailMap) (s : Satellite) : TrailMap :=
  let t := (m.get (.sat s.id)).getD { cat := none, s := [] }
  Entries.assign (.sat s.id) { t with s := push TRAIL_CAP ⟨nowMs, worldFromMeters s.pos⟩ t.s } m

def refreshed (nowMs : ℚ) (t : Trail Point) : Bool := t.newest.any fun last => ¬ 65000 < nowMs - last

def setPoints (nowMs : ℚ) (snap : Snapshot) (m : TrailMap) : TrailMap :=
  match snap.serverTimeMs with
  | none => m
  | some serverTimeMs =>
    snap.trailPoints.foldl (setPoint worldFromMeters nowMs serverTimeMs snap.objects) m

def setObjects (nowMs : ℚ) (snap : Snapshot) (m : TrailMap) : TrailMap :=
  snap.objects.foldl (setObject worldFromMeters nowMs) m

def setSatelliteOf (nowMs : ℚ) (snap : Snapshot) (m : TrailMap) : TrailMap :=
  match snap.satellite with
  | none => m
  | some s => setSatellite worldFromMeters nowMs m s

/-- `appendTrails`, on the `Map`. -/
def TrailMap.append (nowMs : ℚ) (snapshot : Option Snapshot) (m : TrailMap) : TrailMap :=
  let m := match snapshot with
    | none => m
    | some snap =>
      setSatelliteOf worldFromMeters nowMs snap
        (setObjects worldFromMeters nowMs snap (setPoints worldFromMeters nowMs snap m))
  m.filter fun e => refreshed nowMs e.2

end Append

def Key.isSat : Key → Bool
  | sat _ => true
  | object _ => false

def trailColorFor : Option String → Color
  | none => SAT_COLOR
  | some cat =>
    match appearance cat with
    | some look => look.color
    | none => ⟨1, 1, 1⟩

/-- Two samples in succession. -/
structure Step where
  a : Sample Point
  b : Sample Point

def Trail.steps (t : Trail Point) : List Step := List.zipWith Step.mk t.s t.s.tail

namespace Step

def age (ref t : ℚ) : ℚ := (ref - t) / 1000

def tooOld (ref secs : ℚ) (step : Step) : Bool := secs < age ref step.b.t

/-- Shorter than a hundred metres. -/
def degenerate (step : Step) : Bool :=
  let dx := step.b.w.x - step.a.w.x
  let dy := step.b.w.y - step.a.w.y
  let dz := step.b.w.z - step.a.w.z
  dx * dx + dy * dy + dz * dz < 1 / 10 ^ 8

def vertex (ref secs : ℚ) (col : Color) (s : Sample Point) : List ℚ :=
  [s.w.x, s.w.y, s.w.z, col.r, col.g, col.b, clamp01 (1 - age ref s.t / secs)]

end Step

section Buffer
variable (settings : RenderSettings) (ref : ℚ)

/-- A trail passes the `continue`s at its head. -/
def trailShown (e : Key × Trail Point) : Bool :=
  !(settings.viewMode = "sat" && e.1.isSat) && settings.catVisible e.2.cat

/-- The first pass. -/
def segCount (m : TrailMap) : ℕ :=
  m.foldl (fun n e =>
    if trailShown settings e then
      e.2.steps.foldl (fun n step =>
        if step.tooOld ref settings.trailSeconds then n
        else if step.degenerate then n
        else n + 1) n
    else n) 0

/-- The second pass. -/
def segFloats (m : TrailMap) : List ℚ :=
  m.foldl (fun floats e =>
    if trailShown settings e then
      let col := trailColorFor e.2.cat
      e.2.steps.foldl (fun floats step =>
        if step.tooOld ref settings.trailSeconds then floats
        else if step.degenerate then floats
        else floats ++ Step.vertex ref settings.trailSeconds col step.a ++
          Step.vertex ref settings.trailSeconds col step.b) floats
    else floats) []

end Buffer

/-- `while (cap < need) cap *= 2`; an array that is not empty. -/
def grow (need cap : ℕ) : ℕ :=
  if 0 < cap ∧ cap < need then grow need (cap * 2) else cap
  termination_by need - cap

/-! ## The renderer -/

structure SatRender where
  id : ℚ
  w : Point

structure Scene where
  settings : RenderSettings := normalizeSettings none
  snapshot : Option Snapshot := none
  selectedId : Option ℚ := none
  lastSnapNow : ℚ := 0
  /-- `Date.now()` when the renderer was made, then a time of the server. -/
  sceneEpochMs : ℚ
  sceneEpochBaseNow : Option ℚ := none
  sprites : List Sprite := []
  satRender : Option SatRender := none
  /-- The two ends of the velocity line. -/
  velocity : Option (Point × Point) := none
  trails : TrailMap := []
  /-- The length of `trailArr`. -/
  trailArr : ℕ := 4096
  trailVertCount : ℕ := 0
  /-- What was uploaded last. -/
  trailBuf : List ℚ := []

namespace Scene

def sceneNowMs (frameNow : ℚ) (sc : Scene) : ℚ × Scene :=
  match sc.sceneEpochBaseNow with
  | none => (sc.sceneEpochMs, { sc with sceneEpochBaseNow := some frameNow })
  | some base => (sc.sceneEpochMs + (frameNow - base), sc)

section Rebuild
variable (worldFromMeters : Vec3 → Point)

def rebuildObjectBuffer (sc : Scene) : Scene :=
  { sc with sprites := objectBuffer worldFromMeters sc.settings 0 (sc.snapshot.elim [] (·.objects)) }

/-- A minute ahead, unclamped. -/
def velocityEnd (s : Satellite) : Point :=
  ⟨(s.pos.1 + s.vel.1 * 60) * SCALE, (s.pos.2.1 + s.vel.2.1 * 60) * SCALE,
    (s.pos.2.2 + s.vel.2.2 * 60) * SCALE⟩

def rebuildSatellite (sc : Scene) : Scene :=
  match sc.snapshot.bind (·.satellite) with
  | none => { sc with satRender := none, velocity := none }
  | some s =>
    let w := worldFromMeters s.pos
    { sc with satRender := some ⟨s.id, w⟩, velocity := some (w, velocityEnd s) }

def rebuildTrailBuffer (sc : Scene) : Scene :=
  let sc := { sc with trailVertCount := 0 }
  if !sc.settings.showTrails || !(0 < sc.settings.trailSeconds : Bool) then sc
  else
    let count := segCount sc.settings sc.lastSnapNow sc.trails
    if count = 0 then sc
    else
      let floatsNeeded := count * 2 * 7
      { sc with
        trailArr := if sc.trailArr < floatsNeeded then grow floatsNeeded sc.trailArr else sc.trailArr
        trailVertCount := count * 2
        trailBuf := (segFloats sc.settings sc.lastSnapNow sc.trails).take floatsNeeded }

/-- `none` is a time that is absent or does not parse. -/
def anchorEpoch (serverTimeMs : Option ℚ) (sc : Scene) : Scene :=
  match serverTimeMs with
  | none => sc
  | some t => { sc with sceneEpochMs := t, sceneEpochBaseNow := some sc.lastSnapNow }

def setSnapshot (snap : Option Snapshot) (nowMs : ℚ) (sc : Scene) : Scene :=
  let sc := ({ sc with snapshot := snap, lastSnapNow := nowMs } : Scene).anchorEpoch
    (snap.bind (·.serverTimeMs))
  let sc := { sc with trails := sc.trails.append worldFromMeters sc.lastSnapNow sc.snapshot }
  ((sc.rebuildObjectBuffer worldFromMeters).rebuildSatellite worldFromMeters).rebuildTrailBuffer

def setSettings (s : GivenSettings) (sc : Scene) : Scene :=
  (({ sc with settings := normalizeSettings (some s) } : Scene).rebuildObjectBuffer
    worldFromMeters).rebuildTrailBuffer

def setSelected (idOrNull : Option ℚ) (sc : Scene) : Scene := { sc with selectedId := idOrNull }

/-- A call of the public API, other than `resize` and `pick`. -/
inductive Call
  | setSnapshot (snap : Option Snapshot) (nowMs : ℚ)
  | setSettings (s : GivenSettings)
  | setSelected (idOrNull : Option ℚ)
  | frame (nowMs : ℚ)

def step (sc : Scene) : Call → Scene
  | .setSnapshot snap nowMs => sc.setSnapshot worldFromMeters snap nowMs
  | .setSettings s => sc.setSettings worldFromMeters s
  | .setSelected idOrNull => sc.setSelected idOrNull
  | .frame nowMs => (sc.sceneNowMs nowMs).2

/-- `createRenderer`, and then the calls. -/
def run (dateNow : ℚ) (calls : List Call) : Scene :=
  calls.foldl (step worldFromMeters) { sceneEpochMs := dateNow }

end Rebuild

/-- What `drawLines(trailBuf, trailVertCount)` draws. -/
def drawnTrails (sc : Scene) : List ℚ := sc.trailBuf.take (sc.trailVertCount * 7)

end Scene
end Renderer
