import OrbitalViewer.NetParse

/-!
# Trails of the renderer

`appendTrails` of `frontend/js/renderer.js`, as `setSnapshot` calls it. Times are
exact numbers. A trail has two feeds, the rows of `trailPoints` on the clock of the
server and the positions of the snapshot on the clock of the page; which one is
the flag `server` of the trail.
-/

namespace Renderer
open NetParse (Vec3 ObjectRow TrailPointRow Satellite)

def TRAIL_CAP : ℕ := 64
def SERVER_TRAIL_CAP : ℕ := 512

/-- The categories that `CAT` has an entry for. -/
def CAT : List String := ["debris", "star", "comet", "satellite", "groundHot", "unknown"]

/-- `CAT[cat]` is there; `none` is `undefined` or `null`. -/
def known (cat : Option String) : Bool := cat.any (· ∈ CAT)

/-- An id, or `'sat:'` and an id. -/
inductive Key
  | object (id : ℚ)
  | sat (id : ℚ)
  deriving DecidableEq

structure Sample (W : Type) where
  t : ℚ
  w : W
  deriving DecidableEq

structure Trail (W : Type) where
  cat : Option String
  s : List (Sample W)
  server : Bool := false
  deriving DecidableEq

abbrev Trails (W : Type) := Key → Option (Trail W)

/-- `model.getSnapshot()`, with `Date.parse` of its time, `none` when there is no such time. -/
structure Snapshot where
  serverTimeMs : Option ℚ := none
  satellite : Option Satellite := none
  objects : List ObjectRow := []
  trailPoints : List TrailPointRow := []

/-- `push`, and `shift` when there are too many. -/
def push {W : Type} (cap : ℕ) (x : Sample W) (s : List (Sample W)) : List (Sample W) :=
  if cap < (s ++ [x]).length then (s ++ [x]).tail else s ++ [x]

/-- The category of the last row with the id. -/
def catById (objects : List ObjectRow) (id : ℚ) : Option String :=
  (objects.reverse.find? fun o => o.id = id).map (·.cat)

namespace Trail
variable {W : Type}

/-- The time of the newest sample. -/
def newest (t : Trail W) : Option ℚ := t.s.getLast?.map (·.t)

end Trail

section Append
variable {W : Type} (worldFromMeters : Vec3 → W)

/-- The category that a row of `trailPoints` goes by. -/
def categoryOf (trails : Trails W) (objects : List ObjectRow) (id : ℚ) : Option String :=
  match catById objects id with
  | some cat => some cat
  | none => (trails (.object id)).bind (·.cat)

/-- The time of a row on the clock of the page. -/
def mapped (nowMs serverTimeMs : ℚ) (p : TrailPointRow) : ℚ := nowMs - (serverTimeMs - p.t * 1000)

/-- The row passes both `continue`s. -/
def takes (nowMs serverTimeMs : ℚ) (objects : List ObjectRow) (trails : Trails W)
    (p : TrailPointRow) : Bool :=
  known (categoryOf trails objects p.id) &&
    !((trails (.object p.id)).bind Trail.newest).any (mapped nowMs serverTimeMs p ≤ ·)

def appendPoint (nowMs serverTimeMs : ℚ) (objects : List ObjectRow) (trails : Trails W)
    (p : TrailPointRow) : Trails W :=
  if takes nowMs serverTimeMs objects trails p then
    let s := (trails (.object p.id)).elim [] (·.s)
    Function.update trails (.object p.id) (some {
      cat := categoryOf trails objects p.id
      server := true
      s := push SERVER_TRAIL_CAP ⟨mapped nowMs serverTimeMs p, worldFromMeters p.pos⟩ s })
  else trails

/-- The position of the snapshot is appended. -/
def feeds (trails : Trails W) (o : ObjectRow) : Bool :=
  known (some o.cat) && !(trails (.object o.id)).any (·.server)

def appendObject (nowMs : ℚ) (trails : Trails W) (o : ObjectRow) : Trails W :=
  if feeds trails o then
    let s := (trails (.object o.id)).elim [] (·.s)
    Function.update trails (.object o.id) (some {
      cat := some o.cat
      s := push TRAIL_CAP ⟨nowMs, worldFromMeters o.pos⟩ s })
  else trails

def appendSatellite (nowMs : ℚ) (trails : Trails W) (s : Satellite) : Trails W :=
  let t := (trails (.sat s.id)).getD { cat := none, s := [] }
  Function.update trails (.sat s.id)
    (some { t with s := push TRAIL_CAP ⟨nowMs, worldFromMeters s.pos⟩ t.s })

/-- Trails that were refreshed within the window. -/
def prune (nowMs : ℚ) (trails : Trails W) : Trails W := fun k =>
  (trails k).filter fun t => t.newest.any fun last => ¬ 65000 < nowMs - last

def appendPoints (nowMs : ℚ) (snapshot : Snapshot) (trails : Trails W) : Trails W :=
  match snapshot.serverTimeMs with
  | none => trails
  | some serverTimeMs =>
    snapshot.trailPoints.foldl (appendPoint worldFromMeters nowMs serverTimeMs snapshot.objects) trails

def appendObjects (nowMs : ℚ) (snapshot : Snapshot) (trails : Trails W) : Trails W :=
  snapshot.objects.foldl (appendObject worldFromMeters nowMs) trails

def appendSatelliteOf (nowMs : ℚ) (snapshot : Snapshot) (trails : Trails W) : Trails W :=
  match snapshot.satellite with
  | none => trails
  | some s => appendSatellite worldFromMeters nowMs trails s

def appendTrails (nowMs : ℚ) (snapshot : Option Snapshot) (trails : Trails W) : Trails W :=
  prune nowMs (match snapshot with
    | none => trails
    | some snapshot =>
      appendSatelliteOf worldFromMeters nowMs snapshot
        (appendObjects worldFromMeters nowMs snapshot
          (appendPoints worldFromMeters nowMs snapshot trails)))

end Append

/-- A call of `setSnapshot`. -/
structure Call where
  nowMs : ℚ
  snapshot : Option Snapshot

/-- The trails after the calls. -/
def world {W : Type} (worldFromMeters : Vec3 → W) (calls : List Call) : Trails W :=
  calls.foldl (fun trails c => appendTrails worldFromMeters c.nowMs c.snapshot trails) fun _ => none

end Renderer
