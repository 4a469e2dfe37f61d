import OrbitalViewer.Lib.Json

/-!
# The frontend's parser

`parseStateMessage` of `frontend/js/net.js`. A missing key is `none`, which is
JavaScript's `undefined`. Numbers are exact rationals; `Number.isFinite` is that
the nearest double is.
-/

namespace NetParse
open Json (Value get)

/-- What `parseStateMessage` throws: what `JSON.parse` does, or an error with its
text. The text about the version ends with the value it quotes. -/
inductive ParseError where
  | invalidJson
  | violation (text : String)
  | unsupportedVersion (version : Option Value)

def violation {α : Type} (text : String) : Except ParseError α :=
  .error (.violation ("parseStateMessage: " ++ text))

abbrev Vec3 := ℚ × ℚ × ℚ

structure Satellite where
  id : ℚ
  seq : ℚ
  pos : Vec3
  vel : Vec3
  deriving DecidableEq

structure ObjectRow where
  id : ℚ
  cat : String
  pos : Vec3
  vel : Option Vec3
  conf : ℚ
  intensity : ℚ
  flags : ℚ
  deriving DecidableEq

structure TrailPointRow where
  id : ℚ
  t : ℚ
  pos : Vec3
  deriving DecidableEq

structure Hello where
  serverTime : String
  broadcastHz : ℚ
  limits : List (String × Value)

structure State where
  serverTime : String
  lastDataTime : Option String
  satellite : Option Satellite
  objects : List ObjectRow
  stats : List (String × Value)
  trailPoints : List TrailPointRow

inductive Message where
  | hello (h : Hello)
  | state (s : State)

/-! ## Values -/

/-- From half a step past the largest double on, a number is read as infinity. -/
def kOverflow : ℚ := 2 ^ 1024 - 2 ^ 970

/-- `isFiniteNumber`, with the number. -/
def finiteNumber : Value → Option ℚ
  | .num q => if |q| < kOverflow then some q else none
  | _ => none

/-- `isFiniteNumber` of a key that may be missing. -/
def finiteAt (key : String) (members : List (String × Value)) : Option ℚ :=
  (get key members).bind finiteNumber

/-- `isNumberArray3`, with the numbers. -/
def numberArray3 : Option Value → Option Vec3
  | some (.arr [x, y, z]) => do some (← finiteNumber x, ← finiteNumber y, ← finiteNumber z)
  | _ => none

/-- `Number.isInteger`, with the integer. -/
def integer (v : Value) : Option ℤ := do
  let q ← finiteNumber v
  if q.den = 1 then some q.num else none

def CATEGORY_NAMES : List (ℤ × String) :=
  [(0, "unknown"), (1, "debris"), (2, "star"), (3, "comet"), (4, "satellite"), (5, "groundHot")]

/-! ## Messages -/

def parseSatellite : Option Value → Except ParseError (Option Satellite)
  | none => .ok none
  | some .null => .ok none
  | some (.obj sat) => do
    let (some id, some seq) := (finiteAt "id" sat, finiteAt "seq" sat)
      | violation "satellite.id/seq must be numbers"
    let some pos := numberArray3 (get "pos" sat)
      | violation "satellite.pos must be an array of 3 finite numbers"
    let some vel := numberArray3 (get "vel" sat)
      | violation "satellite.vel must be an array of 3 finite numbers"
    return some { id, seq, pos, vel }
  | some _ => violation "satellite must be an object or null"

/-- The velocity columns: all null, or all numbers. -/
def parseVelocity (path : String) : Value → Value → Value → Except ParseError (Option Vec3)
  | .null, .null, .null => .ok none
  | .null, _, _ => violation (path ++ " velocity must be all-null or all-numeric")
  | vx, vy, vz =>
    match numberArray3 (some (.arr [vx, vy, vz])) with
    | some vel => .ok (some vel)
    | none => violation (path ++ " velocity must be finite numbers or null")

def parseObjectRow (index : ℕ) (row : Value) : Except ParseError ObjectRow := do
  let path := "objects[" ++ toString index ++ "]"
  let .arr [id, cat, px, py, pz, vx, vy, vz, conf, intensity, flags] := row
    | violation (path ++ " must be an 11-element array")
  let some id := finiteNumber id | violation (path ++ ".id must be a number")
  let some cat := integer cat | violation (path ++ ".cat must be an integer")
  let cat := (CATEGORY_NAMES.lookup cat).getD "unknown"
  let some pos := numberArray3 (some (.arr [px, py, pz]))
    | violation (path ++ " position must be finite numbers")
  let vel ← parseVelocity path vx vy vz
  let some conf := finiteNumber conf | violation (path ++ ".conf must be a number")
  let some intensity := finiteNumber intensity | violation (path ++ ".intensity must be a number")
  let some flags := finiteNumber flags | violation (path ++ ".flags must be a number")
  return { id, cat, pos, vel, conf, intensity, flags }

def parseTrailPointRow (index : ℕ) (row : Value) : Except ParseError TrailPointRow :=
  match row with
  | .arr [id, t, px, py, pz] =>
    match finiteNumber id, finiteNumber t, numberArray3 (some (.arr [px, py, pz])) with
    | some id, some t, some pos => .ok { id, t, pos }
    | _, _, _ => malformed index
  | _ => malformed index
where
  malformed (index : ℕ) : Except ParseError TrailPointRow :=
    violation ("trailPoints[" ++ toString index ++
      "] must be a 5-element array of finite numbers")

/-- `rows.map(parse)`, from the row at `index` on. -/
def mapRows {α : Type} (parse : ℕ → Value → Except ParseError α) (index : ℕ) :
    List Value → Except ParseError (List α)
  | [] => .ok []
  | row :: rows => do
    let a ← parse index row
    let as ← mapRows parse (index + 1) rows
    return a :: as

def parseTrailPoints : Option Value → Except ParseError (List TrailPointRow)
  | none => .ok []
  | some (.arr rows) => mapRows parseTrailPointRow 0 rows
  | some _ => violation "trailPoints must be an array"

def parseState (msg : List (String × Value)) : Except ParseError State := do
  let some (.str serverTime) := get "serverTime" msg
    | violation "state.serverTime must be a string"
  let lastDataTime ← match get "lastDataTime" msg with
    | some .null => .ok none
    | some (.str t) => .ok (some t)
    | _ => violation "state.lastDataTime must be a string or null"
  let satellite ← parseSatellite (get "satellite" msg)
  let some (.arr rows) := get "objects" msg | violation "state.objects must be an array"
  let objects ← mapRows parseObjectRow 0 rows
  let some (.obj stats) := get "stats" msg | violation "state.stats must be an object"
  let trailPoints ← parseTrailPoints (get "trailPoints" msg)
  return { serverTime, lastDataTime, satellite, objects, stats, trailPoints }

def parseHello (msg : List (String × Value)) : Except ParseError Hello := do
  let some (.num 1) := get "protocolVersion" msg
    | .error (.unsupportedVersion (get "protocolVersion" msg))
  let some (.str serverTime) := get "serverTime" msg
    | violation "hello.serverTime must be a string"
  let some broadcastHz := finiteAt "broadcastHz" msg
    | violation "hello.broadcastHz must be a number"
  let some (.obj limits) := get "limits" msg | violation "hello.limits must be an object"
  return { serverTime, broadcastHz, limits }

def parseStateMessage (text : List Char) : Except ParseError Message := do
  let some msg := Json.parse text | .error .invalidJson
  let .obj msg := msg | violation "message must be a JSON object"
  let some (.str type) := get "type" msg | violation "missing \"type\" field"
  if type = "hello" then return .hello (← parseHello msg)
  else if type = "state" then return .state (← parseState msg)
  else violation ("unknown message type \"" ++ type ++ "\"")

end NetParse
