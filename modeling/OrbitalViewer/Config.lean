import OrbitalViewer.CommandLine
import OrbitalViewer.DisInputSource

/-!
# The configuration of the backend

`src/config.cpp`: a record filled from its defaults, a TOML file and the command
line. A setting is a field that a key of the file or a flag can change; the
branches of the two ladders are the cases of `Setting.readFile` and
`ValueFlag.read`.
-/

namespace Olv
open Ieee (F64 Datum nearestEven)
open Settings (Assignment Fields)

/-- The fields of `dis` and of `olv2` stand among the others. -/
structure Config where
  configFile : List Char := []
  udpBind : List Char := "0.0.0.0".toList
  udpPort : U16 := 47000
  wsBind : List Char := "0.0.0.0".toList
  wsPort : U16 := 8765
  logFile : List Char := "olv_backend.log".toList
  logLevel : LogLevel := .kInfo
  expirySeconds : I32 := 15
  broadcastHz : F64 := toDouble 1
  logStderr : Bool := true
  inputMode : InputMode := .kOlv1
  disBindAddress : List Char := "0.0.0.0".toList
  disPort : U16 := 47001
  disExerciseId : Option U8 := none
  disSatelliteEntityId : List Char := []
  olv2BindAddress : List Char := "0.0.0.0".toList
  olv2Port : U16 := 47002
  showHelp : Bool := false
  deriving DecidableEq

inductive Setting
  | udpBind | udpPort | wsBind | wsPort | logFile | logLevel | expirySeconds | broadcastHz
  | logStderr | inputMode | disBindAddress | disPort | disExerciseId | disSatelliteEntityId
  | olv2BindAddress | olv2Port
  deriving DecidableEq

namespace Setting

def all : List Setting :=
  [udpBind, udpPort, wsBind, wsPort, broadcastHz, expirySeconds, logFile, logLevel, logStderr,
    inputMode, disBindAddress, disPort, disExerciseId, disSatelliteEntityId, olv2BindAddress,
    olv2Port]

/-- What the field of a setting holds. -/
abbrev Field : Setting → Type
  | udpBind | wsBind | logFile | disBindAddress | disSatelliteEntityId | olv2BindAddress => List Char
  | udpPort | wsPort | disPort | olv2Port => U16
  | logLevel => LogLevel
  | expirySeconds => I32
  | broadcastHz => F64
  | logStderr => Bool
  | inputMode => InputMode
  | disExerciseId => Option U8

def key : Setting → List Char
  | udpBind => "network.udp_bind".toList
  | udpPort => "network.udp_port".toList
  | wsBind => "network.ws_bind".toList
  | wsPort => "network.ws_port".toList
  | broadcastHz => "broadcast.hz".toList
  | expirySeconds => "state.expiry_seconds".toList
  | logFile => "logging.file".toList
  | logLevel => "logging.level".toList
  | logStderr => "logging.stderr".toList
  | inputMode => "input.mode".toList
  | disBindAddress => "input.dis_bind".toList
  | disPort => "input.dis_port".toList
  | disExerciseId => "input.dis_exercise_id".toList
  | disSatelliteEntityId => "input.dis_satellite_entity_id".toList
  | olv2BindAddress => "input.olv2_bind".toList
  | olv2Port => "input.olv2_port".toList

def ofKey (k : List Char) : Option Setting := all.find? (·.key = k)

end Setting

def Config.get (cfg : Config) : (s : Setting) → s.Field
  | .udpBind => cfg.udpBind
  | .udpPort => cfg.udpPort
  | .wsBind => cfg.wsBind
  | .wsPort => cfg.wsPort
  | .logFile => cfg.logFile
  | .logLevel => cfg.logLevel
  | .expirySeconds => cfg.expirySeconds
  | .broadcastHz => cfg.broadcastHz
  | .logStderr => cfg.logStderr
  | .inputMode => cfg.inputMode
  | .disBindAddress => cfg.disBindAddress
  | .disPort => cfg.disPort
  | .disExerciseId => cfg.disExerciseId
  | .disSatelliteEntityId => cfg.disSatelliteEntityId
  | .olv2BindAddress => cfg.olv2BindAddress
  | .olv2Port => cfg.olv2Port

def Config.set (cfg : Config) : Assignment Setting.Field → Config
  | ⟨.udpBind, v⟩ => { cfg with udpBind := v }
  | ⟨.udpPort, v⟩ => { cfg with udpPort := v }
  | ⟨.wsBind, v⟩ => { cfg with wsBind := v }
  | ⟨.wsPort, v⟩ => { cfg with wsPort := v }
  | ⟨.logFile, v⟩ => { cfg with logFile := v }
  | ⟨.logLevel, v⟩ => { cfg with logLevel := v }
  | ⟨.expirySeconds, v⟩ => { cfg with expirySeconds := v }
  | ⟨.broadcastHz, v⟩ => { cfg with broadcastHz := v }
  | ⟨.logStderr, v⟩ => { cfg with logStderr := v }
  | ⟨.inputMode, v⟩ => { cfg with inputMode := v }
  | ⟨.disBindAddress, v⟩ => { cfg with disBindAddress := v }
  | ⟨.disPort, v⟩ => { cfg with disPort := v }
  | ⟨.disExerciseId, v⟩ => { cfg with disExerciseId := v }
  | ⟨.disSatelliteEntityId, v⟩ => { cfg with disSatelliteEntityId := v }
  | ⟨.olv2BindAddress, v⟩ => { cfg with olv2BindAddress := v }
  | ⟨.olv2Port, v⟩ => { cfg with olv2Port := v }

theorem Config.get_set (cfg : Config) (a : Assignment Setting.Field) (s : Setting) :
    (cfg.set a).get s = (a.at s).getD (cfg.get s) := by
  obtain ⟨t, v⟩ := a
  by_cases h : t = s
  · subst h
    rw [Settings.at_self]
    cases t <;> rfl
  · rw [Settings.at_ne h]
    cases t <;> cases s <;> first | rfl | exact absurd rfl h

def configFields : Fields Config Setting.Field := ⟨Config.get, Config.set, Config.get_set⟩

/-! ## Checks -/

def kPortRangeDesc : String := "1-65535"
def kExpiryRangeDesc : String := "1-3600"
def kHzRangeDesc : String := ">0 and <=60"
def kExerciseRangeDesc : String := "0-255"

def parseLogLevel (s : List Char) : Option LogLevel :=
  let lower := s.map Char.toLower
  if lower = "debug".toList then some .kDebug
  else if lower = "info".toList then some .kInfo
  else if lower = "warn".toList then some .kWarn
  else if lower = "error".toList then some .kError
  else none

def parseInputMode (s : List Char) : Option InputMode :=
  if s = "olv1".toList then some .kOlv1
  else if s = "dis".toList then some .kDis
  else if s = "olv2".toList then some .kOlv2
  else none

/-! ### `printf` with `%g` -/

/-- The exponent of the first significant digit of a positive magnitude. -/
def leadingExponent (mag : ℚ) : ℤ :=
  if 1 ≤ mag then (Nat.log 10 ⌊mag⌋₊ : ℕ) else -(Nat.clog 10 ⌈1 / mag⌉₊ : ℕ)

/-- The magnitude rounded to six digits, and the exponent of the first. -/
def sixDigits (mag : ℚ) : ℕ × ℤ :=
  let e := leadingExponent mag
  let n := nearestEven (mag * 10 ^ (5 - e))
  if n = 10 ^ 6 then (10 ^ 5, e + 1) else (n, e)

/-- A point and what of the digits after it is not a zero at the end. -/
def withPoint (int frac : List Char) : List Char :=
  let frac := frac.rdropWhile (· = '0')
  if frac = [] then int else int ++ '.' :: frac

def formatMagnitude (mag : ℚ) : List Char :=
  if mag = 0 then ['0']
  else
    let (n, e) := sixDigits mag
    let ds := Decimal.digits n
    if e < -4 ∨ 6 ≤ e then
      withPoint (ds.take 1) (ds.drop 1) ++
        'e' :: (if e < 0 then '-' else '+') :: Decimal.padded 2 e.natAbs
    else if 0 ≤ e then withPoint (ds.take (e.toNat + 1)) (ds.drop (e.toNat + 1))
    else withPoint ['0'] (List.replicate (e.natAbs - 1) '0' ++ ds)

def formatDouble (v : F64) : String :=
  match v.datum with
  | .nan neg => str (Decimal.sign neg ++ "nan".toList)
  | .inf neg => str (Decimal.sign neg ++ "inf".toList)
  | .fin neg mag => str (Decimal.sign neg ++ formatMagnitude mag)

example : formatMagnitude (121 / 2) = "60.5".toList ∧
    formatMagnitude 1000000 = "1e+06".toList ∧ formatMagnitude (1 / 8) = "0.125".toList := by
  decide +kernel

/-! ## The file -/

section File
variable (path : List Char) (s : Setting) (v : Toml.Value)

def typeError (expected : String) : String :=
  str path ++ ": " ++ str s.key ++ " expected " ++ expected ++ ", got " ++ v.typeName

def wantString : Except String (List Char) :=
  match v with
  | .string t => .ok t
  | _ => .error (typeError path s v "string")

def wantInteger : Except String ℤ :=
  match v with
  | .integer i => .ok i
  | _ => .error (typeError path s v "integer")

def wantBoolean : Except String Bool :=
  match v with
  | .boolean b => .ok b
  | _ => .error (typeError path s v "boolean")

def wantNumber : Except String F64 :=
  match v with
  | .integer i => .ok (toDouble i)
  | .float f => .ok f
  | _ => .error (typeError path s v "float or integer")

/-- An integer that passes a check. -/
def wantInRange (valid : ℤ → Bool) (desc : String) : Except String ℤ := do
  let i ← wantInteger path s v
  if valid i then .ok i
  else .error (str path ++ ": " ++ str s.key ++ " out of range (" ++ desc ++ "): " ++ toString i)

def wantPort : Except String U16 := do
  let i ← wantInRange path s v validPort kPortRangeDesc
  .ok (BitVec.ofInt 16 i)

/-- A string that is read, or the complaint about it. -/
def wantText {α : Type} (parse : List Char → Option α) (complaint : String) : Except String α := do
  let t ← wantString path s v
  match parse t with
  | some a => .ok a
  | none => .error (str path ++ ": " ++ str s.key ++ complaint ++ str t)

end File

/-- The branch of `applyConfigFile` for a key. -/
def Setting.readFile (path : List Char) : (s : Setting) → Toml.Value → Except String s.Field
  | .udpBind, v => wantString path .udpBind v
  | .udpPort, v => wantPort path .udpPort v
  | .wsBind, v => wantString path .wsBind v
  | .wsPort, v => wantPort path .wsPort v
  | .broadcastHz, v => do
    let hz ← wantNumber path .broadcastHz v
    if validHz hz then .ok hz
    else .error (str path ++ ": " ++ str Setting.broadcastHz.key ++ " out of range (" ++
      kHzRangeDesc ++ "): " ++ formatDouble hz)
  | .expirySeconds, v => do
    let i ← wantInRange path .expirySeconds v validExpiry kExpiryRangeDesc
    .ok (BitVec.ofInt 32 i)
  | .logFile, v => do
    let t ← wantString path .logFile v
    if t = [] then .error (str path ++ ": " ++ str Setting.logFile.key ++ " must not be empty")
    else .ok t
  | .logLevel, v =>
    wantText path .logLevel v parseLogLevel " invalid log level (debug|info|warn|error): "
  | .logStderr, v => wantBoolean path .logStderr v
  | .inputMode, v => wantText path .inputMode v parseInputMode " invalid input mode (olv1|dis|olv2): "
  | .disBindAddress, v => wantString path .disBindAddress v
  | .disPort, v => wantPort path .disPort v
  | .disExerciseId, v => do
    let i ← wantInRange path .disExerciseId v validExerciseId kExerciseRangeDesc
    .ok (some (BitVec.ofInt 8 i))
  | .disSatelliteEntityId, v =>
    wantText path .disSatelliteEntityId v (fun t => (parseDisEntityId t).map fun _ => t)
      (" invalid satellite entity id (expected site:application:entity, three decimal " ++
        "0-65535 values): ")
  | .olv2BindAddress, v => wantString path .olv2BindAddress v
  | .olv2Port, v => wantPort path .olv2Port v

def applyEntry (path : List Char) (cfg : Config) (e : List Char × Toml.Value) :
    Except String Config :=
  match Setting.ofKey e.1 with
  | none => .error (str path ++ ": unknown key " ++ Toml.quoted e.1)
  | some s =>
    match s.readFile path e.2 with
    | .error err => .error err
    | .ok v => .ok (cfg.set ⟨s, v⟩)

/-- What is said of a file that cannot be read. -/
def fileError (path : List Char) (res : Toml.ParseResult) : String :=
  if 0 < res.errorLine then str path ++ ":" ++ toString res.errorLine ++ ": " ++ res.error
  else res.error

def applyConfigFile (strtod : Toml.Strtod) (files : Toml.Files) (path : List Char) (cfg : Config) :
    Except String Config :=
  let res := Toml.parseFile strtod files path
  if !res.ok then .error (fileError path res)
  else (Toml.inKeyOrder res.values).foldlM (applyEntry path) cfg

/-! ## The command line -/

/-- The flags that take a value. -/
inductive ValueFlag
  | udpBind | udpPort | wsBind | wsPort | logFile | logLevel | inputMode | expirySeconds
  | broadcastHz
  deriving DecidableEq

namespace ValueFlag

def all : List ValueFlag :=
  [udpBind, wsBind, udpPort, wsPort, logFile, logLevel, inputMode, expirySeconds, broadcastHz]

def name : ValueFlag → List Char
  | udpBind => "--udp-bind".toList
  | udpPort => "--udp-port".toList
  | wsBind => "--ws-bind".toList
  | wsPort => "--ws-port".toList
  | logFile => "--log-file".toList
  | logLevel => "--log-level".toList
  | inputMode => "--input-mode".toList
  | expirySeconds => "--expiry-seconds".toList
  | broadcastHz => "--broadcast-hz".toList

def ofName (arg : List Char) : Option ValueFlag := all.find? (·.name = arg)

abbrev setting : ValueFlag → Setting
  | udpBind => .udpBind
  | udpPort => .udpPort
  | wsBind => .wsBind
  | wsPort => .wsPort
  | logFile => .logFile
  | logLevel => .logLevel
  | inputMode => .inputMode
  | expirySeconds => .expirySeconds
  | broadcastHz => .broadcastHz

def nonNumeric (f : ValueFlag) (value : List Char) : String :=
  "non-numeric value for " ++ str f.name ++ ": " ++ str value

/-- An integer that passes a check. -/
def argInRange (f : ValueFlag) (value : List Char) (valid : ℤ → Bool) (desc : String) :
    Except String ℤ :=
  match parseInt64 value with
  | none => .error (f.nonNumeric value)
  | some v =>
    if valid v then .ok v
    else .error (str f.name ++ " out of range (" ++ desc ++ "): " ++ str value)

def argPort (f : ValueFlag) (value : List Char) : Except String U16 := do
  let v ← f.argInRange value validPort kPortRangeDesc
  .ok (BitVec.ofInt 16 v)

/-- A text that is read, or the complaint about it. -/
def argText {α : Type} (value : List Char) (parse : List Char → Option α) (complaint : String) :
    Except String α :=
  match parse value with
  | some a => .ok a
  | none => .error (complaint ++ str value)

/-- The branch of `parseArgs` for a flag. -/
def read : (f : ValueFlag) → List Char → Except String f.setting.Field
  | udpBind, value => .ok value
  | wsBind, value => .ok value
  | udpPort, value => udpPort.argPort value
  | wsPort, value => wsPort.argPort value
  | logFile, value => .ok value
  | logLevel, value =>
    argText value parseLogLevel "invalid log level (debug|info|warn|error): "
  | inputMode, value => argText value parseInputMode "invalid input mode (olv1|dis|olv2): "
  | expirySeconds, value => do
    let v ← expirySeconds.argInRange value validExpiry kExpiryRangeDesc
    .ok (BitVec.ofInt 32 v)
  | broadcastHz, value =>
    match parseDouble value with
    | none => .error (broadcastHz.nonNumeric value)
    | some v =>
      if validHz v then .ok v
      else .error (str broadcastHz.name ++ " out of range (" ++ kHzRangeDesc ++ "): " ++ str value)

end ValueFlag

def applyFlag (cfg : Config) (f : ValueFlag) (value : List Char) : Except String Config :=
  match f.read value with
  | .error err => .error err
  | .ok v => .ok (cfg.set ⟨f.setting, v⟩)

/-- The check across fields of the merged configuration. -/
def checkMerged (cfg : Config) : Except String Config :=
  if cfg.inputMode = .kDis ∧ cfg.disSatelliteEntityId = [] then
    .error "input mode 'dis' requires [input] dis_satellite_entity_id (site:application:entity)"
  else .ok cfg

/-- The second pass. -/
def applyArgs (cfg : Config) : List (List Char) → Except String Config
  | [] => checkMerged cfg
  | arg :: rest =>
    if arg = configFlag then
      match rest with
      | [] => checkMerged cfg
      | _ :: rest => applyArgs cfg rest
    else if arg = "--help".toList ∨ arg = "-h".toList then .ok { cfg with showHelp := true }
    else if arg = "--quiet".toList then applyArgs { cfg with logStderr := false } rest
    else
      match rest with
      | [] => .error ("missing value for " ++ str arg)
      | value :: rest =>
        match ValueFlag.ofName arg with
        | none => .error ("unknown flag: " ++ str arg)
        | some f =>
          match applyFlag cfg f value with
          | .error err => .error err
          | .ok cfg => applyArgs cfg rest

def parseArgs (strtod : Toml.Strtod) (files : Toml.Files) (args : List (List Char)) :
    Except String Config := do
  let path ← locateConfig "--config given more than once" "missing value for --config" none args
  let cfg ←
    match path with
    | none => .ok {}
    | some path => applyConfigFile strtod files path { configFile := path }
  applyArgs cfg args

end Olv
