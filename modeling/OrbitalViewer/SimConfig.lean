import OrbitalViewer.Config
import OrbitalViewer.ProtocolOlv2

/-!
# The configuration of the simulator

`tools/simulator/src/sim_config.cpp`, which is `config.cpp` once more with other
settings, other texts, flags that set two fields, and checks of the source mode
and of the port once file and flags are merged.
-/

namespace Olv.Sim
open Ieee (F64)
open Settings (Assignment Fields)

inductive Mode
  | kUnset | kCsv | kGenerate
  deriving DecidableEq

inductive Protocol
  | kOlv1 | kDis | kOlv2
  deriving DecidableEq

structure SimConfig where
  configFile : List Char := []
  mode : Mode := .kUnset
  csvPath : List Char := []
  loop : Bool := false
  generateCount : I32 := 0
  durationSeconds : I32 := 120
  seed : U32 := 1
  destHost : List Char := "127.0.0.1".toList
  destPort : U16 := 47000
  destPortSet : Bool := false
  rateHz : F64 := toDouble 1
  chunk : I32 := 128
  protocol : Protocol := .kOlv1
  disExerciseId : I32 := 1
  disSite : I32 := 1
  disSatelliteEntityId : List Char := "1:1:1".toList
  olv2Points : I32 := 10
  quiet : Bool := false
  showHelp : Bool := false
  deriving DecidableEq

inductive Setting
  | mode | csvPath | loop | generateCount | durationSeconds | seed | destHost | destPort | rateHz
  | chunk | protocol | disExerciseId | disSite | disSatelliteEntityId | olv2Points | quiet
  deriving DecidableEq

namespace Setting

/-- In the order in which the file is asked for them. -/
def all : List Setting :=
  [destHost, destPort, mode, csvPath, loop, generateCount, durationSeconds, seed, rateHz, chunk,
    protocol, disExerciseId, disSite, disSatelliteEntityId, olv2Points, quiet]

/-- What the field of a setting holds. -/
abbrev Field : Setting → Type
  | mode => Mode
  | csvPath | destHost | disSatelliteEntityId => List Char
  | loop | quiet => Bool
  | generateCount | durationSeconds | chunk | disExerciseId | disSite | olv2Points => I32
  | seed => U32
  | destPort => U16
  | rateHz => F64
  | protocol => Protocol

def key : Setting → List Char
  | destHost => "target.host".toList
  | destPort => "target.port".toList
  | mode => "source.mode".toList
  | csvPath => "source.csv_path".toList
  | loop => "source.loop".toList
  | generateCount => "source.generate_count".toList
  | durationSeconds => "source.duration_seconds".toList
  | seed => "source.seed".toList
  | rateHz => "send.rate_hz".toList
  | chunk => "send.chunk".toList
  | protocol => "send.protocol".toList
  | disExerciseId => "send.dis_exercise_id".toList
  | disSite => "send.dis_site".toList
  | disSatelliteEntityId => "send.dis_satellite_entity_id".toList
  | olv2Points => "send.olv2_points".toList
  | quiet => "output.quiet".toList

def ofKey (k : List Char) : Option Setting := all.find? (·.key = k)

end Setting

def SimConfig.get (cfg : SimConfig) : (s : Setting) → s.Field
  | .mode => cfg.mode
  | .csvPath => cfg.csvPath
  | .loop => cfg.loop
  | .generateCount => cfg.generateCount
  | .durationSeconds => cfg.durationSeconds
  | .seed => cfg.seed
  | .destHost => cfg.destHost
  | .destPort => cfg.destPort
  | .rateHz => cfg.rateHz
  | .chunk => cfg.chunk
  | .protocol => cfg.protocol
  | .disExerciseId => cfg.disExerciseId
  | .disSite => cfg.disSite
  | .disSatelliteEntityId => cfg.disSatelliteEntityId
  | .olv2Points => cfg.olv2Points
  | .quiet => cfg.quiet

def SimConfig.set (cfg : SimConfig) : Assignment Setting.Field → SimConfig
  | ⟨.mode, v⟩ => { cfg with mode := v }
  | ⟨.csvPath, v⟩ => { cfg with csvPath := v }
  | ⟨.loop, v⟩ => { cfg with loop := v }
  | ⟨.generateCount, v⟩ => { cfg with generateCount := v }
  | ⟨.durationSeconds, v⟩ => { cfg with durationSeconds := v }
  | ⟨.seed, v⟩ => { cfg with seed := v }
  | ⟨.destHost, v⟩ => { cfg with destHost := v }
  | ⟨.destPort, v⟩ => { cfg with destPort := v, destPortSet := true }
  | ⟨.rateHz, v⟩ => { cfg with rateHz := v }
  | ⟨.chunk, v⟩ => { cfg with chunk := v }
  | ⟨.protocol, v⟩ => { cfg with protocol := v }
  | ⟨.disExerciseId, v⟩ => { cfg with disExerciseId := v }
  | ⟨.disSite, v⟩ => { cfg with disSite := v }
  | ⟨.disSatelliteEntityId, v⟩ => { cfg with disSatelliteEntityId := v }
  | ⟨.olv2Points, v⟩ => { cfg with olv2Points := v }
  | ⟨.quiet, v⟩ => { cfg with quiet := v }

theorem SimConfig.get_set (cfg : SimConfig) (a : Assignment Setting.Field) (s : Setting) :
    (cfg.set a).get s = (a.at s).getD (cfg.get s) := by
  obtain ⟨t, v⟩ := a
  by_cases h : t = s
  · subst h
    rw [Settings.at_self]
    cases t <;> rfl
  · rw [Settings.at_ne h]
    cases t <;> cases s <;> first | rfl | exact absurd rfl h

def simFields : Fields SimConfig Setting.Field := ⟨SimConfig.get, SimConfig.set, SimConfig.get_set⟩

/-! ## Checks -/

def validRateHz (v : F64) : Bool := validRate 50 v
def validChunk (v : ℤ) : Bool := 1 ≤ v && v ≤ Proto.kMaxObjectsPerPacket.toNat
def validGenerateCount (v : ℤ) : Bool := 1 ≤ v && v ≤ 5000
def validDurationSeconds (v : ℤ) : Bool := 0 ≤ v
def validSeed (v : ℤ) : Bool := 0 ≤ v && v ≤ 4294967295
def validSite (v : ℤ) : Bool := 0 ≤ v && v ≤ 65535
def validSatelliteEntityId (s : List Char) : Bool := (parseDisEntityId s).isSome
def validOlv2Points (v : ℤ) : Bool := 1 ≤ v && v ≤ Proto.Olv2.kMaxPoints.toNat

def modeOf (s : List Char) : Option Mode :=
  if s = "csv".toList then some .kCsv
  else if s = "generate".toList then some .kGenerate
  else none

def protocolOf (s : List Char) : Option Protocol :=
  if s = "olv1".toList then some .kOlv1
  else if s = "dis".toList then some .kDis
  else if s = "olv2".toList then some .kOlv2
  else none

/-! ## The file -/

section File
variable (path : List Char)

/-- What the file is rejected with. -/
def detail (key : List Char) (what : String) : String :=
  str path ++ ": " ++ Toml.quoted key ++ " " ++ what

variable (s : Setting) (v : Toml.Value)

def wantString : Except String (List Char) :=
  match v with
  | .string t => .ok t
  | _ => .error (detail path s.key "must be a string")

def wantBoolean : Except String Bool :=
  match v with
  | .boolean b => .ok b
  | _ => .error (detail path s.key "must be a boolean")

/-- An integer that passes a check. -/
def wantInteger (valid : ℤ → Bool) (what : String) : Except String ℤ :=
  match v with
  | .integer i => if valid i then .ok i else .error (detail path s.key what)
  | _ => .error (detail path s.key "must be an integer")

def wantInt (valid : ℤ → Bool) (what : String) : Except String I32 := do
  let i ← wantInteger path s v valid what
  .ok (BitVec.ofInt 32 i)

/-- A string that is one of a few words. -/
def wantWord {α : Type} (parse : List Char → Option α) (words : String) : Except String α := do
  let t ← wantString path s v
  match parse t with
  | some a => .ok a
  | none => .error (detail path s.key ("must be " ++ words ++ " (got " ++ Toml.quoted t ++ ")"))

end File

/-- What `applySimConfigFile` makes of the value of a key. -/
def Setting.readFile (path : List Char) : (s : Setting) → Toml.Value → Except String s.Field
  | .destHost, v => do
    let t ← wantString path .destHost v
    if t = [] then .error (detail path Setting.destHost.key "must not be empty") else .ok t
  | .destPort, v => do
    let i ← wantInteger path .destPort v validPort "must be in [1,65535]"
    .ok (BitVec.ofInt 16 i)
  | .mode, v => wantWord path .mode v modeOf "\"csv\" or \"generate\""
  | .csvPath, v => wantString path .csvPath v
  | .loop, v => wantBoolean path .loop v
  | .generateCount, v => wantInt path .generateCount v validGenerateCount "must be in [1,5000]"
  | .durationSeconds, v => wantInt path .durationSeconds v validDurationSeconds "must be >= 0"
  | .seed, v => do
    let i ← wantInteger path .seed v validSeed "must be in [0,4294967295]"
    .ok (BitVec.ofInt 32 i)
  | .rateHz, v => do
    let r ←
      match v with
      | .integer i => .ok (toDouble i)
      | .float f => .ok f
      | _ => .error (detail path Setting.rateHz.key "must be a float or integer")
    if validRateHz r then .ok r
    else .error (detail path Setting.rateHz.key "must be > 0 and <= 50")
  | .chunk, v => wantInt path .chunk v validChunk "must be in [1,128]"
  | .protocol, v => wantWord path .protocol v protocolOf "\"olv1\", \"dis\", or \"olv2\""
  | .disExerciseId, v => wantInt path .disExerciseId v validExerciseId "must be in [0,255]"
  | .disSite, v => wantInt path .disSite v validSite "must be in [0,65535]"
  | .disSatelliteEntityId, v => do
    let t ← wantString path .disSatelliteEntityId v
    if validSatelliteEntityId t then .ok t
    else .error (detail path Setting.disSatelliteEntityId.key
      "must be \"site:application:entity\" (three decimal uint16s)")
  | .olv2Points, v => wantInt path .olv2Points v validOlv2Points "must be in [1,25]"
  | .quiet, v => wantBoolean path .quiet v

/-- One `take`. -/
def applyKey (path : List Char) (values : List (List Char × Toml.Value)) (cfg : SimConfig)
    (s : Setting) : Except String SimConfig :=
  match values.lookup s.key with
  | none => .ok cfg
  | some v =>
    match s.readFile path v with
    | .error err => .error err
    | .ok v => .ok (cfg.set ⟨s, v⟩)

def applySimConfigFile (strtod : Toml.Strtod) (files : Toml.Files) (path : List Char)
    (cfg : SimConfig) : Except String SimConfig :=
  let parsed := Toml.parseFile strtod files path
  if !parsed.ok then .error (fileError path parsed)
  else do
    let cfg ← Setting.all.foldlM (applyKey path parsed.values) cfg
    match (Toml.inKeyOrder parsed.values).filter fun e => (Setting.ofKey e.1).isNone with
    | [] => .ok cfg
    | e :: _ => .error (detail path e.1 "unknown key")

/-! ## The command line -/

/-- The flags that take a value. -/
inductive ValueFlag
  | csv | generate | dest | port | protocol | rate | chunk | duration | seed
  deriving DecidableEq

namespace ValueFlag

def all : List ValueFlag := [csv, generate, dest, port, protocol, rate, chunk, duration, seed]

def name : ValueFlag → List Char
  | csv => "--csv".toList
  | generate => "--generate".toList
  | dest => "--dest".toList
  | port => "--port".toList
  | protocol => "--protocol".toList
  | rate => "--rate".toList
  | chunk => "--chunk".toList
  | duration => "--duration".toList
  | seed => "--seed".toList

def ofName (arg : List Char) : Option ValueFlag := all.find? (·.name = arg)

def noValue (f : ValueFlag) : String := str f.name ++ " requires a value"

def expected (f : ValueFlag) (what : String) : String := str f.name ++ ": expected " ++ what

/-- The value, if there is one and it is read. -/
def want {α : Type} (f : ValueFlag) (value : Option (List Char)) (parse : List Char → Option α)
    (what : String) : Except String α :=
  match value.bind parse with
  | some a => .ok a
  | none => .error (f.expected what)

def wantInteger (f : ValueFlag) (value : Option (List Char)) (valid : ℤ → Bool) (what : String) :
    Except String ℤ := f.want value (fun v => (parseInt64 v).filter valid) what

/-- What the branch of `parseSimArgs` for a flag assigns. -/
def read (f : ValueFlag) (value : Option (List Char)) :
    Except String (List (Assignment Setting.Field)) :=
  match f with
  | csv =>
    match value with
    | some v => .ok [⟨.mode, .kCsv⟩, ⟨.csvPath, v⟩]
    | none => .error csv.noValue
  | generate => do
    let n ← generate.wantInteger value validGenerateCount "an integer in [1,5000]"
    .ok [⟨.mode, .kGenerate⟩, ⟨.generateCount, BitVec.ofInt 32 n⟩]
  | dest =>
    match value with
    | some v => .ok [⟨.destHost, v⟩]
    | none => .error dest.noValue
  | port => do
    let n ← port.wantInteger value validPort "an integer in [1,65535]"
    .ok [⟨.destPort, BitVec.ofInt 16 n⟩]
  | protocol => do
    let p ← protocol.want value protocolOf "\"olv1\", \"dis\", or \"olv2\""
    .ok [⟨.protocol, p⟩]
  | rate => do
    let r ← rate.want value (fun v => (Olv.parseDouble v).filter validRateHz) "0 < HZ <= 50"
    .ok [⟨.rateHz, r⟩]
  | chunk => do
    let n ← chunk.wantInteger value validChunk "an integer in [1,128]"
    .ok [⟨.chunk, BitVec.ofInt 32 n⟩]
  | duration => do
    let n ← duration.wantInteger value validDurationSeconds "an integer >= 0"
    .ok [⟨.durationSeconds, BitVec.ofInt 32 n⟩]
  | seed => do
    let n ← seed.wantInteger value validSeed "an integer in [0,4294967295]"
    .ok [⟨.seed, BitVec.ofInt 32 n⟩]

end ValueFlag

structure State where
  cfg : SimConfig
  haveCsvFlag : Bool := false
  haveGenerateFlag : Bool := false

def applyFlag (st : State) (f : ValueFlag) (value : Option (List Char)) : Except String State :=
  match f.read value with
  | .error err => .error err
  | .ok as => .ok {
      cfg := simFields.assign st.cfg as
      haveCsvFlag := st.haveCsvFlag || f = .csv
      haveGenerateFlag := st.haveGenerateFlag || f = .generate }

/-- The port that follows the protocol when nothing set one. -/
def withDefaultPort (cfg : SimConfig) : SimConfig :=
  if cfg.protocol = .kDis ∧ cfg.destPortSet = false then { cfg with destPort := 47001 }
  else if cfg.protocol = .kOlv2 ∧ cfg.destPortSet = false then { cfg with destPort := 47002 }
  else cfg

/-- The checks of the merged configuration. -/
def finish (st : State) : Except String SimConfig :=
  if st.haveCsvFlag ∧ st.haveGenerateFlag then .error "--csv and --generate cannot both be given"
  else if st.cfg.mode = .kUnset then
    .error "no data source: use --csv/--generate or set source.mode in the config file"
  else if st.cfg.mode = .kCsv ∧ st.cfg.csvPath = [] then
    .error "csv mode requires a csv_path (--csv PATH or source.csv_path in the config file)"
  else if st.cfg.mode = .kGenerate ∧ validGenerateCount st.cfg.generateCount.toInt = false then
    .error ("generate mode requires generate_count in [1,5000] (--generate N or " ++
      "source.generate_count in the config file)")
  else .ok (withDefaultPort st.cfg)

/-- The second pass. -/
def applyArgs (st : State) : List (List Char) → Except String SimConfig
  | [] => finish st
  | arg :: rest =>
    if arg = configFlag then
      match rest with
      | [] => finish st
      | _ :: rest => applyArgs st rest
    else if arg = "--help".toList then .ok { st.cfg with showHelp := true }
    else if arg = "--quiet".toList then
      applyArgs { st with cfg := { st.cfg with quiet := true } } rest
    else if arg = "--loop".toList then
      applyArgs { st with cfg := { st.cfg with loop := true } } rest
    else
      match ValueFlag.ofName arg with
      | none => .error ("unknown flag: " ++ str arg)
      | some f =>
        match rest with
        | [] =>
          match applyFlag st f none with
          | .error err => .error err
          | .ok st => finish st
        | value :: rest =>
          match applyFlag st f (some value) with
          | .error err => .error err
          | .ok st => applyArgs st rest

def parseSimArgs (strtod : Toml.Strtod) (files : Toml.Files) (args : List (List Char)) :
    Except String SimConfig := do
  let path ← locateConfig "--config: specified more than once" "--config requires a value" none args
  let cfg ←
    match path with
    | none => .ok {}
    | some path => applySimConfigFile strtod files path { configFile := path }
  applyArgs { cfg } args

end Olv.Sim
