import OrbitalViewer.Lib.IeeeRounding
import OrbitalViewer.SimConfig

/-!
# What a value says

Each flag and each key by the kind of its value: a text, a word of a list, a whole
number of a range, or a rate. What the two parsers read off an argument and off a
value of the file is what it says (`ValueFlag.read_meaning`, `Setting.readFile_meaning`).
-/

namespace Olv
open FromChars (signed)
open Ieee (F64 Datum binary64)
open Toml (IsInt64)

/-! ## Arguments -/

/-- The whole number that an argument stands for. -/
def exactWhole (arg : List Char) : Option ℤ :=
  let (neg, ds) := FromChars.minus arg
  if FromChars.isNumeral ds then some (signed neg ds) else none

/-- The number that a decimal argument stands for. -/
def exactArgument (arg : List Char) : Option ℚ :=
  (FromChars.decimal (FromChars.minus arg).2).map fun mag =>
    (Datum.fin (FromChars.minus arg).1 mag).toRat

/-- The nearest double. -/
def nearest (q : ℚ) : F64 := .ofDatum (.fin (q < 0) |q|)

/-- A whole number from `lo` to `hi`. -/
def wholeArgument (lo hi : ℤ) (arg : List Char) : Option ℤ :=
  (exactWhole arg).filter fun i => lo ≤ i ∧ i ≤ hi

/-- A number whose double is above zero and at most `limit`. -/
def rateArgument (limit : ℚ) (arg : List Char) : Option F64 :=
  ((exactArgument arg).map nearest).filter fun v => 0 < v.datum.toRat ∧ v.datum.toRat ≤ limit

/-! ## Values of the file -/

def textOf : Toml.Value → Option (List Char)
  | .string t => some t
  | _ => none

def booleanOf : Toml.Value → Option Bool
  | .boolean b => some b
  | _ => none

def integerOf : Toml.Value → Option ℤ
  | .integer i => some i
  | _ => none

def wholeOf (lo hi : ℤ) (v : Toml.Value) : Option ℤ :=
  (integerOf v).filter fun i => lo ≤ i ∧ i ≤ hi

/-- The rate that a number of the file stands for. -/
def numberOf : Toml.Value → Option F64
  | .integer i => some (toDouble i)
  | .float f => some f
  | _ => none

def rateOf (limit : ℚ) (v : Toml.Value) : Option F64 :=
  (numberOf v).filter fun v => 0 < v.datum.toRat ∧ v.datum.toRat ≤ limit

/-! ## Whole numbers -/

theorem parseInt64_exact (arg : List Char) :
    parseInt64 arg = (exactWhole arg).filter fun i => IsInt64 i := by
  have hlo : ((-2 ^ 63 : ℤ) < 0) := by norm_num
  unfold parseInt64 FromChars.integer exactWhole
  rw [if_pos hlo]
  dsimp only
  cases FromChars.isNumeral (FromChars.minus arg).2 with
  | false => rfl
  | true =>
    rw [if_pos rfl, Option.filter_some, Bool.true_and]
    congr 1
    rw [eq_iff_iff, decide_eq_true_eq, Bool.and_eq_true, decide_eq_true_eq, decide_eq_true_eq]
    rfl

theorem parseInt64_within {lo hi : ℤ} (hlo : -2 ^ 63 ≤ lo) (hhi : hi ≤ 2 ^ 63 - 1)
    (arg : List Char) :
    (parseInt64 arg).filter (fun v => lo ≤ v && v ≤ hi) = wholeArgument lo hi arg := by
  rw [parseInt64_exact, wholeArgument, Option.filter_filter]
  congr 1
  funext i
  rw [← Bool.decide_and, ← Bool.decide_and, decide_eq_decide]
  unfold IsInt64
  constructor
  · exact fun h => h.2
  · exact fun h => ⟨⟨hlo.trans h.1, h.2.trans hhi⟩, h⟩

/-! ## Rates -/

theorem validRate_iff {limit : ℚ} {v : F64} :
    validRate limit v = true ↔
      v.datum.isFinite = true ∧ 0 < v.datum.toRat ∧ v.datum.toRat ≤ limit := by
  unfold validRate
  rw [Bool.and_eq_true]
  cases v.datum with
  | nan neg => simp [Datum.lt, Datum.le, Datum.isFinite]
  | inf neg => cases neg <;> simp [Datum.lt, Datum.le, Datum.isFinite]
  | fin neg mag =>
    rw [Datum.lt_iff rfl rfl, Datum.le_iff rfl rfl]
    simp [Datum.isFinite, Datum.toRat]

theorem validHz_eq : validHz = validRate 60 := by
  funext v
  rw [validHz, F64.datum_ofNat (by decide)]
  rfl

/-- What passes the check was written as a positive number. -/
theorem validRate_pos {limit : ℚ} {neg : Bool} {mag : ℚ} (hmag : 0 ≤ mag)
    (h : validRate limit (.ofDatum (.fin neg mag)) = true) : neg = false ∧ 0 < mag := by
  obtain ⟨_, hpos, _⟩ := validRate_iff.mp h
  rw [F64.datum_ofDatum] at hpos
  cases neg with
  | true => exact absurd hpos (not_lt.mpr (binary64.round_neg_le mag))
  | false =>
    refine ⟨rfl, lt_of_le_of_ne hmag fun hzero => ?_⟩
    subst hzero
    have hround := F64.datum_signed (n := 0) (by decide) false
    rw [F64.datum_ofDatum, Nat.cast_zero] at hround
    rw [hround] at hpos
    exact absurd hpos (by simp [Datum.toRat])

theorem validRate_eq (limit : ℚ) :
    validRate limit = fun v => decide (0 < v.datum.toRat ∧ v.datum.toRat ≤ limit) := by
  funext v
  rw [Bool.eq_iff_iff, validRate_iff, decide_eq_true_iff]
  refine ⟨And.right, fun h => ⟨?_, h⟩⟩
  cases hd : v.datum with
  | fin neg mag => rfl
  | _ =>
    rw [hd] at h
    exact absurd h.1 (lt_irrefl 0)

theorem toRat_abs (q : ℚ) : (Datum.fin (q < 0) |q|).toRat = q := by
  by_cases h : q < 0
  · simp [Datum.toRat, h, abs_of_neg h]
  · simp [Datum.toRat, h, abs_of_nonneg (not_lt.mp h)]

/-- A positive number has one sign and one magnitude. -/
theorem eq_of_pos {neg neg' : Bool} {mag mag' : ℚ} (hmag' : 0 ≤ mag') (hneg : neg = false)
    (hpos : 0 < mag) (h : (Datum.fin neg mag).toRat = (Datum.fin neg' mag').toRat) :
    neg' = neg ∧ mag' = mag := by
  subst hneg
  cases neg' with
  | false => exact ⟨rfl, h.symm⟩
  | true =>
    have h : mag = -mag' := h
    linarith

/-- **The check of a rate lets the same numbers through both ways.** -/
theorem filter_rate {limit : ℚ} {arg : List Char} {neg : Bool} {mag : ℚ} (hmag : 0 ≤ mag)
    (harg : exactArgument arg = some (Datum.fin neg mag).toRat) :
    (parseDouble arg).filter (validRate limit) =
      if validRate limit (.ofDatum (.fin neg mag)) then some (.ofDatum (.fin neg mag)) else none := by
  obtain ⟨mag', hdecimal, hrat⟩ := Option.map_eq_some_iff.mp harg
  have hmag' : 0 ≤ mag' := FromChars.decimal_nonneg hdecimal
  have hfloating := FromChars.floating_decimal binary64 hdecimal
  cases hvalid : validRate limit (.ofDatum (.fin neg mag)) with
  | true =>
    obtain ⟨hneg, hpos⟩ := validRate_pos hmag hvalid
    obtain ⟨hneg', rfl⟩ := eq_of_pos hmag' hneg hpos hrat.symm
    obtain ⟨hfinite, hround, _⟩ := validRate_iff.mp hvalid
    rw [F64.datum_ofDatum] at hfinite hround
    rw [hneg', hfinite] at hfloating
    have hnonzero : ¬ (binary64.round (.fin neg mag')).toRat = 0 := ne_of_gt hround
    rw [parseDouble, hfloating]
    simp [hnonzero, hvalid]
  | false =>
    rw [if_neg (by simp), Option.filter_eq_none_iff]
    intro w hw hvalid'
    obtain ⟨d, hd, rfl⟩ := Option.map_eq_some_iff.mp hw
    rw [hfloating] at hd
    split at hd
    · cases hd
    · obtain rfl := Option.some.inj hd
      obtain ⟨hneg', hpos'⟩ := validRate_pos hmag' hvalid'
      obtain ⟨rfl, rfl⟩ := eq_of_pos hmag hneg' hpos' hrat
      exact absurd hvalid' (by simp [hvalid])

/-- What is not a decimal number is no rate. -/
theorem parseDouble_rate (limit : ℚ) (arg : List Char) :
    (parseDouble arg).filter (validRate limit) = rateArgument limit arg := by
  rw [rateArgument, ← validRate_eq]
  cases harg : exactArgument arg with
  | some q =>
    have hrat := harg.trans (congrArg some (toRat_abs q).symm)
    rw [filter_rate (abs_nonneg q) hrat, Option.map_some, Option.filter_some]
    rfl
  | none =>
    have hdecimal : FromChars.decimal (FromChars.minus arg).2 = none := Option.map_eq_none_iff.mp harg
    rw [Option.map_none, Option.filter_none, Option.filter_eq_none_iff]
    intro v hv hvalid
    obtain ⟨d, hd, rfl⟩ := Option.map_eq_some_iff.mp hv
    obtain ⟨hfinite, _⟩ := validRate_iff.mp hvalid
    rw [F64.datum_ofDatum] at hfinite
    unfold FromChars.floating at hd
    dsimp only at hd
    rw [hdecimal] at hd
    split at hd
    · obtain rfl := Option.some.inj hd
      cases hfinite
    · split at hd
      · obtain rfl := Option.some.inj hd
        cases hfinite
      · cases hd

theorem rateOf_eq (limit : ℚ) (v : Toml.Value) :
    rateOf limit v = (numberOf v).filter (validRate limit) := by
  rw [rateOf, validRate_eq]

/-! ## Outcomes -/

theorem toOption_bind {α β : Type} (x : Except String α) (f : α → Except String β) :
    (x >>= f).toOption = x.toOption.bind fun a => (f a).toOption := by
  cases x <;> rfl

theorem toOption_map {α β : Type} (x : Except String α) (f : α → β) :
    (x.map f).toOption = x.toOption.map f := by
  cases x <;> rfl

theorem toOption_ite {α : Type} (p : Bool) (a : α) (err : String) :
    (if p then Except.ok a else .error err).toOption = if p then some a else none := by
  cases p <;> rfl

theorem toOption_nonempty (t : List Char) (err : String) :
    (if t = [] then Except.error err else .ok t).toOption = (some t).filter (· ≠ []) := by
  rw [Option.filter_some]
  by_cases hempty : t = [] <;> simp [hempty, Except.toOption]

theorem toOption_match {α : Type} (x : Option α) (err : String) :
    (match x with | some a => Except.ok a | none => .error err).toOption = x := by
  cases x <;> rfl

theorem lookup_ite {α β : Type} [DecidableEq α] [BEq α] [LawfulBEq α] (a k : α) (b : β)
    (es : List (α × β)) : ((k, b) :: es).lookup a = if a = k then some b else es.lookup a := by
  rw [List.lookup_cons]
  by_cases h : a = k
  · rw [beq_iff_eq.mpr h, if_pos h]
  · rw [beq_false_of_ne h, if_neg h]

/-! ## Backend -/

def logLevels : List (List Char × LogLevel) :=
  [("debug".toList, .kDebug), ("info".toList, .kInfo), ("warn".toList, .kWarn),
    ("error".toList, .kError)]

def inputModes : List (List Char × InputMode) :=
  [("olv1".toList, .kOlv1), ("dis".toList, .kDis), ("olv2".toList, .kOlv2)]

/-- What the value of a flag sets. -/
def ValueFlag.meaning : (f : ValueFlag) → List Char → Option f.setting.Field
  | udpBind, arg => some arg
  | wsBind, arg => some arg
  | logFile, arg => some arg
  | udpPort, arg => (wholeArgument 1 65535 arg).map (BitVec.ofInt 16)
  | wsPort, arg => (wholeArgument 1 65535 arg).map (BitVec.ofInt 16)
  | logLevel, arg => logLevels.lookup (arg.map Char.toLower)
  | inputMode, arg => inputModes.lookup arg
  | expirySeconds, arg => (wholeArgument 1 3600 arg).map (BitVec.ofInt 32)
  | broadcastHz, arg => rateArgument 60 arg

/-- What the value of a key sets. -/
def Setting.meaning : (s : Setting) → Toml.Value → Option s.Field
  | udpBind, v => textOf v
  | wsBind, v => textOf v
  | disBindAddress, v => textOf v
  | olv2BindAddress, v => textOf v
  | logFile, v => (textOf v).filter (· ≠ [])
  | disSatelliteEntityId, v => (textOf v).filter fun t => (parseDisEntityId t).isSome
  | udpPort, v => (wholeOf 1 65535 v).map (BitVec.ofInt 16)
  | wsPort, v => (wholeOf 1 65535 v).map (BitVec.ofInt 16)
  | disPort, v => (wholeOf 1 65535 v).map (BitVec.ofInt 16)
  | olv2Port, v => (wholeOf 1 65535 v).map (BitVec.ofInt 16)
  | disExerciseId, v => (wholeOf 0 255 v).map fun i => some (BitVec.ofInt 8 i)
  | expirySeconds, v => (wholeOf 1 3600 v).map (BitVec.ofInt 32)
  | broadcastHz, v => rateOf 60 v
  | logLevel, v => (textOf v).bind fun t => logLevels.lookup (t.map Char.toLower)
  | inputMode, v => (textOf v).bind fun t => inputModes.lookup t
  | logStderr, v => booleanOf v

section Backend
variable {path : List Char} {s : Setting} {f : ValueFlag} {v : Toml.Value} {arg : List Char}

theorem wantInRange_toOption (i : ℤ) (valid : ℤ → Bool) (desc : String) :
    (wantInRange path s (.integer i) valid desc).toOption = (some i).filter valid := by
  rw [Option.filter_some, ← toOption_ite]
  rfl

theorem argInRange_toOption (valid : ℤ → Bool) (desc : String) :
    (f.argInRange arg valid desc).toOption = (parseInt64 arg).filter valid := by
  unfold ValueFlag.argInRange
  cases parseInt64 arg with
  | none => rfl
  | some i => rw [Option.filter_some, ← toOption_ite]

theorem wantInRange_meaning (valid : ℤ → Bool) (desc : String) {lo hi : ℤ}
    (hvalid : valid = fun i => lo ≤ i && i ≤ hi) :
    (wantInRange path s v valid desc).toOption = wholeOf lo hi v := by
  cases v with
  | integer i =>
    rw [wantInRange_toOption, hvalid, wholeOf, integerOf]
    simp only [Bool.decide_and]
  | _ => rfl

theorem argInRange_meaning (valid : ℤ → Bool) (desc : String) {lo hi : ℤ} (hlo : -2 ^ 63 ≤ lo)
    (hhi : hi ≤ 2 ^ 63 - 1) (hvalid : valid = fun i => lo ≤ i && i ≤ hi) :
    (f.argInRange arg valid desc).toOption = wholeArgument lo hi arg := by
  rw [argInRange_toOption, hvalid, parseInt64_within hlo hhi]

theorem parseLogLevel_eq (t : List Char) :
    parseLogLevel t = logLevels.lookup (t.map Char.toLower) := by
  simp only [logLevels, lookup_ite, List.lookup_nil]
  rfl

theorem parseInputMode_eq (t : List Char) : parseInputMode t = inputModes.lookup t := by
  simp only [inputModes, lookup_ite, List.lookup_nil]
  rfl

theorem broadcastHz_readFile (v : Toml.Value) :
    (Setting.readFile path .broadcastHz v).toOption = (numberOf v).filter validHz := by
  cases v with
  | string t => rfl
  | boolean b => rfl
  | integer i =>
    rw [numberOf, Option.filter_some, ← toOption_ite]
    exact congrArg Except.toOption (pure_bind (toDouble i) _)
  | float hz =>
    rw [numberOf, Option.filter_some, ← toOption_ite]
    exact congrArg Except.toOption (pure_bind hz _)

theorem broadcastHz_read :
    (ValueFlag.broadcastHz.read arg).toOption = (parseDouble arg).filter validHz := by
  simp only [ValueFlag.read]
  cases parseDouble arg with
  | none => rfl
  | some hz => rw [Option.filter_some, ← toOption_ite]

theorem argText_meaning {α : Type} (parse : List Char → Option α) (complaint : String) :
    (ValueFlag.argText arg parse complaint).toOption = parse arg :=
  toOption_match (parse arg) _

theorem wantText_meaning {α : Type} (parse : List Char → Option α) (complaint : String) :
    (wantText path s v parse complaint).toOption = (textOf v).bind parse := by
  cases v with
  | string t => exact toOption_match (parse t) _
  | _ => rfl

/-- **An argument is read as what it says.** -/
theorem ValueFlag.read_meaning (f : ValueFlag) (arg : List Char) :
    (f.read arg).toOption = f.meaning arg := by
  cases f with
  | udpBind | wsBind | logFile => rfl
  | udpPort | wsPort =>
    simp only [ValueFlag.read, ValueFlag.argPort, toOption_bind, ValueFlag.meaning]
    rw [argInRange_meaning validPort _ (by norm_num) (by norm_num) rfl]
    exact (Option.map_eq_bind ..).symm
  | expirySeconds =>
    simp only [ValueFlag.read, toOption_bind, ValueFlag.meaning]
    rw [argInRange_meaning validExpiry _ (by norm_num) (by norm_num) rfl]
    exact (Option.map_eq_bind ..).symm
  | logLevel => exact (argText_meaning _ _).trans (parseLogLevel_eq arg)
  | inputMode => exact (argText_meaning _ _).trans (parseInputMode_eq arg)
  | broadcastHz =>
    rw [broadcastHz_read, validHz_eq]
    exact parseDouble_rate 60 arg

/-- **A value of the file is read as what it says.** -/
theorem Setting.readFile_meaning (path : List Char) (s : Setting) (v : Toml.Value) :
    (s.readFile path v).toOption = s.meaning v := by
  have hport (t : Setting) : (wantPort path t v).toOption =
      (wholeOf 1 65535 v).map (BitVec.ofInt 16) := by
    rw [wantPort, toOption_bind, wantInRange_meaning validPort _ rfl]
    exact (Option.map_eq_bind ..).symm
  have htext (t : Setting) : (wantString path t v).toOption = textOf v := by
    cases v <;> rfl
  cases s with
  | udpBind | wsBind | disBindAddress | olv2BindAddress => exact htext _
  | udpPort | wsPort | disPort | olv2Port => exact hport _
  | logStderr => cases v <;> rfl
  | logFile =>
    cases v with
    | string t => exact toOption_nonempty t _
    | _ => rfl
  | disSatelliteEntityId =>
    refine (wantText_meaning _ _).trans ?_
    show _ = (textOf v).filter fun t => (parseDisEntityId t).isSome
    cases textOf v with
    | none => rfl
    | some t =>
      rw [Option.bind_some, Option.filter_some]
      cases parseDisEntityId t <;> rfl
  | disExerciseId =>
    simp only [Setting.readFile, toOption_bind, Setting.meaning]
    rw [wantInRange_meaning validExerciseId _ rfl]
    exact (Option.map_eq_bind ..).symm
  | expirySeconds =>
    simp only [Setting.readFile, toOption_bind, Setting.meaning]
    rw [wantInRange_meaning validExpiry _ rfl]
    exact (Option.map_eq_bind ..).symm
  | logLevel =>
    refine (wantText_meaning _ _).trans ?_
    simp only [parseLogLevel_eq]
    rfl
  | inputMode =>
    refine (wantText_meaning _ _).trans ?_
    simp only [parseInputMode_eq]
    rfl
  | broadcastHz =>
    rw [broadcastHz_readFile, validHz_eq, ← rateOf_eq]
    rfl

end Backend

end Olv

/-! ## Simulator -/

namespace Olv.Sim
open Settings (Assignment)
open Toml (IsInt64)

def modes : List (List Char × Mode) := [("csv".toList, .kCsv), ("generate".toList, .kGenerate)]

def protocols : List (List Char × Protocol) :=
  [("olv1".toList, .kOlv1), ("dis".toList, .kDis), ("olv2".toList, .kOlv2)]

/-- What the value of a flag sets; `--csv` and `--generate` also choose the mode. -/
def ValueFlag.meaning : ValueFlag → List Char → Option (List (Assignment Setting.Field))
  | csv, arg => some [⟨.mode, .kCsv⟩, ⟨.csvPath, arg⟩]
  | generate, arg => (wholeArgument 1 5000 arg).map fun n =>
      [⟨.mode, .kGenerate⟩, ⟨.generateCount, BitVec.ofInt 32 n⟩]
  | dest, arg => some [⟨.destHost, arg⟩]
  | port, arg => (wholeArgument 1 65535 arg).map fun n => [⟨.destPort, BitVec.ofInt 16 n⟩]
  | protocol, arg => (protocols.lookup arg).map fun p => [⟨.protocol, p⟩]
  | rate, arg => (rateArgument 50 arg).map fun r => [⟨.rateHz, r⟩]
  | chunk, arg => (wholeArgument 1 128 arg).map fun n => [⟨.chunk, BitVec.ofInt 32 n⟩]
  | duration, arg => (wholeArgument 0 (2 ^ 63 - 1) arg).map fun n =>
      [⟨.durationSeconds, BitVec.ofInt 32 n⟩]
  | seed, arg => (wholeArgument 0 4294967295 arg).map fun n => [⟨.seed, BitVec.ofInt 32 n⟩]

/-- What the value of a key sets. -/
def Setting.meaning : (s : Setting) → Toml.Value → Option s.Field
  | destHost, v => (textOf v).filter (· ≠ [])
  | destPort, v => (wholeOf 1 65535 v).map (BitVec.ofInt 16)
  | mode, v => (textOf v).bind fun t => modes.lookup t
  | csvPath, v => textOf v
  | loop, v => booleanOf v
  | generateCount, v => (wholeOf 1 5000 v).map (BitVec.ofInt 32)
  | durationSeconds, v => ((integerOf v).filter fun i => 0 ≤ i).map (BitVec.ofInt 32)
  | seed, v => (wholeOf 0 4294967295 v).map (BitVec.ofInt 32)
  | rateHz, v => rateOf 50 v
  | chunk, v => (wholeOf 1 128 v).map (BitVec.ofInt 32)
  | protocol, v => (textOf v).bind fun t => protocols.lookup t
  | disExerciseId, v => (wholeOf 0 255 v).map (BitVec.ofInt 32)
  | disSite, v => (wholeOf 0 65535 v).map (BitVec.ofInt 32)
  | disSatelliteEntityId, v => (textOf v).filter fun t => (parseDisEntityId t).isSome
  | olv2Points, v => (wholeOf 1 25 v).map (BitVec.ofInt 32)
  | quiet, v => booleanOf v

section Simulator
variable {path : List Char} {s : Setting} {f : ValueFlag} {v : Toml.Value} {arg : List Char}

theorem wantInteger_toOption (i : ℤ) (valid : ℤ → Bool) (what : String) :
    (wantInteger path s (.integer i) valid what).toOption = (some i).filter valid := by
  rw [Option.filter_some, ← toOption_ite]
  rfl

theorem want_toOption {α : Type} (parse : List Char → Option α) (what : String) :
    (f.want (some arg) parse what).toOption = parse arg :=
  toOption_match (parse arg) _

theorem rateHz_readFile (v : Toml.Value) :
    (Setting.readFile path .rateHz v).toOption = (numberOf v).filter validRateHz := by
  cases v with
  | string t => rfl
  | boolean b => rfl
  | integer i =>
    rw [numberOf, Option.filter_some, ← toOption_ite]
    exact congrArg Except.toOption (pure_bind (toDouble i) _)
  | float hz =>
    rw [numberOf, Option.filter_some, ← toOption_ite]
    exact congrArg Except.toOption (pure_bind hz _)

theorem rate_read :
    (ValueFlag.rate.read (some arg)).toOption =
      ((Olv.parseDouble arg).filter validRateHz).map fun r => [⟨.rateHz, r⟩] := by
  simp only [ValueFlag.read, toOption_bind]
  rw [want_toOption]
  exact (Option.map_eq_bind ..).symm

theorem wantInteger_meaning (valid : ℤ → Bool) (what : String) :
    (wantInteger path s v valid what).toOption = (integerOf v).filter valid := by
  cases v with
  | integer i => exact wantInteger_toOption i valid what
  | _ => rfl

theorem wantInteger_whole (valid : ℤ → Bool) (what : String) {lo hi : ℤ}
    (hvalid : valid = fun i => lo ≤ i && i ≤ hi) :
    (wantInteger path s v valid what).toOption = wholeOf lo hi v := by
  rw [wantInteger_meaning, hvalid, wholeOf]
  simp only [Bool.decide_and]

theorem wantInt_meaning (valid : ℤ → Bool) (what : String) {lo hi : ℤ}
    (hvalid : valid = fun i => lo ≤ i && i ≤ hi) :
    (wantInt path s v valid what).toOption = (wholeOf lo hi v).map (BitVec.ofInt 32) := by
  rw [wantInt, toOption_bind, wantInteger_whole valid what hvalid]
  exact (Option.map_eq_bind ..).symm

theorem wantInteger_argument (valid : ℤ → Bool) (what : String) {lo hi : ℤ} (hlo : -2 ^ 63 ≤ lo)
    (hhi : hi ≤ 2 ^ 63 - 1) (hvalid : valid = fun i => lo ≤ i && i ≤ hi) :
    (f.wantInteger (some arg) valid what).toOption = wholeArgument lo hi arg := by
  rw [ValueFlag.wantInteger, want_toOption, hvalid, parseInt64_within hlo hhi]

theorem modeOf_eq (t : List Char) : modeOf t = modes.lookup t := by
  simp only [modes, lookup_ite, List.lookup_nil]
  rfl

theorem protocolOf_eq (t : List Char) : protocolOf t = protocols.lookup t := by
  simp only [protocols, lookup_ite, List.lookup_nil]
  rfl

theorem wantWord_meaning {α : Type} (parse : List Char → Option α) (words : String) :
    (wantWord path s v parse words).toOption = (textOf v).bind parse := by
  cases v with
  | string t => exact toOption_match (parse t) _
  | _ => rfl

/-- **An argument is read as what it says.** -/
theorem ValueFlag.read_meaning (f : ValueFlag) (arg : List Char) :
    (f.read (some arg)).toOption = f.meaning arg := by
  cases f with
  | csv | dest => rfl
  | generate =>
    simp only [ValueFlag.read, toOption_bind, ValueFlag.meaning]
    rw [wantInteger_argument validGenerateCount _ (by norm_num) (by norm_num) rfl]
    exact (Option.map_eq_bind ..).symm
  | port =>
    simp only [ValueFlag.read, toOption_bind, ValueFlag.meaning]
    rw [wantInteger_argument validPort _ (by norm_num) (by norm_num) rfl]
    exact (Option.map_eq_bind ..).symm
  | protocol =>
    simp only [ValueFlag.read, toOption_bind, ValueFlag.meaning]
    rw [want_toOption, protocolOf_eq]
    exact (Option.map_eq_bind ..).symm
  | rate =>
    rw [rate_read]
    exact congrArg (Option.map _) (parseDouble_rate 50 arg)
  | chunk =>
    simp only [ValueFlag.read, toOption_bind, ValueFlag.meaning]
    rw [wantInteger_argument validChunk _ (by norm_num) (by decide) rfl]
    exact (Option.map_eq_bind ..).symm
  | duration =>
    have hlong : (duration.wantInteger (some arg) validDurationSeconds "an integer >= 0").toOption =
        wholeArgument 0 (2 ^ 63 - 1) arg := by
      rw [ValueFlag.wantInteger, want_toOption, parseInt64_exact, wholeArgument, Option.filter_filter]
      congr 1
      funext i
      rw [validDurationSeconds, ← Bool.decide_and, decide_eq_decide]
      unfold IsInt64
      omega
    simp only [ValueFlag.read, toOption_bind, ValueFlag.meaning]
    rw [hlong]
    exact (Option.map_eq_bind ..).symm
  | seed =>
    simp only [ValueFlag.read, toOption_bind, ValueFlag.meaning]
    rw [wantInteger_argument validSeed _ (by norm_num) (by norm_num) rfl]
    exact (Option.map_eq_bind ..).symm

/-- **A value of the file is read as what it says.** -/
theorem Setting.readFile_meaning (path : List Char) (s : Setting) (v : Toml.Value) :
    (s.readFile path v).toOption = s.meaning v := by
  cases s with
  | csvPath | loop | quiet => cases v <;> rfl
  | destHost =>
    cases v with
    | string t => exact toOption_nonempty t _
    | _ => rfl
  | disSatelliteEntityId =>
    cases v with
    | string t => exact (toOption_ite (validSatelliteEntityId t) t _).trans (Option.filter_some ..).symm
    | _ => rfl
  | destPort =>
    simp only [Setting.readFile, toOption_bind, Setting.meaning]
    rw [wantInteger_whole validPort _ rfl]
    exact (Option.map_eq_bind ..).symm
  | seed =>
    simp only [Setting.readFile, toOption_bind, Setting.meaning]
    rw [wantInteger_whole validSeed _ rfl]
    exact (Option.map_eq_bind ..).symm
  | durationSeconds =>
    simp only [Setting.readFile, wantInt, toOption_bind, Setting.meaning]
    rw [wantInteger_meaning]
    exact (Option.map_eq_bind ..).symm
  | mode =>
    refine (wantWord_meaning _ _).trans ?_
    simp only [modeOf_eq]
    rfl
  | protocol =>
    refine (wantWord_meaning _ _).trans ?_
    simp only [protocolOf_eq]
    rfl
  | generateCount => exact wantInt_meaning validGenerateCount _ rfl
  | chunk => exact wantInt_meaning validChunk _ rfl
  | disExerciseId => exact wantInt_meaning validExerciseId _ rfl
  | disSite => exact wantInt_meaning validSite _ rfl
  | olv2Points => exact wantInt_meaning validOlv2Points _ rfl
  | rateHz =>
    rw [rateHz_readFile]
    exact (rateOf_eq 50 v).symm

end Simulator
end Olv.Sim
