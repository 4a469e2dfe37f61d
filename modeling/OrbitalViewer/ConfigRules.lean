import OrbitalViewer.ConfigPrecedence
import OrbitalViewer.TomlJs
import OrbitalViewer.TomlWritten

/-!
# One set of rules for file and flags

A value that can be written both in the file and as an argument, given to the
same setting one way and the other. `file_and_flag_iff`: the two ways differ on
an empty log file, on an empty host and on a rate that `strtod` reports, and on
nothing else.
-/

namespace Olv
open FirstFailure (Alike)
open FromChars (signed)
open Ieee (F64 Datum binary64)
open Settings (Assignment)
open Toml (Written Says Strtod IsInt64 cppValues integerValue exactValue)

/-! ## Values in both syntaxes -/

/-- How the value of a setting is written. -/
inductive Kind
  | text | whole | real
  deriving DecidableEq

/-- The number that a value of the file stands for. -/
def exactWritten : Written → Option ℚ
  | .integer token => some (integerValue token)
  | .float token => (exactValue token).map fun v => (Datum.fin v.1 v.2).toRat
  | _ => none

/-- The argument says what the value of the file says. -/
def SameMeaning : Kind → Written → List Char → Prop
  | .text, w, arg => w = .string arg
  | .whole, w, arg => ∃ token, w = .integer token ∧ exactWhole arg = some (integerValue token)
  | .real, w, arg => ∃ q, exactWritten w = some q ∧ exactArgument arg = some q

/-- `strtod` reports a number that the check would let through. -/
def RangeError (strtod : Strtod) (valid : F64 → Bool) (w : Written) : Prop :=
  ∃ token neg mag, w = .float token ∧ exactValue token = some (neg, mag) ∧
    strtod.erange mag = true ∧ valid (.ofDatum (.fin neg mag)) = true

def ValueFlag.kind : ValueFlag → Kind
  | udpBind | wsBind | logFile | logLevel | inputMode => .text
  | udpPort | wsPort | expirySeconds => .whole
  | broadcastHz => .real

/-! ## Rates -/

theorem validRate_lt {limit : ℚ} (hlimit : limit < 2 ^ 6) {mag : ℚ}
    (h : validRate limit (.ofDatum (.fin false mag)) = true) : mag < 2 ^ 6 := by
  obtain ⟨hfinite, _, hle⟩ := validRate_iff.mp h
  rw [F64.datum_ofDatum] at hfinite hle
  obtain ⟨r, hround⟩ := Ieee.Format.round_finite hfinite
  apply lt_of_not_ge
  intro hge
  have hscale : (binary64.scale : ℚ) = 2 ^ 1074 := binary64.scale_eq (by decide)
  have hs : binary64.frac + 1 + 1027 = 6 + 1074 := by decide
  have hr : 2 ^ 6 ≤ r := Ieee.Format.pow_le_round hscale hs (by decide) hge hround
  rw [hround] at hle
  exact absurd (lt_of_le_of_lt hle hlimit) (not_lt.mpr hr)

theorem toRat_int (i : ℤ) : (Datum.fin (i < 0) |(i : ℚ)|).toRat = i := by
  by_cases h : i < 0
  · have hneg : (i : ℚ) < 0 := Int.cast_lt_zero.mpr h
    simp [Datum.toRat, h, abs_of_neg hneg]
  · have hnonneg : (0 : ℚ) ≤ i := Int.cast_nonneg (not_lt.mp h)
    simp [Datum.toRat, h, abs_of_nonneg hnonneg]

section Rates
variable {strtod : Strtod} {limit : ℚ} {w : Written} {arg : List Char}

theorem integer_same {i : ℤ} (hlimit : limit < 2 ^ 6) (harg : exactArgument arg = some (i : ℚ)) :
    (if IsInt64 i then (some (toDouble i)).filter (validRate limit) else none) =
      (parseDouble arg).filter (validRate limit) := by
  rw [← toRat_int i] at harg
  rw [filter_rate (abs_nonneg _) harg]
  by_cases hi : IsInt64 i
  · rw [if_pos hi, Option.filter_some, toDouble]
  · rw [if_neg hi, if_neg]
    intro hvalid
    obtain ⟨hneg, _⟩ := validRate_pos (abs_nonneg _) hvalid
    rw [hneg] at hvalid
    have hlt := validRate_lt hlimit hvalid
    have hnonneg : 0 ≤ i := not_lt.mp (decide_eq_false_iff_not.mp hneg)
    have habs : |(i : ℚ)| = i := abs_of_nonneg (Int.cast_nonneg hnonneg)
    rw [habs] at hlt
    have hlt : i < 2 ^ 6 := by exact_mod_cast hlt
    exact hi ⟨by omega, by omega⟩

theorem exactValue_nonneg {token : List Char} {neg : Bool} {mag : ℚ}
    (h : exactValue token = some (neg, mag)) : 0 ≤ mag := by
  obtain ⟨mag', hdecimal, heq⟩ := Option.map_eq_some_iff.mp h
  obtain ⟨_, rfl⟩ := Prod.mk.inj heq
  exact FromChars.decimal_nonneg hdecimal

/-- **The check of a rate lets the same numbers through**, read from the file or not. -/
theorem rate_same (hlimit : limit < 2 ^ 6) (h : SameMeaning .real w arg)
    (hno : ¬ RangeError strtod (validRate limit) w) :
    ((cppValues strtod).read w).bind (fun v => (numberOf v).filter (validRate limit)) =
      (parseDouble arg).filter (validRate limit) := by
  obtain ⟨q, hw, harg⟩ := h
  cases w with
  | string s => cases hw
  | boolean b => cases hw
  | integer token =>
    obtain rfl := Option.some.inj hw
    rw [← integer_same hlimit harg]
    simp only [Toml.Values.read, cppValues]
    by_cases hi : IsInt64 (integerValue token)
    · rw [if_pos hi, if_pos hi, Option.bind_some, numberOf]
    · rw [if_neg hi, if_neg hi, Option.bind_none]
  | float token =>
    obtain ⟨⟨neg, mag⟩, hvalue, rfl⟩ := Option.map_eq_some_iff.mp hw
    rw [filter_rate (exactValue_nonneg hvalue) harg]
    simp only [Toml.Values.read, cppValues, hvalue, Option.bind_some]
    split
    · rename_i herange
      have hinvalid := fun hvalid => hno ⟨token, neg, mag, rfl, hvalue, herange, hvalid⟩
      rw [if_neg hinvalid, Option.bind_none]
    · rw [Option.bind_some, numberOf, Option.filter_some]

/-- What `strtod` reports is no value of the file, and still passes as an argument. -/
theorem rate_unread (h : SameMeaning .real w arg) (hrange : RangeError strtod (validRate limit) w) :
    (cppValues strtod).read w = none ∧
      ∃ hz, (parseDouble arg).filter (validRate limit) = some hz := by
  obtain ⟨token, neg, mag, rfl, hvalue, herange, hvalid⟩ := hrange
  obtain ⟨q, hw, harg⟩ := h
  constructor
  · simp only [Toml.Values.read, cppValues, hvalue, Option.bind_some, if_pos herange]
  · have hq : some (Datum.fin neg mag).toRat = some q := by
      rw [← hw, exactWritten, hvalue]
      rfl
    rw [← hq] at harg
    rw [filter_rate (exactValue_nonneg hvalue) harg, if_pos hvalid]
    exact ⟨_, rfl⟩

end Rates

/-! ## Backend -/

section Backend
variable {strtod : Strtod} {path : List Char} {s : Setting} {f : ValueFlag} {w : Written}
  {v : Toml.Value} {arg : List Char}

/-- What the file gives to a setting. -/
def fileReads (strtod : Strtod) (path : List Char) (s : Setting) (w : Written) : Option s.Field :=
  ((cppValues strtod).read w).bind fun v => (s.readFile path v).toOption

theorem whole_same (h : SameMeaning .whole w arg) (valid : ℤ → Bool) (desc : String) :
    ((cppValues strtod).read w).bind (fun v => (wantInRange path s v valid desc).toOption) =
      (f.argInRange arg valid desc).toOption := by
  obtain ⟨token, rfl, harg⟩ := h
  rw [argInRange_toOption, parseInt64_exact, harg]
  simp only [Toml.Values.read, cppValues, Option.filter_some, decide_eq_true_eq]
  by_cases hi : IsInt64 (integerValue token)
  · rw [if_pos hi, if_pos hi, Option.bind_some, wantInRange_toOption]
  · rw [if_neg hi, if_neg hi, Option.bind_none, Option.filter_none]

theorem port_same (h : SameMeaning .whole w arg) :
    ((cppValues strtod).read w).bind (fun v => (wantPort path s v).toOption) =
      (f.argPort arg).toOption := by
  simp only [wantPort, ValueFlag.argPort, toOption_bind]
  rw [← Option.bind_assoc, whole_same h]

theorem word_same {α : Type} (parse : List Char → Option α) (complaint complaint' : String) :
    (wantText path s (.string arg) parse complaint).toOption =
      (ValueFlag.argText arg parse complaint').toOption :=
  (toOption_match (parse arg) _).trans (toOption_match (parse arg) _).symm

theorem broadcastHz_fileReads :
    fileReads strtod path .broadcastHz w =
      ((cppValues strtod).read w).bind fun v => (numberOf v).filter validHz := by
  unfold fileReads
  congr 1
  funext v
  exact broadcastHz_readFile v

/-- **The file and the flag read the same.** -/
theorem read_same (h : SameMeaning f.kind w arg) (hfile : ¬ (f = .logFile ∧ arg = []))
    (hrate : ¬ (f = .broadcastHz ∧ RangeError strtod validHz w)) :
    fileReads strtod path f.setting w = (f.read arg).toOption := by
  cases f with
  | udpBind =>
    obtain rfl := h
    rfl
  | wsBind =>
    obtain rfl := h
    rfl
  | udpPort => exact port_same h
  | wsPort => exact port_same h
  | logFile =>
    obtain rfl := h
    have hne : arg ≠ [] := fun hnil => hfile ⟨rfl, hnil⟩
    show (if arg = [] then Except.error _ else .ok arg : Except String _).toOption = some arg
    rw [if_neg hne]
    rfl
  | logLevel =>
    obtain rfl := h
    exact word_same parseLogLevel _ _
  | inputMode =>
    obtain rfl := h
    exact word_same parseInputMode _ _
  | expirySeconds =>
    simp only [fileReads, Setting.readFile, ValueFlag.read, toOption_bind]
    rw [← Option.bind_assoc, whole_same h]
  | broadcastHz =>
    have hno : ¬ RangeError strtod validHz w := fun hrange => hrate ⟨rfl, hrange⟩
    rw [broadcastHz_fileReads, broadcastHz_read]
    rw [validHz_eq] at hno ⊢
    exact rate_same (by norm_num) h hno

theorem broadcastHz_unlike (path : List Char) (h : SameMeaning .real w arg)
    (hrange : RangeError strtod validHz w) :
    fileReads strtod path .broadcastHz w = none ∧
      ∃ hz, (ValueFlag.broadcastHz.read arg).toOption = some hz := by
  rw [validHz_eq] at hrange
  obtain ⟨hnone, hz, haccept⟩ := rate_unread h hrange
  refine ⟨?_, hz, ?_⟩
  · rw [fileReads, hnone, Option.bind_none]
  · rw [broadcastHz_read, validHz_eq]
    exact haccept

theorem applyFlag_toOption (cfg : Config) (f : ValueFlag) (arg : List Char) :
    (applyFlag cfg f arg).toOption =
      (f.read arg).toOption.map fun v => cfg.set ⟨f.setting, v⟩ := by
  unfold applyFlag
  cases f.read arg <;> rfl

/-- A file with one key. -/
theorem applyConfigFile_single {text : List Char} (cfg : Config)
    (hparse : Toml.parse strtod text = { values := [(s.key, v)] }) :
    applyConfigFile strtod (fun _ => some text) path cfg =
      (s.readFile path v).map fun v => cfg.set ⟨s, v⟩ := by
  have hfile : Toml.parseFile strtod (fun _ => some text) path = { values := [(s.key, v)] } := hparse
  unfold applyConfigFile
  rw [hfile]
  show (Toml.inKeyOrder [(s.key, v)]).foldlM (applyEntry path) cfg = _
  rw [Toml.inKeyOrder, List.mergeSort_singleton, List.foldlM_cons, applyEntry, Setting.ofKey_key]
  cases hread : s.readFile path v <;> simp only [hread] <;> rfl

theorem applyConfigFile_rejected {text : List Char} (cfg : Config)
    (hparse : (Toml.parse strtod text).ok = false) :
    (applyConfigFile strtod (fun _ => some text) path cfg).toOption = none := by
  have hfile : (Toml.parseFile strtod (fun _ => some text) path).ok = false := hparse
  unfold applyConfigFile
  dsimp only
  rw [hfile]
  rfl

theorem applyConfigFile_toOption {text : List Char} (cfg : Config) (h : Says text s.key w) :
    (applyConfigFile strtod (fun _ => some text) path cfg).toOption =
      (fileReads strtod path s w).map fun v => cfg.set ⟨s, v⟩ := by
  unfold fileReads
  cases hread : (cppValues strtod).read w with
  | none => exact applyConfigFile_rejected cfg (h.parse_error hread)
  | some v =>
    rw [applyConfigFile_single cfg (h.parse_ok hread), toOption_map]
    rfl

/-- The configurations agree on the setting, if and only if what is read agrees. -/
theorem applyFlag_alike_iff {text : List Char} (cfg : Config) (h : Says text f.setting.key w) :
    Alike (fun a b => a.get f.setting = b.get f.setting)
        (applyConfigFile strtod (fun _ => some text) path cfg) (applyFlag cfg f arg) ↔
      fileReads strtod path f.setting w = (f.read arg).toOption := by
  have hget : ∀ v, (cfg.set ⟨f.setting, v⟩).get f.setting = v := by
    intro v
    rw [Config.get_set, Settings.at_self, Option.getD_some]
  rw [FirstFailure.alike_iff_rel, applyConfigFile_toOption cfg h, applyFlag_toOption]
  generalize fileReads strtod path f.setting w = x
  generalize (f.read arg).toOption = y
  cases x <;> cases y <;> simp [hget]

/-- The file must name a log file, the flag need not. -/
theorem logFile_unlike {text : List Char} (cfg : Config)
    (h : Says text Setting.logFile.key (.string [])) :
    ¬ Alike (fun a b => a.get .logFile = b.get .logFile)
      (applyConfigFile strtod (fun _ => some text) path cfg) (applyFlag cfg .logFile []) := by
  intro halike
  have hsame := (applyFlag_alike_iff (f := .logFile) cfg h).mp halike
  exact nomatch hsame

end Backend
end Olv

/-! ## Simulator -/

namespace Olv.Sim
open FirstFailure (Alike)
open Settings (Assignment lastOf)
open Toml (Written Says Strtod IsInt64 cppValues integerValue)

def ValueFlag.kind : ValueFlag → Kind
  | csv | dest | protocol => .text
  | generate | port | chunk | duration | seed => .whole
  | rate => .real

/-- The setting that the value of a flag is for. -/
abbrev ValueFlag.setting : ValueFlag → Setting
  | csv => .csvPath
  | generate => .generateCount
  | dest => .destHost
  | port => .destPort
  | protocol => .protocol
  | rate => .rateHz
  | chunk => .chunk
  | duration => .durationSeconds
  | seed => .seed

theorem Setting.ofKey_key (s : Setting) : Setting.ofKey s.key = some s := by
  cases s <;> decide +kernel

theorem Setting.key_injective {s t : Setting} (h : s.key = t.key) : s = t := by
  apply Option.some.inj
  rw [← s.ofKey_key, h, t.ofKey_key]

section Simulator
variable {strtod : Strtod} {path : List Char} {s : Setting} {f : ValueFlag} {w : Written}
  {v : Toml.Value} {arg : List Char}

/-- What the file gives to a setting. -/
def fileReads (strtod : Strtod) (path : List Char) (s : Setting) (w : Written) : Option s.Field :=
  ((cppValues strtod).read w).bind fun v => (s.readFile path v).toOption

theorem whole_same (h : SameMeaning .whole w arg) (valid : ℤ → Bool) (what what' : String) :
    ((cppValues strtod).read w).bind (fun v => (wantInteger path s v valid what).toOption) =
      (f.wantInteger (some arg) valid what').toOption := by
  obtain ⟨token, rfl, harg⟩ := h
  rw [ValueFlag.wantInteger, want_toOption, parseInt64_exact, harg]
  simp only [Toml.Values.read, cppValues, Option.filter_some, decide_eq_true_eq]
  by_cases hi : IsInt64 (integerValue token)
  · rw [if_pos hi, if_pos hi, Option.bind_some, wantInteger_toOption]
  · rw [if_neg hi, if_neg hi, Option.bind_none, Option.filter_none]

/-- A whole number that is read alike is assigned alike. -/
theorem whole_assigned (h : SameMeaning .whole w arg) (valid : ℤ → Bool) (what what' : String)
    {value : ℤ → s.Field} {out : ℤ → List (Assignment Setting.Field)}
    (hout : ∀ i, lastOf s (out i) = some (value i)) :
    (((cppValues strtod).read w).bind fun v =>
        (wantInteger path s v valid what >>= fun i => .ok (value i)).toOption).map some =
      (f.wantInteger (some arg) valid what' >>= fun i => .ok (out i)).toOption.map (lastOf s) := by
  simp only [toOption_bind]
  rw [← Option.bind_assoc, whole_same h]
  cases f.wantInteger (some arg) valid what' with
  | error err => rfl
  | ok i => exact congrArg some (hout i).symm

theorem rateHz_fileReads :
    fileReads strtod path .rateHz w =
      ((cppValues strtod).read w).bind fun v => (numberOf v).filter validRateHz := by
  unfold fileReads
  congr 1
  funext v
  exact rateHz_readFile v

/-- What a flag assigns to its setting. -/
def ValueFlag.reads (f : ValueFlag) (arg : List Char) : Option (Option f.setting.Field) :=
  (f.read (some arg)).toOption.map (lastOf f.setting)

theorem rate_reads :
    ValueFlag.rate.reads arg = ((Olv.parseDouble arg).filter validRateHz).map some := by
  rw [ValueFlag.reads, rate_read, Option.map_map]
  rfl

theorem protocol_reads :
    ValueFlag.protocol.reads arg = (protocolOf arg).map some := by
  simp only [ValueFlag.reads, ValueFlag.read, toOption_bind]
  rw [want_toOption]
  cases protocolOf arg <;> rfl

/-- **The file and the flag read the same.** -/
theorem read_same (h : SameMeaning f.kind w arg) (hhost : ¬ (f = .dest ∧ arg = []))
    (hrate : ¬ (f = .rate ∧ RangeError strtod validRateHz w)) :
    (fileReads strtod path f.setting w).map some = f.reads arg := by
  cases f with
  | csv =>
    obtain rfl := h
    rfl
  | dest =>
    obtain rfl := h
    have hne : arg ≠ [] := fun hnil => hhost ⟨rfl, hnil⟩
    show (if arg = [] then Except.error _ else .ok arg : Except String _).toOption.map some = _
    rw [if_neg hne]
    rfl
  | protocol =>
    obtain rfl := h
    rw [protocol_reads]
    exact congrArg (Option.map some) (toOption_match (protocolOf arg) _)
  | rate =>
    have hno : ¬ RangeError strtod validRateHz w := fun hrange => hrate ⟨rfl, hrange⟩
    rw [rateHz_fileReads, rate_reads]
    exact congrArg (Option.map some) (rate_same (by norm_num) h hno)
  | generate => exact whole_assigned h validGenerateCount _ _ fun _ => rfl
  | port => exact whole_assigned h validPort _ _ fun _ => rfl
  | chunk => exact whole_assigned h validChunk _ _ fun _ => rfl
  | duration => exact whole_assigned h validDurationSeconds _ _ fun _ => rfl
  | seed => exact whole_assigned h validSeed _ _ fun _ => rfl

theorem rate_unlike (path : List Char) (h : SameMeaning .real w arg)
    (hrange : RangeError strtod validRateHz w) :
    fileReads strtod path .rateHz w = none ∧
      ∃ as, (ValueFlag.rate.read (some arg)).toOption = some as := by
  obtain ⟨hnone, hz, haccept⟩ := rate_unread h hrange
  have haccept : (Olv.parseDouble arg).filter validRateHz = some hz := haccept
  constructor
  · rw [fileReads, hnone, Option.bind_none]
  · rw [rate_read, haccept]
    exact ⟨_, rfl⟩

theorem applyKey_idle {t : Setting} (h : t ≠ s) (cfg : SimConfig) :
    applyKey path [(s.key, v)] cfg t = .ok cfg := by
  have hkey : t.key ≠ s.key := fun heq => h (Setting.key_injective heq)
  unfold applyKey
  rw [List.lookup_cons, beq_false_of_ne hkey]
  rfl

/-- A file with one key. -/
theorem applySimConfigFile_single {text : List Char} (cfg : SimConfig)
    (hparse : Toml.parse strtod text = { values := [(s.key, v)] }) :
    applySimConfigFile strtod (fun _ => some text) path cfg =
      (s.readFile path v).map fun v => cfg.set ⟨s, v⟩ := by
  have hfile : Toml.parseFile strtod (fun _ => some text) path = { values := [(s.key, v)] } := hparse
  have hfold : Setting.all.foldlM (applyKey path [(s.key, v)]) cfg =
      (s.readFile path v).map fun v => cfg.set ⟨s, v⟩ := by
    rw [FirstFailure.foldlM_single s.mem_all (by decide) fun c t _ h => applyKey_idle h c]
    unfold applyKey
    rw [List.lookup_cons_self]
    cases hread : s.readFile path v <;> simp only [hread] <;> rfl
  have hknown : (Toml.inKeyOrder [(s.key, v)]).filter (fun e => (Setting.ofKey e.1).isNone) = [] := by
    rw [Toml.inKeyOrder, List.mergeSort_singleton]
    simp [Setting.ofKey_key]
  have hok : (!Toml.ParseResult.ok { values := [(s.key, v)] }) = false := rfl
  unfold applySimConfigFile
  rw [hfile]
  dsimp only
  rw [if_neg (Bool.eq_false_iff.mp hok), hfold, hknown]
  exact bind_pure _

theorem applySimConfigFile_rejected {text : List Char} (cfg : SimConfig)
    (hparse : (Toml.parse strtod text).ok = false) :
    (applySimConfigFile strtod (fun _ => some text) path cfg).toOption = none := by
  have hfile : (Toml.parseFile strtod (fun _ => some text) path).ok = false := hparse
  unfold applySimConfigFile
  dsimp only
  rw [hfile]
  rfl

theorem applySimConfigFile_toOption {text : List Char} (cfg : SimConfig) (h : Says text s.key w) :
    (applySimConfigFile strtod (fun _ => some text) path cfg).toOption =
      (fileReads strtod path s w).map fun v => cfg.set ⟨s, v⟩ := by
  unfold fileReads
  cases hread : (cppValues strtod).read w with
  | none => exact applySimConfigFile_rejected cfg (h.parse_error hread)
  | some v =>
    rw [applySimConfigFile_single cfg (h.parse_ok hread), toOption_map]
    rfl

/-- The configurations agree on the setting, if and only if what is read agrees. -/
theorem applyFlag_alike_iff {text : List Char} (cfg : SimConfig) (h : Says text f.setting.key w) :
    Alike (fun a b => a.get f.setting = b.cfg.get f.setting)
        (applySimConfigFile strtod (fun _ => some text) path cfg)
        (applyFlag { cfg } f (some arg)) ↔
      Option.Rel (fun v as => v = (lastOf f.setting as).getD (cfg.get f.setting))
        (fileReads strtod path f.setting w) (f.read (some arg)).toOption := by
  have hset : ∀ v, (cfg.set ⟨f.setting, v⟩).get f.setting = v := by
    intro v
    rw [SimConfig.get_set, Settings.at_self, Option.getD_some]
  have hassign : ∀ as, (simFields.assign cfg as).get f.setting =
      (lastOf f.setting as).getD (cfg.get f.setting) :=
    fun as => simFields.get_assign cfg as f.setting
  rw [FirstFailure.alike_iff_rel, applySimConfigFile_toOption cfg h]
  unfold applyFlag
  generalize fileReads strtod path f.setting w = x
  cases f.read (some arg) <;> cases x <;> simp [hset, hassign, Except.toOption]

theorem applyFlag_alike {text : List Char} (cfg : SimConfig) (h : Says text f.setting.key w)
    (hsame : (fileReads strtod path f.setting w).map some = f.reads arg) :
    Alike (fun a b => a.get f.setting = b.cfg.get f.setting)
      (applySimConfigFile strtod (fun _ => some text) path cfg)
      (applyFlag { cfg } f (some arg)) := by
  rw [applyFlag_alike_iff cfg h]
  unfold ValueFlag.reads at hsame
  revert hsame
  generalize (f.read (some arg)).toOption = y
  generalize fileReads strtod path f.setting w = x
  intro hsame
  cases x with
  | none =>
    cases y with
    | none => exact .none
    | some as => cases hsame
  | some v =>
    cases y with
    | none => cases hsame
    | some as =>
      have hlast : some v = lastOf f.setting as := Option.some.inj hsame
      rw [Option.rel_some_some, ← hlast, Option.getD_some]

end Simulator
end Olv.Sim

namespace Olv
open FirstFailure (Alike)
open Toml (Written Says Strtod)

/-- **File and flag enforce the same rules.** A value written both ways is accepted both
ways or neither, and then held by the setting, unless it is an empty text for the log file
or the host, or a rate whose range `strtod` alone complains of. -/
theorem file_and_flag_iff (strtod : Strtod) :
    (∀ (path text arg : List Char) (w : Written) (cfg : Config) (f : ValueFlag),
      Says text f.setting.key w → SameMeaning f.kind w arg →
        (Alike (fun a b => a.get f.setting = b.get f.setting)
          (applyConfigFile strtod (fun _ => some text) path cfg) (applyFlag cfg f arg) ↔
            ¬ (f = .logFile ∧ arg = []) ∧ ¬ (f = .broadcastHz ∧ RangeError strtod validHz w))) ∧
    (∀ (path text arg : List Char) (w : Written) (cfg : Sim.SimConfig) (f : Sim.ValueFlag),
      Says text f.setting.key w → SameMeaning f.kind w arg →
        (Alike (fun a b => a.get f.setting = b.cfg.get f.setting)
          (Sim.applySimConfigFile strtod (fun _ => some text) path cfg)
          (Sim.applyFlag { cfg } f (some arg)) ↔
            ¬ (f = .dest ∧ arg = []) ∧ ¬ (f = .rate ∧ RangeError strtod Sim.validRateHz w))) := by
  constructor
  · intro path text arg w cfg f htext h
    constructor
    · intro halike
      constructor
      · rintro ⟨rfl, rfl⟩
        obtain rfl := h
        exact logFile_unlike cfg htext halike
      · rintro ⟨rfl, hrange⟩
        have hsame := (applyFlag_alike_iff cfg htext).mp halike
        obtain ⟨hnone, hz, haccept⟩ := broadcastHz_unlike path h hrange
        exact nomatch hnone.symm.trans (hsame.trans haccept)
    · rintro ⟨hfile, hrate⟩
      exact (applyFlag_alike_iff cfg htext).mpr (read_same h hfile hrate)
  · intro path text arg w cfg f htext h
    constructor
    · intro halike
      rw [Sim.applyFlag_alike_iff cfg htext] at halike
      constructor
      · rintro ⟨rfl, rfl⟩
        obtain rfl := h
        exact nomatch halike
      · rintro ⟨rfl, hrange⟩
        obtain ⟨hnone, as, haccept⟩ := Sim.rate_unlike path h hrange
        rw [hnone, haccept] at halike
        exact nomatch halike
    · rintro ⟨hhost, hrate⟩
      exact Sim.applyFlag_alike cfg htext (Sim.read_same h hhost hrate)

def portText : List Char := "[network]\nudp_port = 47100\n".toList

theorem portText_alike :
    Alike (fun a b => a.get .udpPort = b.get .udpPort)
      (applyConfigFile Toml.strict (fun _ => some portText) [] {})
      (applyFlag {} .udpPort "47100".toList) := by
  have htext : Says portText ValueFlag.udpPort.setting.key (.integer "47100".toList) :=
    ⟨by decide +kernel, by decide +kernel⟩
  have hmeaning : SameMeaning .whole (.integer "47100".toList) "47100".toList :=
    ⟨_, rfl, by decide +kernel⟩
  exact ((file_and_flag_iff Toml.strict).1 [] portText _ _ {} .udpPort htext hmeaning).mpr
    ⟨fun h => absurd h.1 (by decide), fun h => absurd h.1 (by decide)⟩

def emptyFileText : List Char := "[logging]\nfile = \"\"\n".toList

/-- The empty log file is rejected in the file and accepted after `--log-file`. -/
theorem emptyLogFile_differs :
    Says emptyFileText ValueFlag.logFile.setting.key (.string []) ∧
      SameMeaning ValueFlag.logFile.kind (.string []) [] ∧
      ¬ Alike (fun a b => a.get .logFile = b.get .logFile)
        (applyConfigFile Toml.strict (fun _ => some emptyFileText) [] {})
        (applyFlag {} .logFile []) := by
  have htext : Says emptyFileText ValueFlag.logFile.setting.key (.string []) :=
    ⟨by decide +kernel, by decide +kernel⟩
  exact ⟨htext, rfl, logFile_unlike {} htext⟩

end Olv
