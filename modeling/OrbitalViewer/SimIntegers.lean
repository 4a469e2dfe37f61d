import OrbitalViewer.ConfigRules

/-!
# Integers of the simulator's configuration

A number is parsed with 64 bits, checked, and then cut to the field it is stored
in. Every check lets through only what its field holds, but for the duration: it
has no upper bound, and a field of 32 bits (`sim_integers_iff`).
-/

namespace Olv.Sim
open Settings (Assignment lastOf)
open FirstFailure (Passes)

/-- The settings that hold an integer. -/
inductive Whole
  | destPort | generateCount | durationSeconds | seed | chunk | disExerciseId | disSite | olv2Points
  deriving DecidableEq

namespace Whole

abbrev setting : Whole → Setting
  | destPort => .destPort
  | generateCount => .generateCount
  | durationSeconds => .durationSeconds
  | seed => .seed
  | chunk => .chunk
  | disExerciseId => .disExerciseId
  | disSite => .disSite
  | olv2Points => .olv2Points

/-- The flag that sets it, if there is one. -/
def flag : Whole → Option ValueFlag
  | destPort => some .port
  | generateCount => some .generate
  | durationSeconds => some .duration
  | seed => some .seed
  | chunk => some .chunk
  | disExerciseId | disSite | olv2Points => none

def valid : Whole → ℤ → Bool
  | destPort => validPort
  | generateCount => validGenerateCount
  | durationSeconds => validDurationSeconds
  | seed => validSeed
  | chunk => validChunk
  | disExerciseId => validExerciseId
  | disSite => validSite
  | olv2Points => validOlv2Points

/-- The conversion to the type of the field. -/
def narrow : (w : Whole) → ℤ → w.setting.Field
  | destPort, n => BitVec.ofInt 16 n
  | seed, n | generateCount, n | durationSeconds, n | chunk, n | disExerciseId, n | disSite, n
  | olv2Points, n => BitVec.ofInt 32 n

/-- The integer that a field holds; a port and a seed have no sign. -/
def toInt : (w : Whole) → w.setting.Field → ℤ
  | destPort, v => (v : U16).toNat
  | seed, v => (v : U32).toNat
  | generateCount, v | durationSeconds, v | chunk, v | disExerciseId, v | disSite, v
  | olv2Points, v => (v : I32).toInt

end Whole

def SimConfig.whole (cfg : SimConfig) (w : Whole) : ℤ := w.toInt (cfg.get w.setting)

/-! ## The numbers that are written -/

/-- The flags that the second pass reads, each with its value. -/
def flagsRead : List (List Char) → List (ValueFlag × List Char)
  | [] => []
  | arg :: rest =>
    if arg = configFlag then
      match rest with
      | [] => []
      | _ :: rest => flagsRead rest
    else if arg = "--help".toList then []
    else if arg = "--quiet".toList ∨ arg = "--loop".toList then flagsRead rest
    else
      match ValueFlag.ofName arg, rest with
      | some f, value :: rest => (f, value) :: flagsRead rest
      | _, _ => []

/-- The value of the last of the flags that sets the integer. -/
def lastFlag (w : Whole) (flags : List (ValueFlag × List Char)) : Option (List Char) :=
  (flags.filter fun e => w.flag = some e.1).getLast?.map Prod.snd

/-- The file that the first pass finds. -/
def configPath (args : List (List Char)) : Option (List Char) :=
  ((locateConfig "--config: specified more than once" "--config requires a value" none
    args).toOption).join

/-- The integer that the file has for the key. -/
def fileNumber (strtod : Toml.Strtod) (files : Toml.Files) (path : List Char) (w : Whole) :
    Option ℤ :=
  match (Toml.parseFile strtod files path).values.lookup w.setting.key with
  | some (.integer n) => some n
  | _ => none

/-- The number in the last flag, or else in the file. -/
def written (strtod : Toml.Strtod) (files : Toml.Files) (args : List (List Char)) (w : Whole) :
    Option ℤ :=
  match lastFlag w (flagsRead args) with
  | some value => exactWhole value
  | none => (configPath args).bind fun path => fileNumber strtod files path w

/-! ## What is checked fits -/

theorem toInt_narrow_small {w : Whole} {n : ℤ} (hlo : 0 ≤ n) (hhi : n < 2 ^ 16) :
    w.toInt (w.narrow n) = n := by
  cases w <;>
    simp only [Whole.toInt, Whole.narrow, BitVec.toNat_ofInt, BitVec.toInt_ofInt, Int.bmod_def] <;>
    omega

theorem toInt_narrow {w : Whole} {n : ℤ} (h : w.valid n = true) (hw : w ≠ .durationSeconds) :
    w.toInt (w.narrow n) = n := by
  cases w with
  | durationSeconds => exact absurd rfl hw
  | seed =>
    simp only [Whole.valid, validSeed, Bool.and_eq_true, decide_eq_true_eq] at h
    simp only [Whole.toInt, Whole.narrow, BitVec.toNat_ofInt]
    omega
  | _ =>
    refine toInt_narrow_small ?_ ?_ <;>
    · simp [Whole.valid, validPort, validGenerateCount, validChunk, validExerciseId, validSite,
        validOlv2Points, Proto.kMaxObjectsPerPacket, Proto.Olv2.kMaxPoints] at h
      omega

/-- The duration keeps its value up to the largest `int`. -/
theorem toInt_narrow_duration {n : ℤ} (h : 0 ≤ n) :
    Whole.durationSeconds.toInt (Whole.durationSeconds.narrow n) = n ↔ n ≤ 2 ^ 31 - 1 := by
  simp only [Whole.toInt, Whole.narrow, BitVec.toInt_ofInt, Int.bmod_def]
  omega

/-! ## Flags -/

/-- A number was read and checked, and its conversion assigned. -/
def Took (w : Whole) (n : ℤ) (as : List (Assignment Setting.Field)) : Prop :=
  w.valid n = true ∧ lastOf w.setting as = some (w.narrow n)

/-- What the assignments of the flags say of an integer. -/
def Follows (w : Whole) (value : Option (List Char)) (as : List (Assignment Setting.Field)) : Prop :=
  match value with
  | none => lastOf w.setting as = none
  | some value => ∃ n, exactWhole value = some n ∧ Took w n as

theorem wantInteger_ok {f : ValueFlag} {value : List Char} {valid : ℤ → Bool} {what : String} {n : ℤ}
    (h : f.wantInteger (some value) valid what = .ok n) :
    exactWhole value = some n ∧ valid n = true := by
  unfold ValueFlag.wantInteger ValueFlag.want at h
  rw [Option.bind_some, parseInt64_exact] at h
  split at h
  · rename_i m hm
    obtain rfl := Except.ok.inj h
    rw [Option.filter_eq_some_iff, Option.filter_eq_some_iff] at hm
    exact ⟨hm.1.1, hm.2⟩
  · cases h

theorem read_follows {f : ValueFlag} {value : List Char} {as : List (Assignment Setting.Field)}
    (h : f.read (some value) = .ok as) (w : Whole) :
    Follows w (if w.flag = some f then some value else none) as := by
  cases f with
  | csv =>
    obtain rfl := Except.ok.inj h
    cases w <;> rfl
  | dest =>
    obtain rfl := Except.ok.inj h
    cases w <;> rfl
  | protocol =>
    obtain ⟨p, _, h⟩ := bind_ok h
    obtain rfl := Except.ok.inj h
    cases w <;> rfl
  | rate =>
    obtain ⟨r, _, h⟩ := bind_ok h
    obtain rfl := Except.ok.inj h
    cases w <;> rfl
  | _ =>
    obtain ⟨n, hn, h⟩ := bind_ok h
    obtain rfl := Except.ok.inj h
    obtain ⟨hexact, hvalid⟩ := wantInteger_ok hn
    cases w <;> first | rfl | exact ⟨n, hexact, hvalid, rfl⟩

theorem read_none {f : ValueFlag} {as : List (Assignment Setting.Field)} : f.read none ≠ .ok as := by
  cases f <;> intro h <;> cases h

/-- The flag that comes first counts where no later one sets the integer. -/
theorem lastFlag_cons {f : ValueFlag} {value : List Char} {es : List (ValueFlag × List Char)}
    (w : Whole) :
    lastFlag w ((f, value) :: es) =
      (lastFlag w es).or (if w.flag = some f then some value else none) := by
  unfold lastFlag
  rw [List.filter_cons]
  by_cases hf : w.flag = some f
  · rw [if_pos (decide_eq_true hf), if_pos hf, List.getLast?_cons, Option.map_some]
    cases (es.filter fun e => w.flag = some e.1).getLast? <;> rfl
  · simp [hf]

theorem took_of_follows {w : Whole} {value : List Char} {n : ℤ}
    {as : List (Assignment Setting.Field)} (h : Follows w (some value) as)
    (hn : exactWhole value = some n) : Took w n as := by
  obtain ⟨m, hm, htook⟩ := h
  obtain rfl : m = n := Option.some.inj (hm.symm.trans hn)
  exact htook

theorem took_after {w : Whole} {n : ℤ} {as bs : List (Assignment Setting.Field)} (h : Took w n bs) :
    Took w n (as ++ bs) := by
  refine ⟨h.1, ?_⟩
  rw [Settings.lastOf_append, h.2]
  rfl

/-- A number stays where no later assignment sets the integer. -/
theorem took_before {w : Whole} {n : ℤ} {as bs : List (Assignment Setting.Field)} (h : Took w n as)
    (hnone : lastOf w.setting bs = none) : Took w n (as ++ bs) := by
  refine ⟨h.1, ?_⟩
  rw [Settings.lastOf_append, hnone]
  exact h.2

theorem follows_append {w : Whole} {first second : Option (List Char)}
    {as bs : List (Assignment Setting.Field)} (hfirst : Follows w first as)
    (hsecond : Follows w second bs) : Follows w (second.or first) (as ++ bs) := by
  cases second with
  | none =>
    have hnone : lastOf w.setting bs = none := hsecond
    cases first with
    | none =>
      show lastOf w.setting (as ++ bs) = none
      rw [Settings.lastOf_append, hnone]
      exact hfirst
    | some value =>
      obtain ⟨n, hn, htook⟩ := hfirst
      exact ⟨n, hn, took_before htook hnone⟩
  | some value =>
    obtain ⟨n, hn, htook⟩ := hsecond
    exact ⟨n, hn, took_after htook⟩

/-- How the second pass ends: with the port seen to, or with help. -/
def Ended (cfg : SimConfig) (result : SimConfig) : Prop :=
  result = withDefaultPort cfg ∨ result = { cfg with showHelp := true }

/-- A first assignment that sets no integer. -/
theorem follows_after {w : Whole} {value : Option (List Char)} {s : Setting} {v : s.Field}
    {as : List (Assignment Setting.Field)} (hs : s ≠ w.setting) (h : Follows w value as) :
    Follows w value (⟨s, v⟩ :: as) := by
  have hnone : Follows w none [⟨s, v⟩] := by
    apply Settings.lastOf_eq_none
    intro a ha
    rw [List.mem_singleton.mp ha]
    exact hs
  rw [← Option.or_none (o := value)]
  exact follows_append hnone h

theorem applyArgs_follows {st : State} {args : List (List Char)} {cfg : SimConfig}
    (h : applyArgs st args = .ok cfg) :
    ∃ as, Ended (simFields.assign st.cfg as) cfg ∧
      ∀ w, Follows w (lastFlag w (flagsRead args)) as := by
  fun_induction applyArgs st args with
  | case1 st => exact ⟨[], .inl (finish_ok h), fun w => rfl⟩
  | case2 st => exact ⟨[], .inl (finish_ok h), fun w => rfl⟩
  | case3 st path rest ih => exact ih h
  | case4 st rest hconfig =>
    refine ⟨[], .inr (Except.ok.inj h).symm, fun w => ?_⟩
    rw [flagsRead.eq_def]
    simp only [if_neg hconfig, if_true]
    rfl
  | case5 st rest hconfig hhelp ih =>
    obtain ⟨as, hend, hfollows⟩ := ih h
    refine ⟨⟨.quiet, true⟩ :: as, hend, fun w => ?_⟩
    rw [flagsRead.eq_def]
    simp only [if_neg hconfig, if_neg hhelp, true_or, if_true]
    exact follows_after (by cases w <;> decide) (hfollows w)
  | case6 st rest hconfig hhelp hquiet ih =>
    obtain ⟨as, hend, hfollows⟩ := ih h
    refine ⟨⟨.loop, true⟩ :: as, hend, fun w => ?_⟩
    rw [flagsRead.eq_def]
    simp only [if_neg hconfig, if_neg hhelp, or_true, if_true]
    exact follows_after (by cases w <;> decide) (hfollows w)
  | case7 => cases h
  | case8 => cases h
  | case9 st arg _ _ _ _ f hf st' hst' =>
    unfold applyFlag at hst'
    split at hst'
    · cases hst'
    · rename_i as has
      exact absurd has read_none
  | case10 => cases h
  | case11 st arg hconfig hhelp hquiet hloop f hf value rest st' hst' ih =>
    unfold applyFlag at hst'
    split at hst'
    · cases hst'
    · rename_i first hfirst
      obtain rfl := Except.ok.inj hst'
      obtain ⟨as, hend, hfollows⟩ := ih h
      refine ⟨first ++ as, ?_, fun w => ?_⟩
      · rw [Settings.Fields.assign_append]
        exact hend
      · have hread : flagsRead (arg :: value :: rest) = (f, value) :: flagsRead rest := by
          rw [flagsRead.eq_def]
          simp only [if_neg hconfig, if_neg hhelp, hquiet, hloop, or_self, if_false, hf]
        rw [hread, lastFlag_cons]
        exact follows_append (read_follows hfirst w) (hfollows w)

/-! ## The file -/

theorem fileInteger_ok {path : List Char} {s : Setting} {valid : ℤ → Bool} {what : String} {n m : ℤ}
    (h : wantInteger path s (.integer n) valid what = .ok m) : valid n = true ∧ m = n := by
  unfold wantInteger at h
  dsimp only at h
  split at h
  · rename_i hvalid
    exact ⟨hvalid, (Except.ok.inj h).symm⟩
  · cases h

theorem readFile_whole {path : List Char} {w : Whole} {n : ℤ} {v : w.setting.Field}
    (h : w.setting.readFile path (.integer n) = .ok v) : w.valid n = true ∧ v = w.narrow n := by
  cases w <;>
  · obtain ⟨m, hm, hstored⟩ := bind_ok h
    obtain ⟨hvalid, rfl⟩ := fileInteger_ok hm
    exact ⟨hvalid, (Except.ok.inj hstored).symm⟩

section File
variable {strtod : Toml.Strtod} {files : Toml.Files} {path : List Char} {cfg cfg' : SimConfig}

/-- Every key of an accepted file is read. -/
theorem readFile_ok (h : applySimConfigFile strtod files path cfg = .ok cfg') {s : Setting}
    {v : Toml.Value} (hv : (Toml.parseFile strtod files path).values.lookup s.key = some v) :
    ∃ x, s.readFile path v = .ok x := by
  unfold applySimConfigFile at h
  dsimp only at h
  split at h
  · cases h
  · obtain ⟨m, hm, _⟩ := bind_ok h
    obtain ⟨c, c', hstep⟩ := FirstFailure.passes_mem hm s.mem_all
    unfold applyKey at hstep
    rw [hv] at hstep
    dsimp only at hstep
    split at hstep
    · cases hstep
    · rename_i x hx
      exact ⟨x, hx⟩

theorem fileNumber_took (h : applySimConfigFile strtod files path cfg = .ok cfg') {w : Whole}
    {n : ℤ} (hn : fileNumber strtod files path w = some n) :
    Took w n (Setting.all.flatMap (fileAssignments strtod files path)) := by
  unfold fileNumber at hn
  split at hn
  · rename_i m hm
    obtain rfl := Option.some.inj hn
    obtain ⟨v, hv⟩ := readFile_ok h hm
    obtain ⟨hvalid, rfl⟩ := readFile_whole hv
    refine ⟨hvalid, ?_⟩
    rw [lastOf_file, fileValue, hm, Option.bind_some, ← Setting.readFile_meaning path, hv]
    rfl
  · cases hn

end File

/-! ## What is stored -/

/-- A value assigned last is in the result. -/
theorem get_ended {path : List Char} {as : List (Assignment Setting.Field)} {cfg : SimConfig}
    (h : Ended (simFields.assign { configFile := path } as) cfg) {s : Setting} {v : s.Field}
    (hv : lastOf s as = some v) : cfg.get s = v := by
  rcases h with rfl | rfl
  · rw [get_withDefaultPort, hv]
    rfl
  · have hget := simFields.get_assign { configFile := path } as s
    rw [hv] at hget
    cases s <;> exact hget

section Stored
variable {strtod : Toml.Strtod} {files : Toml.Files} {args : List (List Char)} {cfg : SimConfig}

/-- An accepted configuration makes one list of assignments, the file's and then
the flags'. -/
theorem parseSimArgs_took (h : parseSimArgs strtod files args = .ok cfg) :
    ∃ path as, Ended (simFields.assign { configFile := path } as) cfg ∧
      ∀ w n, written strtod files args w = some n → Took w n as := by
  unfold parseSimArgs at h
  obtain ⟨found, hfound, h⟩ := bind_ok h
  have hpath : configPath args = found := by
    rw [configPath, hfound]
    rfl
  unfold written
  rw [hpath]
  cases found with
  | none =>
    obtain ⟨as, hend, hfollows⟩ := applyArgs_follows h
    refine ⟨[], as, hend, fun w n hn => ?_⟩
    have hw := hfollows w
    split at hn
    · rename_i value hvalue
      rw [hvalue] at hw
      exact took_of_follows hw hn
    · cases hn
  | some path =>
    obtain ⟨base, hbase, h⟩ := bind_ok h
    obtain ⟨as, hend, hfollows⟩ := applyArgs_follows h
    obtain rfl := applySimConfigFile_assigns hbase
    rw [← Settings.Fields.assign_append] at hend
    refine ⟨path, _, hend, fun w n hn => ?_⟩
    have hw := hfollows w
    split at hn
    · rename_i value hvalue
      rw [hvalue] at hw
      exact took_after (took_of_follows hw hn)
    · rename_i hnone
      rw [hnone] at hw
      exact took_before (fileNumber_took hbase hn) hw

/-- **Only a long duration is changed.** In an accepted configuration every integer is
the number in its last flag, or else in its key, exactly where the number of the
duration is one that its field holds. -/
theorem sim_integers_iff (h : parseSimArgs strtod files args = .ok cfg) :
    (∀ w n, written strtod files args w = some n → cfg.whole w = n) ↔
      ∀ n, written strtod files args .durationSeconds = some n → n ≤ 2 ^ 31 - 1 := by
  obtain ⟨path, as, hend, htook⟩ := parseSimArgs_took h
  have hstored : ∀ w n, written strtod files args w = some n →
      w.valid n = true ∧ cfg.whole w = w.toInt (w.narrow n) := by
    intro w n hn
    obtain ⟨hvalid, hlast⟩ := htook w n hn
    refine ⟨hvalid, ?_⟩
    rw [SimConfig.whole, get_ended hend hlast]
  have hduration : ∀ n, written strtod files args .durationSeconds = some n →
      (cfg.whole .durationSeconds = n ↔ n ≤ 2 ^ 31 - 1) := by
    intro n hn
    obtain ⟨hvalid, hwhole⟩ := hstored _ n hn
    have hpos : 0 ≤ n := by simpa [Whole.valid, validDurationSeconds] using hvalid
    rw [hwhole]
    exact toInt_narrow_duration hpos
  constructor
  · intro hall n hn
    exact (hduration n hn).mp (hall _ n hn)
  · intro hfits w n hn
    by_cases hw : w = .durationSeconds
    · subst hw
      exact (hduration n hn).mpr (hfits n hn)
    · obtain ⟨hvalid, hwhole⟩ := hstored w n hn
      rw [hwhole]
      exact toInt_narrow hvalid hw

end Stored

def minuteArgs : List (List Char) :=
  ["--generate".toList, "5".toList, "--duration".toList, "60".toList, "--seed".toList, "7".toList]

theorem minuteArgs_kept : ∃ cfg, parseSimArgs Toml.strict (fun _ => none) minuteArgs = .ok cfg ∧
    ∀ w n, written Toml.strict (fun _ => none) minuteArgs w = some n → cfg.whole w = n := by
  have hcfg : parseSimArgs Toml.strict (fun _ => none) minuteArgs =
      .ok { mode := .kGenerate, generateCount := 5, durationSeconds := 60, seed := 7 } := by
    with_unfolding_all rfl
  have hminute : written Toml.strict (fun _ => none) minuteArgs .durationSeconds = some 60 := by
    decide +kernel
  refine ⟨_, hcfg, (sim_integers_iff hcfg).mpr fun n hn => ?_⟩
  obtain rfl : (60 : ℤ) = n := Option.some.inj (hminute.symm.trans hn)
  norm_num

def longArgs : List (List Char) :=
  ["--generate".toList, "5".toList, "--duration".toList, "4294967296".toList]

/-- A duration of 2^32 seconds is accepted and stored as 0, which runs forever. -/
theorem longDuration_forever :
    ∃ cfg, parseSimArgs Toml.strict (fun _ => none) longArgs = .ok cfg ∧
      written Toml.strict (fun _ => none) longArgs .durationSeconds = some 4294967296 ∧
      cfg.whole .durationSeconds = 0 := by
  have hcfg : parseSimArgs Toml.strict (fun _ => none) longArgs =
      .ok { mode := .kGenerate, generateCount := 5, durationSeconds := 0 } := by
    with_unfolding_all rfl
  exact ⟨_, hcfg, by decide +kernel, by decide +kernel⟩

end Olv.Sim
