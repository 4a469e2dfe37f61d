import OrbitalViewer.ConfigValues
import OrbitalViewer.Lib.Entries
import OrbitalViewer.TomlDocument

/-!
# Precedence of defaults, file and flags

A command line as groups: a switch, or a flag with its value. Wherever the group
`--config PATH` stands among them the result is the same, and a setting is that
of the last flag, else of the file, else of the defaults.
-/

namespace Olv
open FirstFailure (Passes)
open Settings (Assignment lastOf)

/-! ## Backend -/

theorem Setting.ofKey_key (s : Setting) : Setting.ofKey s.key = some s := by
  cases s <;> decide +kernel

theorem Setting.key_of_ofKey {s : Setting} {k : List Char} (h : Setting.ofKey k = some s) :
    s.key = k := by
  have := List.find?_some h
  simpa using this

section Backend
variable (strtod : Toml.Strtod) (files : Toml.Files) (path : List Char)

/-- What the file says of a setting. -/
def fileValue (s : Setting) : Option s.Field :=
  ((Toml.parseFile strtod files path).values.lookup s.key).bind s.meaning

/-- What an entry of the file assigns. -/
def entryAssignments (e : List Char × Toml.Value) : List (Assignment Setting.Field) :=
  match Setting.ofKey e.1 with
  | none => []
  | some s =>
    match s.readFile path e.2 with
    | .error _ => []
    | .ok v => [⟨s, v⟩]

variable {strtod files path}

theorem applyEntry_assigns (cfg : Config) (e : List Char × Toml.Value) (cfg' : Config)
    (h : applyEntry path cfg e = .ok cfg') :
    cfg' = configFields.assign cfg (entryAssignments path e) := by
  unfold applyEntry at h
  unfold entryAssignments
  cases hs : Setting.ofKey e.1 with
  | none => simp only [hs] at h; cases h
  | some s =>
    simp only [hs] at h ⊢
    cases hv : s.readFile path e.2 with
    | error err => simp only [hv] at h; cases h
    | ok v =>
      simp only [hv] at h ⊢
      obtain rfl := Except.ok.inj h
      rfl

theorem mem_entryAssignments {e : List Char × Toml.Value} {s : Setting} {w : s.Field} :
    ⟨s, w⟩ ∈ entryAssignments path e ↔ s.key = e.1 ∧ s.readFile path e.2 = .ok w := by
  unfold entryAssignments
  constructor
  · intro h
    split at h
    · cases h
    · rename_i t ht
      split at h
      · cases h
      · rename_i v hv
        cases List.mem_singleton.mp h
        exact ⟨Setting.key_of_ofKey ht, hv⟩
  · rintro ⟨hkey, hread⟩
    rw [← hkey, Setting.ofKey_key]
    simp only [hread, List.mem_singleton]

theorem entryAssignments_setting {e : List Char × Toml.Value} {a : Assignment Setting.Field}
    (h : a ∈ entryAssignments path e) : a.setting.key = e.1 :=
  (mem_entryAssignments (w := a.value)).mp h |>.1

theorem entryAssignments_length (path : List Char) (e : List Char × Toml.Value) :
    (entryAssignments path e).length ≤ 1 := by
  unfold entryAssignments
  split
  · exact Nat.zero_le 1
  · split
    · exact Nat.zero_le 1
    · exact le_rfl

theorem parseFile_nodup (h : (Toml.parseFile strtod files path).ok = true) :
    (Toml.keys (Toml.parseFile strtod files path).values).Nodup := by
  unfold Toml.parseFile at h ⊢
  split
  · exact List.nodup_nil
  · rename_i text hfile
    rw [hfile] at h
    exact Toml.keys_nodup h

/-- The last assignment of the file, in whatever order it is read. -/
theorem lastOf_file (h : (Toml.parseFile strtod files path).ok = true) (s : Setting) :
    lastOf s ((Toml.inKeyOrder (Toml.parseFile strtod files path).values).flatMap
      (entryAssignments path)) = fileValue strtod files path s := by
  have hnodup := parseFile_nodup h
  have hperm := (List.mergeSort_perm (Toml.parseFile strtod files path).values
    fun a b => a.1 ≤ b.1).flatMap_right (entryAssignments path)
  have hdistinct := Settings.nodup_flatMap Prod.fst Setting.key (entryAssignments_length path)
    (fun _ _ ha => entryAssignments_setting ha) hnodup
  rw [Toml.inKeyOrder, ← Settings.lastOf_perm hdistinct hperm.symm]
  refine Settings.lastOf_eq hdistinct fun w => ?_
  rw [List.mem_flatMap, fileValue, Option.bind_eq_some_iff]
  simp only [← Setting.readFile_meaning path]
  constructor
  · rintro ⟨e, he, ha⟩
    obtain ⟨hkey, hread⟩ := mem_entryAssignments.mp ha
    refine ⟨e.2, (Entries.lookup_iff hnodup).mpr (by rw [hkey]; exact he), ?_⟩
    rw [hread]
    rfl
  · rintro ⟨v, hv, hread⟩
    refine ⟨_, (Entries.lookup_iff hnodup).mp hv, mem_entryAssignments.mpr ⟨rfl, ?_⟩⟩
    exact FirstFailure.ok_of_toOption hread

/-! ### Groups -/

/-- A switch, or a flag with a value that is not the flag of the file. -/
inductive FlagGroup
  | quiet
  | help (long : Bool)
  | valued (flag : ValueFlag) (value : List Char) (apart : value ≠ configFlag)

def FlagGroup.tokens : FlagGroup → List (List Char)
  | quiet => ["--quiet".toList]
  | help long => [if long then "--help".toList else "-h".toList]
  | valued flag value _ => [flag.name, value]

def tokens (gs : List FlagGroup) : List (List Char) := gs.flatMap FlagGroup.tokens

/-- The groups with the file's among them. -/
def withConfig (before : List FlagGroup) (path : List Char) (after : List FlagGroup) :
    List (List Char) :=
  tokens before ++ configFlag :: path :: tokens after

/-- What a group sets. -/
def FlagGroup.assignments : FlagGroup → List (Assignment Setting.Field)
  | quiet => [⟨.logStderr, false⟩]
  | help _ => []
  | valued flag value _ => ((flag.meaning value).map fun v => ⟨flag.setting, v⟩).toList

/-- A group, and what comes after it. -/
def FlagGroup.run (cfg : Config) (g : FlagGroup) (next : Config → Except String Config) :
    Except String Config :=
  match g with
  | quiet => next { cfg with logStderr := false }
  | help _ => .ok { cfg with showHelp := true }
  | valued flag value _ =>
    match applyFlag cfg flag value with
    | .error err => .error err
    | .ok cfg => next cfg

theorem ValueFlag.ofName_name (f : ValueFlag) : ValueFlag.ofName f.name = some f := by
  cases f <;> decide +kernel

theorem ValueFlag.name_apart (f : ValueFlag) :
    f.name ≠ configFlag ∧ ¬ (f.name = "--help".toList ∨ f.name = "-h".toList) ∧
      f.name ≠ "--quiet".toList := by
  cases f <;> decide +kernel

theorem FlagGroup.tokens_apart (g : FlagGroup) : configFlag ∉ g.tokens := by
  cases g with
  | quiet => decide +kernel
  | help long => cases long <;> decide +kernel
  | valued flag value apart =>
    simp only [FlagGroup.tokens, List.mem_cons, List.not_mem_nil, or_false, not_or]
    exact ⟨flag.name_apart.1.symm, apart.symm⟩

/-- The second pass takes a group at a time. -/
theorem applyArgs_group (cfg : Config) (g : FlagGroup) (rest : List (List Char)) :
    applyArgs cfg (g.tokens ++ rest) = g.run cfg fun cfg => applyArgs cfg rest := by
  cases g with
  | quiet =>
    have hconfig : "--quiet".toList ≠ configFlag := by decide +kernel
    have hhelp : ¬ ("--quiet".toList = "--help".toList ∨ "--quiet".toList = "-h".toList) := by
      decide +kernel
    show applyArgs cfg ("--quiet".toList :: rest) = _
    rw [applyArgs.eq_def]
    simp only [if_neg hconfig, if_neg hhelp, if_true]
    rfl
  | help long =>
    have hconfig : (if long then "--help".toList else "-h".toList) ≠ configFlag := by
      cases long <;> decide +kernel
    have hhelp : (if long then "--help".toList else "-h".toList) = "--help".toList ∨
        (if long then "--help".toList else "-h".toList) = "-h".toList := by
      cases long <;> decide +kernel
    show applyArgs cfg ((if long then "--help".toList else "-h".toList) :: rest) = _
    rw [applyArgs.eq_def]
    simp only [if_neg hconfig, if_pos hhelp]
    rfl
  | valued flag value apart =>
    obtain ⟨hconfig, hhelp, hquiet⟩ := flag.name_apart
    show applyArgs cfg (flag.name :: value :: rest) = _
    rw [applyArgs.eq_def]
    simp only [if_neg hconfig, if_neg hhelp, if_neg hquiet, flag.ofName_name]
    rfl

theorem applyArgs_config (cfg : Config) (path : List Char) (rest : List (List Char)) :
    applyArgs cfg (configFlag :: path :: rest) = applyArgs cfg rest := by
  rw [applyArgs.eq_def]
  exact if_pos rfl

theorem parseArgs_withConfig (before after : List FlagGroup) :
    parseArgs strtod files (withConfig before path after) =
      applyConfigFile strtod files path { configFile := path } >>= fun cfg =>
        applyArgs cfg (tokens (before ++ after)) := by
  have hlocate := locateConfig_inserted "--config given more than once" "missing value for --config"
    path (tokens_apart FlagGroup.tokens_apart before) (tokens_apart FlagGroup.tokens_apart after)
  rw [parseArgs, withConfig, tokens, tokens, hlocate]
  show applyConfigFile strtod files path { configFile := path } >>= _ = _
  congr 1
  funext cfg
  exact skips_config applyArgs_group applyArgs_config cfg

/-- A run without help makes the assignments of its groups. -/
theorem applyArgs_assigns {cfg cfg' : Config} {gs : List FlagGroup}
    (h : applyArgs cfg (tokens gs) = .ok cfg') (hhelp : cfg'.showHelp = false) :
    cfg' = configFields.assign cfg (gs.flatMap FlagGroup.assignments) := by
  induction gs generalizing cfg with
  | nil =>
    have h : checkMerged cfg = .ok cfg' := h
    unfold checkMerged at h
    split at h
    · cases h
    · exact (Except.ok.inj h).symm
  | cons g gs ih =>
    have h : applyArgs cfg (g.tokens ++ tokens gs) = .ok cfg' := h
    rw [applyArgs_group] at h
    rw [List.flatMap_cons, Settings.Fields.assign_append]
    cases g with
    | quiet => exact ih h
    | help long =>
      obtain rfl := Except.ok.inj h
      cases hhelp
    | valued flag value apart =>
      simp only [FlagGroup.run, applyFlag] at h
      split at h
      · cases h
      · rename_i cfg'' hflag
        split at hflag
        · cases hflag
        · rename_i v hv
          obtain rfl := Except.ok.inj hflag
          have hassign : (FlagGroup.valued flag value apart).assignments = [⟨flag.setting, v⟩] := by
            rw [FlagGroup.assignments, ← flag.read_meaning, hv]
            rfl
          rw [hassign]
          exact ih h

theorem applyConfigFile_assigns {cfg cfg' : Config}
    (h : applyConfigFile strtod files path cfg = .ok cfg') (s : Setting) :
    cfg'.get s = (fileValue strtod files path s).getD (cfg.get s) := by
  unfold applyConfigFile at h
  dsimp only at h
  split at h
  · cases h
  · rename_i hok
    have hok : (Toml.parseFile strtod files path).ok = true := by simpa using hok
    rw [configFields.assign_of_passes applyEntry_assigns h, ← lastOf_file hok s]
    exact configFields.get_assign cfg _ s

theorem parseArgs_precedence {before after : List FlagGroup} {cfg : Config}
    (h : parseArgs strtod files (withConfig before path after) = .ok cfg)
    (hhelp : cfg.showHelp = false) (s : Setting) :
    cfg.get s = (lastOf s ((before ++ after).flatMap FlagGroup.assignments)).getD
      ((fileValue strtod files path s).getD (Config.get {} s)) := by
  rw [parseArgs_withConfig] at h
  obtain ⟨base, hfile, hargs⟩ := Sim.bind_ok h
  have hbase : base.get s = (fileValue strtod files path s).getD (Config.get {} s) := by
    rw [applyConfigFile_assigns hfile s]
    cases s <;> rfl
  rw [applyArgs_assigns hargs hhelp, ← hbase]
  exact configFields.get_assign base _ s

end Backend
end Olv

/-! ## Simulator -/

namespace Olv.Sim
open FirstFailure (Passes)
open Settings (Assignment lastOf)

/-- The port when neither the file nor a flag sets one. -/
def defaultPort : Protocol → U16
  | .kOlv1 => 47000
  | .kDis => 47001
  | .kOlv2 => 47002

/-- The built-in defaults. -/
def defaultOf (protocol : Protocol) : (s : Setting) → s.Field
  | .destPort => defaultPort protocol
  | s => SimConfig.get {} s

section Simulator
variable (strtod : Toml.Strtod) (files : Toml.Files) (path : List Char)

/-- What the file says of a setting. -/
def fileValue (s : Setting) : Option s.Field :=
  ((Toml.parseFile strtod files path).values.lookup s.key).bind s.meaning

/-- What the file assigns to a setting. -/
def fileAssignments (s : Setting) : List (Assignment Setting.Field) :=
  match fileValue strtod files path s with
  | none => []
  | some v => [⟨s, v⟩]

variable {strtod files path}

theorem applyKey_assigns (cfg : SimConfig) (s : Setting) (cfg' : SimConfig)
    (h : applyKey path (Toml.parseFile strtod files path).values cfg s = .ok cfg') :
    cfg' = simFields.assign cfg (fileAssignments strtod files path s) := by
  unfold applyKey at h
  unfold fileAssignments fileValue
  split at h
  · rename_i hnone
    obtain rfl := Except.ok.inj h
    rw [hnone]
    rfl
  · rename_i v hv
    rw [hv]
    split at h
    · cases h
    · rename_i w hw
      obtain rfl := Except.ok.inj h
      rw [Option.bind_some, ← s.readFile_meaning path, hw]
      rfl

theorem mem_fileAssignments {s t : Setting} {v : s.Field} :
    ⟨s, v⟩ ∈ fileAssignments strtod files path t ↔
      t = s ∧ fileValue strtod files path s = some v := by
  unfold fileAssignments
  constructor
  · intro h
    split at h
    · cases h
    · rename_i w hw
      cases List.mem_singleton.mp h
      exact ⟨rfl, hw⟩
  · rintro ⟨rfl, hv⟩
    rw [hv]
    exact List.mem_singleton.mpr rfl

variable (strtod files path) in
theorem fileAssignments_length (s : Setting) :
    (fileAssignments strtod files path s).length ≤ 1 := by
  unfold fileAssignments
  split
  · exact Nat.zero_le 1
  · exact le_rfl

theorem Setting.mem_all (s : Setting) : s ∈ Setting.all := by cases s <;> decide

theorem lastOf_file (s : Setting) :
    lastOf s (Setting.all.flatMap (fileAssignments strtod files path)) =
      fileValue strtod files path s := by
  have hall : (Setting.all.map id).Nodup := by decide
  have hdistinct := Settings.nodup_flatMap id id (fileAssignments_length strtod files path)
    (fun _ _ ha => (mem_fileAssignments.mp ha).1.symm) hall
  refine Settings.lastOf_eq hdistinct fun v => ?_
  rw [List.mem_flatMap]
  constructor
  · rintro ⟨t, _, ht⟩
    exact (mem_fileAssignments.mp ht).2
  · intro hv
    exact ⟨s, s.mem_all, mem_fileAssignments.mpr ⟨rfl, hv⟩⟩

theorem applySimConfigFile_assigns {cfg cfg' : SimConfig}
    (h : applySimConfigFile strtod files path cfg = .ok cfg') :
    cfg' = simFields.assign cfg (Setting.all.flatMap (fileAssignments strtod files path)) := by
  unfold applySimConfigFile at h
  dsimp only at h
  split at h
  · cases h
  · obtain ⟨m, hm, h⟩ := bind_ok h
    split at h
    · obtain rfl := Except.ok.inj h
      exact simFields.assign_of_passes applyKey_assigns hm
    · cases h

/-! ### Groups -/

/-- A switch, or a flag with a value that is not the flag of the file. -/
inductive FlagGroup
  | quiet
  | loop
  | help
  | valued (flag : ValueFlag) (value : List Char) (apart : value ≠ configFlag)

def FlagGroup.tokens : FlagGroup → List (List Char)
  | quiet => ["--quiet".toList]
  | loop => ["--loop".toList]
  | help => ["--help".toList]
  | valued flag value _ => [flag.name, value]

def tokens (gs : List FlagGroup) : List (List Char) := gs.flatMap FlagGroup.tokens

/-- The groups with the file's among them. -/
def withConfig (before : List FlagGroup) (path : List Char) (after : List FlagGroup) :
    List (List Char) :=
  tokens before ++ configFlag :: path :: tokens after

/-- What a group sets. -/
def FlagGroup.assignments : FlagGroup → List (Assignment Setting.Field)
  | quiet => [⟨.quiet, true⟩]
  | loop => [⟨.loop, true⟩]
  | help => []
  | valued flag value _ => (flag.meaning value).getD []

/-- A group, and what comes after it. -/
def FlagGroup.run (st : State) (g : FlagGroup) (next : State → Except String SimConfig) :
    Except String SimConfig :=
  match g with
  | quiet => next { st with cfg := { st.cfg with quiet := true } }
  | loop => next { st with cfg := { st.cfg with loop := true } }
  | help => .ok { st.cfg with showHelp := true }
  | valued flag value _ =>
    match applyFlag st flag (some value) with
    | .error err => .error err
    | .ok st => next st

theorem ValueFlag.ofName_name (f : ValueFlag) : ValueFlag.ofName f.name = some f := by
  cases f <;> decide +kernel

theorem ValueFlag.name_apart (f : ValueFlag) :
    f.name ≠ configFlag ∧ f.name ≠ "--help".toList ∧ f.name ≠ "--quiet".toList ∧
      f.name ≠ "--loop".toList := by
  cases f <;> decide +kernel

theorem FlagGroup.tokens_apart (g : FlagGroup) : configFlag ∉ g.tokens := by
  cases g with
  | quiet => decide +kernel
  | loop => decide +kernel
  | help => decide +kernel
  | valued flag value apart =>
    simp only [FlagGroup.tokens, List.mem_cons, List.not_mem_nil, or_false, not_or]
    exact ⟨flag.name_apart.1.symm, apart.symm⟩

/-- The second pass takes a group at a time. -/
theorem applyArgs_group (st : State) (g : FlagGroup) (rest : List (List Char)) :
    applyArgs st (g.tokens ++ rest) = g.run st fun st => applyArgs st rest := by
  have hquiet : "--quiet".toList ≠ configFlag ∧ "--quiet".toList ≠ "--help".toList := by
    decide +kernel
  have hloop : "--loop".toList ≠ configFlag ∧ "--loop".toList ≠ "--help".toList ∧
      "--loop".toList ≠ "--quiet".toList := by decide +kernel
  have hhelp : "--help".toList ≠ configFlag := by decide +kernel
  cases g with
  | quiet =>
    show applyArgs st ("--quiet".toList :: rest) = _
    rw [applyArgs.eq_def]
    simp only [if_neg hquiet.1, if_neg hquiet.2, if_true]
    rfl
  | loop =>
    show applyArgs st ("--loop".toList :: rest) = _
    rw [applyArgs.eq_def]
    simp only [if_neg hloop.1, if_neg hloop.2.1, if_neg hloop.2.2, if_true]
    rfl
  | help =>
    show applyArgs st ("--help".toList :: rest) = _
    rw [applyArgs.eq_def]
    simp only [if_neg hhelp, if_true]
    rfl
  | valued flag value apart =>
    obtain ⟨h1, h2, h3, h4⟩ := flag.name_apart
    show applyArgs st (flag.name :: value :: rest) = _
    rw [applyArgs.eq_def]
    simp only [if_neg h1, if_neg h2, if_neg h3, if_neg h4, flag.ofName_name]
    rfl

theorem applyArgs_config (st : State) (path : List Char) (rest : List (List Char)) :
    applyArgs st (configFlag :: path :: rest) = applyArgs st rest := by
  rw [applyArgs.eq_def]
  exact if_pos rfl

theorem parseSimArgs_withConfig (before after : List FlagGroup) :
    parseSimArgs strtod files (withConfig before path after) =
      applySimConfigFile strtod files path { configFile := path } >>= fun cfg =>
        applyArgs { cfg } (tokens (before ++ after)) := by
  have hlocate := locateConfig_inserted "--config: specified more than once"
    "--config requires a value" path (tokens_apart FlagGroup.tokens_apart before)
    (tokens_apart FlagGroup.tokens_apart after)
  rw [parseSimArgs, withConfig, tokens, tokens, hlocate]
  show applySimConfigFile strtod files path { configFile := path } >>= _ = _
  congr 1
  funext cfg
  exact skips_config applyArgs_group applyArgs_config { cfg }

theorem finish_ok {st : State} {cfg : SimConfig} (h : finish st = .ok cfg) :
    cfg = withDefaultPort st.cfg := by
  unfold finish at h
  split at h
  · cases h
  · split at h
    · cases h
    · split at h
      · cases h
      · split at h
        · cases h
        · exact (Except.ok.inj h).symm

/-- A run without help makes the assignments of its groups, and then sees to the port. -/
theorem applyArgs_assigns {st : State} {cfg : SimConfig} {gs : List FlagGroup}
    (h : applyArgs st (tokens gs) = .ok cfg) (hhelp : cfg.showHelp = false) :
    cfg = withDefaultPort (simFields.assign st.cfg (gs.flatMap FlagGroup.assignments)) := by
  induction gs generalizing st with
  | nil => exact finish_ok h
  | cons g gs ih =>
    have h : applyArgs st (g.tokens ++ tokens gs) = .ok cfg := h
    rw [applyArgs_group] at h
    rw [List.flatMap_cons, Settings.Fields.assign_append]
    cases g with
    | quiet => exact ih h
    | loop => exact ih h
    | help =>
      obtain rfl := Except.ok.inj h
      cases hhelp
    | valued flag value apart =>
      simp only [FlagGroup.run, applyFlag] at h
      split at h
      · cases h
      · rename_i st' hflag
        split at hflag
        · cases hflag
        · rename_i as has
          obtain rfl := Except.ok.inj hflag
          have hassign : (FlagGroup.valued flag value apart).assignments = as := by
            rw [FlagGroup.assignments, ← flag.read_meaning, has]
            rfl
          rw [hassign]
          exact ih h

/-! ### The port -/

theorem set_destPortSet (cfg : SimConfig) (a : Assignment Setting.Field) :
    (cfg.set a).destPortSet = (cfg.destPortSet || (a.at .destPort).isSome) := by
  obtain ⟨t, v⟩ := a
  cases t with
  | destPort =>
    rw [Settings.at_self]
    exact (Bool.or_true _).symm
  | _ =>
    rw [Settings.at_ne (by decide)]
    exact (Bool.or_false _).symm

/-- `dest_port_set` says whether the port was assigned. -/
theorem assign_destPortSet (cfg : SimConfig) (as : List (Assignment Setting.Field)) :
    (simFields.assign cfg as).destPortSet = (cfg.destPortSet || (lastOf .destPort as).isSome) := by
  induction as using List.reverseRecOn with
  | nil => exact (Bool.or_false _).symm
  | append_singleton as a ih =>
    rw [Settings.Fields.assign_append, Settings.lastOf_concat]
    show ((simFields.assign cfg as).set a).destPortSet = _
    rw [set_destPortSet, ih]
    cases a.at .destPort <;> simp

theorem withDefaultPort_destPort (cfg : SimConfig) :
    (withDefaultPort cfg).destPort =
      if cfg.destPortSet ∨ cfg.protocol = .kOlv1 then cfg.destPort else defaultPort cfg.protocol := by
  unfold withDefaultPort
  cases hset : cfg.destPortSet <;> cases hprotocol : cfg.protocol <;> simp [defaultPort]

theorem withDefaultPort_get (cfg : SimConfig) {s : Setting} (hs : s ≠ .destPort) :
    (withDefaultPort cfg).get s = cfg.get s := by
  unfold withDefaultPort
  cases s with
  | destPort => exact absurd rfl hs
  | _ => split <;> [rfl; (split <;> rfl)]

/-- What is assigned in all, over the defaults. -/
theorem get_withDefaultPort (path : List Char) (as : List (Assignment Setting.Field)) (s : Setting) :
    (withDefaultPort (simFields.assign { configFile := path } as)).get s =
      (lastOf s as).getD
        (defaultOf (withDefaultPort (simFields.assign { configFile := path } as)).protocol s) := by
  have hget : ∀ t : Setting, (simFields.assign { configFile := path } as).get t =
      (lastOf t as).getD (SimConfig.get { configFile := path } t) :=
    simFields.get_assign _ as
  have hprotocol := withDefaultPort_get (simFields.assign { configFile := path } as)
    (show Setting.protocol ≠ .destPort by decide)
  cases s with
  | destPort =>
    have hport : (withDefaultPort (simFields.assign { configFile := path } as)).destPort = _ :=
      withDefaultPort_destPort _
    show (withDefaultPort (simFields.assign { configFile := path } as)).destPort = _
    have hdest : (simFields.assign { configFile := path } as).destPort =
      (lastOf .destPort as).getD 47000 := hget .destPort
    have hsame : (withDefaultPort (simFields.assign { configFile := path } as)).protocol =
      (simFields.assign { configFile := path } as).protocol := hprotocol
    rw [hport, assign_destPortSet, hdest, hsame]
    cases hlast : lastOf Setting.destPort as with
    | some v => simp
    | none =>
      simp only [Option.isSome_none, Bool.or_false, Bool.false_eq_true, false_or, Option.getD_none]
      split
      · rename_i holv1
        rw [holv1]
        rfl
      · rfl
  | _ =>
    rw [withDefaultPort_get _ (by decide), hget]
    rfl

theorem parseSimArgs_precedence {before after : List FlagGroup} {cfg : SimConfig}
    (h : parseSimArgs strtod files (withConfig before path after) = .ok cfg)
    (hhelp : cfg.showHelp = false) (s : Setting) :
    cfg.get s = (lastOf s ((before ++ after).flatMap FlagGroup.assignments)).getD
      ((fileValue strtod files path s).getD (defaultOf cfg.protocol s)) := by
  rw [parseSimArgs_withConfig] at h
  obtain ⟨base, hfile, hargs⟩ := bind_ok h
  obtain rfl := applySimConfigFile_assigns hfile
  have hcfg := applyArgs_assigns hargs hhelp
  rw [← Settings.Fields.assign_append] at hcfg
  have hlast : ∀ t : Setting, lastOf t (Setting.all.flatMap (fileAssignments strtod files path) ++
      (before ++ after).flatMap FlagGroup.assignments) =
        (lastOf t ((before ++ after).flatMap FlagGroup.assignments)).or
          (fileValue strtod files path t) := by
    intro t
    rw [Settings.lastOf_append, lastOf_file]
  rw [hcfg, get_withDefaultPort, ← hcfg, hlast]
  cases lastOf s ((before ++ after).flatMap FlagGroup.assignments) <;> simp

end Simulator
end Olv.Sim

namespace Olv
open Settings (lastOf)

/-- **Precedence does not depend on position.** Wherever `--config PATH` stands among
the groups the result is the same, and without help every setting of an accepted
result is that of the last flag that sets it, else of the file, else the default. -/
theorem config_precedence (strtod : Toml.Strtod) (files : Toml.Files) (path : List Char) :
    (∀ before after before' after' : List FlagGroup, before ++ after = before' ++ after' →
      parseArgs strtod files (withConfig before path after) =
        parseArgs strtod files (withConfig before' path after')) ∧
    (∀ (before after : List FlagGroup) (cfg : Config),
      parseArgs strtod files (withConfig before path after) = .ok cfg → cfg.showHelp = false →
        ∀ s : Setting, cfg.get s =
          (lastOf s ((before ++ after).flatMap FlagGroup.assignments)).getD
            ((fileValue strtod files path s).getD (Config.get {} s))) ∧
    (∀ before after before' after' : List Sim.FlagGroup, before ++ after = before' ++ after' →
      Sim.parseSimArgs strtod files (Sim.withConfig before path after) =
        Sim.parseSimArgs strtod files (Sim.withConfig before' path after')) ∧
    (∀ (before after : List Sim.FlagGroup) (cfg : Sim.SimConfig),
      Sim.parseSimArgs strtod files (Sim.withConfig before path after) = .ok cfg →
      cfg.showHelp = false →
        ∀ s : Sim.Setting, cfg.get s =
          (lastOf s ((before ++ after).flatMap Sim.FlagGroup.assignments)).getD
            ((Sim.fileValue strtod files path s).getD (Sim.defaultOf cfg.protocol s))) := by
  refine ⟨?_, fun _ _ _ h hhelp => parseArgs_precedence h hhelp, ?_,
    fun _ _ _ h hhelp => Sim.parseSimArgs_precedence h hhelp⟩
  · intro before after before' after' hgroups
    rw [parseArgs_withConfig, parseArgs_withConfig, hgroups]
  · intro before after before' after' hgroups
    rw [Sim.parseSimArgs_withConfig, Sim.parseSimArgs_withConfig, hgroups]

def backendFile : Toml.Files :=
  fun _ => some "[network]\nudp_port = 47100\nws_port = 8800\n".toList

def simulatorFile : Toml.Files := fun _ => some ("[send]\nchunk = 16\nprotocol = \"olv2\"\n" ++
  "[source]\ngenerate_count = 5\nmode = \"csv\"\n").toList

theorem inKeyOrder_of_ordered {values : List (List Char × Toml.Value)}
    (h : values.Pairwise fun a b => a.1 ≤ b.1) : Toml.inKeyOrder values = values :=
  List.mergeSort_of_pairwise (h.imp fun hle => decide_eq_true hle)

/-- The port is that of the flag, and so are the mode and the count; the other port and the
chunks are those of the files, and the rest is built in. -/
theorem config_precedence_sample :
    (∃ cfg, parseArgs Toml.strict backendFile (withConfig [.quiet] "b.toml".toList
        [.valued .udpPort "47200".toList (by decide)]) = .ok cfg ∧
      cfg.udpPort = 47200 ∧ cfg.wsPort = 8800 ∧ cfg.expirySeconds = 15 ∧ cfg.logStderr = false) ∧
    ∃ cfg, Sim.parseSimArgs Toml.strict simulatorFile (Sim.withConfig
        [.valued .generate "9".toList (by decide)] "s.toml".toList []) = .ok cfg ∧
      cfg.mode = .kGenerate ∧ cfg.generateCount = 9 ∧ cfg.chunk = 16 ∧ cfg.destPort = 47002 ∧
      cfg.seed = 1 := by
  constructor
  · obtain ⟨_, hget, _⟩ := config_precedence Toml.strict backendFile "b.toml".toList
    have hfile : applyConfigFile Toml.strict backendFile "b.toml".toList
        { configFile := "b.toml".toList } =
          .ok { configFile := "b.toml".toList, udpPort := 47100, wsPort := 8800 } := by
      have hvalues : Toml.parseFile Toml.strict backendFile "b.toml".toList =
          { values := [("network.udp_port".toList, .integer 47100),
            ("network.ws_port".toList, .integer 8800)] } := by
        decide +kernel
      rw [applyConfigFile, hvalues]
      show List.foldlM _ _ (Toml.inKeyOrder _) = _
      rw [inKeyOrder_of_ordered (by decide +kernel)]
      decide +kernel
    have haccepted : parseArgs Toml.strict backendFile (withConfig [.quiet] "b.toml".toList
        [.valued .udpPort "47200".toList (by decide)]) =
          .ok { configFile := "b.toml".toList
                udpPort := 47200
                wsPort := 8800
                logStderr := false } := by
      rw [parseArgs_withConfig, hfile]
      decide +kernel
    have hget := hget _ _ _ haccepted rfl
    exact ⟨_, haccepted, (hget .udpPort).trans (by decide +kernel),
      (hget .wsPort).trans (by decide +kernel), (hget .expirySeconds).trans (by decide +kernel),
      (hget .logStderr).trans (by decide +kernel)⟩
  · obtain ⟨_, _, _, hget⟩ := config_precedence Toml.strict simulatorFile "s.toml".toList
    have hfile : Sim.applySimConfigFile Toml.strict simulatorFile "s.toml".toList
        { configFile := "s.toml".toList } =
          .ok { configFile := "s.toml".toList
                mode := .kCsv
                generateCount := 5
                chunk := 16
                protocol := .kOlv2 } := by
      have hvalues : Toml.parseFile Toml.strict simulatorFile "s.toml".toList =
          { values := [("send.chunk".toList, .integer 16),
            ("send.protocol".toList, .string "olv2".toList),
            ("source.generate_count".toList, .integer 5),
            ("source.mode".toList, .string "csv".toList)] } := by
        decide +kernel
      rw [Sim.applySimConfigFile, hvalues, inKeyOrder_of_ordered (by decide +kernel)]
      decide +kernel
    have haccepted : Sim.parseSimArgs Toml.strict simulatorFile (Sim.withConfig
        [.valued .generate "9".toList (by decide)] "s.toml".toList []) =
          .ok { configFile := "s.toml".toList
                mode := .kGenerate
                generateCount := 9
                chunk := 16
                protocol := .kOlv2
                destPort := 47002 } := by
      rw [Sim.parseSimArgs_withConfig, hfile]
      decide +kernel
    have hget := hget _ _ _ haccepted rfl
    exact ⟨_, haccepted, (hget .mode).trans (by decide +kernel),
      (hget .generateCount).trans (by decide +kernel), (hget .chunk).trans (by decide +kernel),
      (hget .destPort).trans (by decide +kernel), (hget .seed).trans (by decide +kernel)⟩

end Olv
