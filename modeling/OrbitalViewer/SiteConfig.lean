import OrbitalViewer.SettingsStore
import OrbitalViewer.TomlJs

/-!
# Site defaults

`loadSiteConfig` of `frontend/js/site_config.js`: the values of `config.toml` that
pass the schema become the defaults of the settings. Whatever is fetched, a store
can be made of it, and its settings are exactly the valid values of the file over
the built-in ones (`site_settings`).
-/

namespace SiteConfig
open Olv.Toml (JsValue parseToml)
open SettingsStore
open Json (Value)

inductive ValueType where
  | string
  | boolean
  | integer (min max : ℤ)

structure SchemaEntry where
  key : String
  type : ValueType
  resultKey : String

def SITE_CONFIG_SCHEMA : List SchemaEntry :=
  [⟨"websocket.host", .string, "host"⟩, ⟨"websocket.port", .integer 1 65535, "port"⟩,
    ⟨"display.show_trails", .boolean, "showTrails"⟩,
    ⟨"display.trail_seconds", .integer 0 60, "trailSeconds"⟩,
    ⟨"display.show_labels", .boolean, "showLabels"⟩]

/-- `isValidValue`, with the value. -/
def validValue : ValueType → JsValue → Option Value
  | .string, .string s => some (.str (String.ofList s))
  | .boolean, .boolean b => some (.bool b)
  | .integer min max, .number v =>
    if v.datum.isFinite && v.datum.toRat.isInt && min ≤ v.datum.toRat && v.datum.toRat ≤ max then
      some (.num v.datum.toRat)
    else none
  | _, _ => none

/-- One key of the file; what is unknown or invalid is skipped. -/
def assignEntry (result : Members) (e : List Char × JsValue) : Members :=
  match SITE_CONFIG_SCHEMA.find? fun entry => entry.key.toList = e.1 with
  | none => result
  | some entry =>
    match validValue entry.type e.2 with
    | none => result
    | some v => Entries.assign entry.resultKey v result

/-- The pairs of the file, and none if it was not fetched or does not parse. -/
def fileValues (fetched : Option (List Char)) : List (List Char × JsValue) :=
  match fetched.map parseToml with
  | some (.ok values) => values
  | _ => []

/-- `fetched` is `none` when there was no response, or none that is ok. -/
def loadSiteConfig (fetched : Option (List Char)) : Members :=
  (fileValues fetched).foldl assignEntry []

/-! ## What the file configures -/

/-- The value of a key, if it has one that the schema takes. -/
def configured (values : List (List Char × JsValue)) (entry : SchemaEntry) : Option Value :=
  (values.lookup entry.key.toList).bind (validValue entry.type)

section Fold
variable {values : List (List Char × JsValue)} {entry : SchemaEntry} {result : Members}

theorem find_schema (h : entry ∈ SITE_CONFIG_SCHEMA) :
    (SITE_CONFIG_SCHEMA.find? fun e => e.key.toList = entry.key.toList) = some entry := by
  simp only [SITE_CONFIG_SCHEMA, List.mem_cons, List.not_mem_nil, or_false] at h
  rcases h with rfl | rfl | rfl | rfl | rfl <;> rfl

theorem resultKey_injective {e e' : SchemaEntry} (h : e ∈ SITE_CONFIG_SCHEMA)
    (h' : e' ∈ SITE_CONFIG_SCHEMA) (heq : e.resultKey = e'.resultKey) : e.key = e'.key := by
  simp only [SITE_CONFIG_SCHEMA, List.mem_cons, List.not_mem_nil, or_false] at h h'
  rcases h with rfl | rfl | rfl | rfl | rfl <;>
    rcases h' with rfl | rfl | rfl | rfl | rfl <;> first | rfl | (exact absurd heq (by decide))

/-- A pair writes the result of its own key alone. -/
theorem lookup_assignEntry (h : entry ∈ SITE_CONFIG_SCHEMA) (e : List Char × JsValue) :
    (assignEntry result e).lookup entry.resultKey =
      (if e.1 = entry.key.toList then validValue entry.type e.2 else none).or
        (result.lookup entry.resultKey) := by
  unfold assignEntry
  by_cases hkey : e.1 = entry.key.toList
  · have hfind : (SITE_CONFIG_SCHEMA.find? fun s => s.key.toList = e.1) = some entry := by
      rw [hkey]
      exact find_schema h
    rw [hfind, if_pos hkey]
    dsimp only
    cases validValue entry.type e.2 with
    | none => rfl
    | some v => simp [Entries.lookup_assign]
  · rw [if_neg hkey]
    cases hfind : SITE_CONFIG_SCHEMA.find? fun s => s.key.toList = e.1 with
    | none => rfl
    | some other =>
      have hmem := List.mem_of_find?_eq_some hfind
      have hother : other.key.toList = e.1 := by simpa using List.find?_some hfind
      dsimp only
      cases validValue other.type e.2 with
      | none => rfl
      | some v =>
        have hne : entry.resultKey ≠ other.resultKey := fun heq =>
          hkey (hother.symm.trans (congrArg String.toList (resultKey_injective h hmem heq)).symm)
        simp [Entries.lookup_assign, hne]

/-- A file configures what its pairs say. -/
theorem lookup_fold (h : entry ∈ SITE_CONFIG_SCHEMA) (hnodup : (values.map Prod.fst).Nodup) :
    (values.foldl assignEntry result).lookup entry.resultKey =
      (configured values entry).or (result.lookup entry.resultKey) := by
  induction values generalizing result with
  | nil => rfl
  | cons e values ih =>
    obtain ⟨hfresh, hrest⟩ := List.nodup_cons.mp hnodup
    rw [List.foldl_cons, ih hrest, lookup_assignEntry h]
    unfold configured
    rw [List.lookup_cons]
    by_cases hkey : e.1 = entry.key.toList
    · have hnone : values.lookup entry.key.toList = none := by
        apply List.lookup_eq_none_iff.mpr
        intro other hother
        refine bne_iff_ne.mpr fun heq => hfresh ?_
        exact List.mem_map.mpr ⟨other, hother, heq.symm.trans hkey.symm⟩
      rw [hnone, if_pos hkey, hkey, beq_self_eq_true]
      rfl
    · rw [if_neg hkey, beq_eq_false_iff_ne.mpr (Ne.symm hkey)]
      rfl

/-- What is no result of the schema is never written. -/
theorem lookup_fold_other {key : String} (h : ∀ e ∈ SITE_CONFIG_SCHEMA, e.resultKey ≠ key) :
    (values.foldl assignEntry result).lookup key = result.lookup key := by
  induction values generalizing result with
  | nil => rfl
  | cons e values ih =>
    rw [List.foldl_cons, ih]
    unfold assignEntry
    cases hfind : SITE_CONFIG_SCHEMA.find? fun s => s.key.toList = e.1 with
    | none => rfl
    | some other =>
      dsimp only
      cases validValue other.type e.2 with
      | none => rfl
      | some v =>
        have hne := (h other (List.mem_of_find?_eq_some hfind)).symm
        simp [Entries.lookup_assign, hne]

theorem nodup_assignEntry (e : List Char × JsValue) (h : (result.map Prod.fst).Nodup) :
    ((assignEntry result e).map Prod.fst).Nodup := by
  unfold assignEntry
  split
  · exact h
  · split
    · exact h
    · exact Entries.nodup_assign h

theorem nodup_fold (h : (result.map Prod.fst).Nodup) :
    ((values.foldl assignEntry result).map Prod.fst).Nodup :=
  List.foldlRecOn (motive := fun r : Members => (r.map Prod.fst).Nodup) values _ h
    fun _ hr e _ => nodup_assignEntry e hr

end Fold

/-- A file repeats no key. -/
theorem fileValues_nodup (fetched : Option (List Char)) :
    ((fileValues fetched).map Prod.fst).Nodup := by
  unfold fileValues
  split
  · rename_i values h
    obtain ⟨text, _, htext⟩ := Option.map_eq_some_iff.mp h
    obtain ⟨hrun, rfl⟩ := Olv.Toml.run_of_ok htext
    have hpasses := FirstFailure.passes_of_run hrun
    have hempty : (Olv.Toml.keys ({} : Olv.Toml.State JsValue).values).Nodup := List.nodup_nil
    obtain ⟨_, _, hnodup, hend⟩ := (Olv.Toml.passes_iff hempty).mp hpasses
    rw [hend]
    exact hnodup
  · exact List.nodup_nil

/-- What the file says of a setting. -/
def fileSetting (fetched : Option (List Char)) (key : String) : Option Value :=
  (SITE_CONFIG_SCHEMA.find? fun e => e.resultKey = key).bind (configured (fileValues fetched))

theorem get_loadSiteConfig (fetched : Option (List Char)) (key : String) :
    Json.get key (loadSiteConfig fetched) = fileSetting fetched key := by
  have hempty : (([] : Members).map Prod.fst).Nodup := List.nodup_nil
  refine (Entries.lookup_reverse (nodup_fold hempty) key).trans ?_
  unfold fileSetting
  cases hfind : SITE_CONFIG_SCHEMA.find? fun e => e.resultKey = key with
  | none =>
    apply lookup_fold_other
    intro e he
    simpa using List.find?_eq_none.mp hfind e he
  | some entry =>
    have hkey : entry.resultKey = key := by simpa using List.find?_some hfind
    subst hkey
    rw [lookup_fold (List.mem_of_find?_eq_some hfind) (fileValues_nodup fetched)]
    exact Option.or_none

/-! ## The settings of a site -/

section Defaults
variable {values : List (List Char × JsValue)} {key resultKey : String} {v : Value}

/-- A valid value has the type of its entry, and is in its range. -/
def Typed : ValueType → Value → Prop
  | .string, v => ∃ s, v = .str s
  | .boolean, v => ∃ b, v = .bool b
  | .integer min max, v => ∃ n : ℤ, v = .num n ∧ min ≤ n ∧ n ≤ max

theorem validValue_typed {type : ValueType} {w : JsValue} (h : validValue type w = some v) :
    Typed type v := by
  cases type with
  | string =>
    cases w with
    | string s => exact ⟨_, (Option.some.inj h).symm⟩
    | _ => cases h
  | boolean =>
    cases w with
    | boolean b => exact ⟨_, (Option.some.inj h).symm⟩
    | _ => cases h
  | integer min max =>
    cases w with
    | number x =>
      rw [validValue] at h
      split_ifs at h with hvalid
      · simp only [Bool.and_eq_true, decide_eq_true_eq] at hvalid
        obtain ⟨⟨⟨_, hint⟩, hmin⟩, hmax⟩ := hvalid
        have hnum : ((x.datum.toRat.num : ℤ) : ℚ) = x.datum.toRat :=
          (Rat.eq_num_of_isInt hint).symm
        refine ⟨x.datum.toRat.num, ?_, ?_, ?_⟩
        · rw [hnum]
          exact (Option.some.inj h).symm
        · exact_mod_cast hnum ▸ hmin
        · exact_mod_cast hnum ▸ hmax
    | _ => cases h

/-- What a file says of a setting has the type of the setting. -/
theorem fileSetting_typed {fetched : Option (List Char)} {entry : SchemaEntry}
    (hentry : (SITE_CONFIG_SCHEMA.find? fun e => e.resultKey = key) = some entry)
    (h : fileSetting fetched key = some v) : Typed entry.type v := by
  rw [fileSetting, hentry, Option.bind_some] at h
  obtain ⟨w, _, hw⟩ := Option.bind_eq_some_iff.mp h
  exact validValue_typed hw

/-- An integer of a file that is in the range of the store is kept. -/
theorem patchInt_eq {m : Members} (base : ℤ) {min max : ℤ} (hmin : 0 ≤ min) (hmax : max < 2 ^ 53)
    (h : ∀ v, Json.get key m = some v → Typed (.integer min max) v) :
    ∃ n, patchInt key min max base m = some n ∧ Value.num n = (Json.get key m).getD (.num base) := by
  unfold patchInt
  cases hget : Json.get key m with
  | none => exact ⟨base, rfl, rfl⟩
  | some v =>
    obtain ⟨n, rfl, hn⟩ := h v hget
    exact ⟨n, clampInt_same hmin hmax hn, rfl⟩

theorem patchToggle_eq {m : Members} (base : Bool)
    (h : ∀ v, Json.get key m = some v → Typed .boolean v) :
    Value.bool (patchToggle key base m) = (Json.get key m).getD (.bool base) := by
  unfold patchToggle
  cases hget : Json.get key m with
  | none => rfl
  | some v =>
    obtain ⟨b, rfl⟩ := h v hget
    rfl

end Defaults

/-- The settings are the built-in ones, with what the file says in their place. -/
def Configured (fetched : Option (List Char)) (s : Settings) : Prop :=
  s.members = DEFAULTS.members.map fun e => (e.1, (fileSetting fetched e.1).getD e.2)

/-- Whatever is fetched, it merges, and into what it configures. -/
theorem merge_configured (fetched : Option (List Char)) :
    ∃ s, mergeSiteDefaults (.obj (loadSiteConfig fetched)) = some s ∧ Configured fetched s := by
  have hget := get_loadSiteConfig fetched
  have htyped : ∀ entry ∈ SITE_CONFIG_SCHEMA, ∀ v,
      Json.get entry.resultKey (loadSiteConfig fetched) = some v → Typed entry.type v := by
    intro entry hentry v hv
    rw [hget] at hv
    refine fileSetting_typed ?_ hv
    simp only [SITE_CONFIG_SCHEMA, List.mem_cons, List.not_mem_nil, or_false] at hentry
    rcases hentry with rfl | rfl | rfl | rfl | rfl <;> rfl
  obtain ⟨trailSeconds, htrail, htrailValue⟩ := patchInt_eq DEFAULTS.trailSeconds
    (by decide) (by decide) (htyped _ (.tail _ (.tail _ (.tail _ (.head _)))))
  obtain ⟨port, hport, hportValue⟩ := patchInt_eq DEFAULTS.port
    (by decide) (by decide) (htyped _ (.tail _ (.head _)))
  have htrails := patchToggle_eq DEFAULTS.showTrails
    (htyped _ (.tail _ (.tail _ (.head _))))
  have hlabels := patchToggle_eq DEFAULTS.showLabels
    (htyped _ (.tail _ (.tail _ (.tail _ (.tail _ (.head _))))))
  have hother : ∀ key, (SITE_CONFIG_SCHEMA.find? fun e => e.resultKey = key) = none →
      Json.get key (loadSiteConfig fetched) = none := by
    intro key hkey
    rw [hget, fileSetting, hkey, Option.bind_none]
  have hhost : Json.get "host" (loadSiteConfig fetched) = none ∨
      ∃ t, Json.get "host" (loadSiteConfig fetched) = some (.str t) := by
    cases hv : Json.get "host" (loadSiteConfig fetched) with
    | none => exact .inl rfl
    | some v =>
      obtain ⟨t, rfl⟩ := htyped _ (.head _) v hv
      exact .inr ⟨t, rfl⟩
  dsimp only at htrail hport htrailValue hportValue htrails hlabels
  unfold mergeSiteDefaults keysOf applyPatch
  dsimp only
  rw [htrail, hport, hother "viewMode" rfl, hother "categories" rfl]
  refine ⟨_, rfl, ?_⟩
  simp only [Configured, Settings.members, List.map_cons, List.map_nil, ← hget]
  rw [htrails, htrailValue, hlabels, hportValue, hother "viewMode" rfl, hother "categories" rfl,
    hother "showSky" rfl, patchToggle, hother "showSky" rfl]
  rcases hhost with hnone | ⟨t, ht⟩
  · rw [hnone]
    rfl
  · rw [ht]
    rfl

/-! ## The store of a page -/

theorem run_effectiveDefaults (st : Store) (calls : List Call) :
    (st.run calls).effectiveDefaults = st.effectiveDefaults := by
  refine List.foldlRecOn (motive := fun s : Store => s.effectiveDefaults = st.effectiveDefaults)
    calls _ rfl ?_
  intro s hs call _
  refine Eq.trans ?_ hs
  have hpersist : ∀ (s : Store) takes, (s.persist takes).effectiveDefaults = s.effectiveDefaults := by
    intro s takes
    unfold Store.persist
    split <;> rfl
  cases call with
  | resetDefaults takes => exact hpersist _ takes
  | update patch takes =>
    unfold Store.step
    split
    · split
      · exact hpersist _ _
      · rfl
    · rfl
    · exact hpersist _ _

/-- **The site file configures the store, and cannot break it.** Whatever was
fetched, only what is stored decides whether there is a store. Without anything
stored it starts with the values of the file over the built-in ones, and after any
calls a reset returns to them. -/
theorem site_settings (fetched stored : Option (List Char)) :
    Loads stored ↔ ∃ st, createSettings stored (.obj (loadSiteConfig fetched)) = some st ∧
      (loadStored stored = none → Configured fetched st.current) ∧
      ∀ calls takes, Configured fetched ((st.run calls).step (.resetDefaults takes)).current := by
  obtain ⟨base, hbase, hconfigured⟩ := merge_configured fetched
  constructor
  · intro hloads
    obtain ⟨current, hcurrent⟩ := Option.isSome_iff_exists.mp
      ((normalize_isSome (b := base)).mpr hloads)
    refine ⟨⟨base, current, stored⟩, ?_, ?_, ?_⟩
    · rw [createSettings, hbase]
      simp [hcurrent]
    · intro hnone
      rw [hnone] at hcurrent
      exact Option.some.inj hcurrent ▸ hconfigured
    · intro calls takes
      show Configured fetched (Store.persist _ takes).current
      rw [persist_current]
      exact (run_effectiveDefaults _ calls).symm ▸ hconfigured
  · rintro ⟨st, hst, _⟩
    exact (createSettings_isSome.mp (Option.isSome_iff_exists.mpr ⟨st, hst⟩)).1

end SiteConfig
