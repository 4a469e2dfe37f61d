import OrbitalViewer.Lib.Coercion
import OrbitalViewer.Lib.Entries
import OrbitalViewer.Lib.JsonText

/-!
# The settings store

`createSettings` of `frontend/js/settings.js`. Patches, site defaults and what is
stored are JSON values; whatever they hold the settings stay well-formed, and what
is persisted is what a new store starts with (`settings_iff`). Only a value that
`Number` throws for breaks this: it escapes from `createSettings`.
-/

namespace SettingsStore
open Json (Value get number truthy convertible)
open Entries (assign)

abbrev Members := List (String × Value)

structure Settings where
  showTrails : Bool
  trailSeconds : ℤ
  showLabels : Bool
  showSky : Bool
  viewMode : String
  categories : List (String × Bool)
  host : String
  port : ℤ
  deriving DecidableEq

def CATEGORIES : List String := ["debris", "star", "comet", "satellite", "groundHot", "unknown"]

def DEFAULTS : Settings where
  showTrails := false
  trailSeconds := 30
  showLabels := false
  showSky := true
  viewMode := "orbit"
  categories := CATEGORIES.map fun key => (key, true)
  host := ""
  port := 8765

/-! ## Patches -/

/-- `Math.trunc` of a finite number. -/
def trunc (neg : Bool) (mag : ℚ) : ℤ := if neg then -⌊mag⌋ else ⌊mag⌋

/-- `none` where `Number` throws. -/
def clampInt (value : Value) (min max fallback : ℤ) : Option ℤ :=
  (number value).map fun
    | .fin neg mag => Min.min max (Max.max min (trunc neg mag))
    | _ => fallback

def patchCategories (base : List (String × Bool)) (patch : Members) : List (String × Bool) :=
  CATEGORIES.foldl (fun base key =>
    match get key patch with
    | some v => assign key (truthy v) base
    | none => base) base

/-- A key that is set as `Boolean` of the patch. -/
def patchToggle (key : String) (base : Bool) (patch : Members) : Bool :=
  match get key patch with
  | some v => truthy v
  | none => base

/-- A key that is set as a clamped integer. -/
def patchInt (key : String) (min max base : ℤ) (patch : Members) : Option ℤ :=
  match get key patch with
  | some v => clampInt v min max base
  | none => some base

def applyPatch (base : Settings) (patch : Members) : Option Settings := do
  let trailSeconds ← patchInt "trailSeconds" 0 60 base.trailSeconds patch
  let port ← patchInt "port" 1 65535 base.port patch
  return {
    showTrails := patchToggle "showTrails" base.showTrails patch
    showLabels := patchToggle "showLabels" base.showLabels patch
    showSky := patchToggle "showSky" base.showSky patch
    viewMode :=
      match get "viewMode" patch with
      | some (.str mode) => if mode = "orbit" ∨ mode = "sat" then mode else base.viewMode
      | _ => base.viewMode
    trailSeconds
    port
    host :=
      match get "host" patch with
      | some (.str host) => host
      | _ => base.host
    categories :=
      match get "categories" patch with
      | some (.obj members) => patchCategories base.categories members
      | _ => base.categories }

/-- The own keys of an object; an array has none of those that are asked for. -/
def keysOf : Value → Option Members
  | .obj members => some members
  | .arr _ => some []
  | _ => none

/-- `clone` is the identity here. -/
def normalize (raw : Option Members) (base : Settings) : Option Settings :=
  match raw with
  | some raw => applyPatch base raw
  | none => some base

def mergeSiteDefaults (siteDefaults : Value) : Option Settings :=
  match keysOf siteDefaults with
  | some patch => applyPatch DEFAULTS patch
  | none => some DEFAULTS

/-! ## Storage -/

/-- The object of the settings, with its keys in order. -/
def Settings.members (s : Settings) : Members :=
  [("showTrails", .bool s.showTrails), ("trailSeconds", .num s.trailSeconds),
    ("showLabels", .bool s.showLabels), ("showSky", .bool s.showSky), ("viewMode", .str s.viewMode),
    ("categories", .obj (s.categories.map fun e => (e.1, .bool e.2))), ("host", .str s.host),
    ("port", .num s.port)]

/-- `JSON.stringify(current)`. -/
def Settings.stringify (s : Settings) : List Char :=
  Json.objectText
    [("showTrails", Json.booleanText s.showTrails), ("trailSeconds", Json.integerText s.trailSeconds),
      ("showLabels", Json.booleanText s.showLabels), ("showSky", Json.booleanText s.showSky),
      ("viewMode", Json.quote s.viewMode.toList),
      ("categories", Json.objectText (s.categories.map fun e => (e.1, Json.booleanText e.2))),
      ("host", Json.quote s.host.toList), ("port", Json.integerText s.port)]

/-- What `getItem` returned, `none` when there is no item or no storage. -/
def loadStored (raw : Option (List Char)) : Option Members :=
  match raw.bind Json.parse with
  | some (.obj members) => some members
  | _ => none

/-! ## The store -/

structure Store where
  effectiveDefaults : Settings
  current : Settings
  stored : Option (List Char)

def createSettings (stored : Option (List Char)) (siteDefaults : Value) : Option Store := do
  let effectiveDefaults ← mergeSiteDefaults siteDefaults
  let current ← normalize (loadStored stored) effectiveDefaults
  return { effectiveDefaults, current, stored }

/-- A call, and whether storage takes what it persists. -/
inductive Call
  | update (patch : Value) (takes : Bool)
  | resetDefaults (takes : Bool)

def Store.persist (st : Store) (takes : Bool) : Store :=
  if takes then { st with stored := some st.current.stringify } else st

/-- What a call leaves behind, also when it throws. -/
def Store.step (st : Store) : Call → Store
  | .update (.obj patch) takes =>
    match applyPatch st.current patch with
    | some current => { st with current }.persist takes
    | none => st
  | .update _ _ => st
  | .resetDefaults takes => { st with current := st.effectiveDefaults }.persist takes

def Store.run (st : Store) (calls : List Call) : Store := calls.foldl Store.step st

/-! ## Numbers in a patch -/

/-- `Number` takes the values of the integer keys. -/
def Numeric (patch : Members) : Prop :=
  ∀ key ∈ ["trailSeconds", "port"], ∀ v, get key patch = some v → convertible v = true

section Patch
variable {base s : Settings} {patch : Members}

theorem clampInt_isSome {v : Value} {min max fallback : ℤ} :
    (clampInt v min max fallback).isSome = true ↔ convertible v = true := by
  rw [clampInt, Option.isSome_map, Json.number_isSome]

theorem clampInt_bounds {v : Value} {min max fallback n : ℤ} (hle : min ≤ max)
    (hfallback : min ≤ fallback ∧ fallback ≤ max) (h : clampInt v min max fallback = some n) :
    min ≤ n ∧ n ≤ max := by
  obtain ⟨d, _, rfl⟩ := Option.map_eq_some_iff.mp h
  cases d with
  | fin neg mag => exact ⟨le_min hle (le_max_left _ _), min_le_left _ _⟩
  | inf neg => exact hfallback
  | nan neg => exact hfallback

/-- An integer in the range is itself. -/
theorem clampInt_same {min max n fallback : ℤ} (hmin : 0 ≤ min) (hmax : max < 2 ^ 53)
    (h : min ≤ n ∧ n ≤ max) : clampInt (.num n) min max fallback = some n := by
  obtain ⟨k, rfl⟩ := Int.eq_ofNat_of_zero_le (hmin.trans h.1)
  have hnumber : number (.num ((k : ℤ) : ℚ)) = some (.fin false k) := by
    rw [Int.cast_natCast]
    exact Json.number_natCast (by omega)
  rw [clampInt, hnumber, Option.map_some]
  congr 1
  show Min.min max (Max.max min ⌊(k : ℚ)⌋) = k
  rw [Int.floor_natCast, max_eq_right h.1, min_eq_right h.2]

theorem patchInt_isSome {key : String} {min max n : ℤ} :
    (patchInt key min max n patch).isSome = true ↔
      ∀ v, get key patch = some v → convertible v = true := by
  unfold patchInt
  split
  · rename_i v hv
    rw [clampInt_isSome, hv]
    exact ⟨fun h w hw => Option.some.inj hw ▸ h, fun h => h v rfl⟩
  · rename_i hnone
    rw [hnone]
    exact ⟨fun _ _ hv => (nomatch hv), fun _ => rfl⟩

theorem patchInt_bounds {key : String} {min max old n : ℤ} (hle : min ≤ max)
    (hold : min ≤ old ∧ old ≤ max) (h : patchInt key min max old patch = some n) :
    min ≤ n ∧ n ≤ max := by
  unfold patchInt at h
  split at h
  · exact clampInt_bounds hle hold h
  · exact Option.some.inj h ▸ hold

theorem applyPatch_isSome : (applyPatch base patch).isSome = true ↔ Numeric patch := by
  have hboth : (applyPatch base patch).isSome = true ↔
      (patchInt "trailSeconds" 0 60 base.trailSeconds patch).isSome = true ∧
        (patchInt "port" 1 65535 base.port patch).isSome = true := by
    unfold applyPatch
    cases patchInt "trailSeconds" 0 60 base.trailSeconds patch <;>
      cases patchInt "port" 1 65535 base.port patch <;> simp
  rw [hboth, patchInt_isSome, patchInt_isSome, Numeric]
  simp

end Patch

/-! ## Well-formed settings -/

structure Settings.Valid (s : Settings) : Prop where
  trailSeconds : 0 ≤ s.trailSeconds ∧ s.trailSeconds ≤ 60
  port : 1 ≤ s.port ∧ s.port ≤ 65535
  viewMode : s.viewMode = "orbit" ∨ s.viewMode = "sat"
  categories : s.categories.map Prod.fst = CATEGORIES

theorem valid_DEFAULTS : DEFAULTS.Valid where
  trailSeconds := by decide
  port := by decide
  viewMode := .inl rfl
  categories := rfl

theorem keys_patchCategories {base : List (String × Bool)} (patch : Members)
    (h : base.map Prod.fst = CATEGORIES) : (patchCategories base patch).map Prod.fst = CATEGORIES := by
  refine List.foldlRecOn (motive := fun b : List (String × Bool) => b.map Prod.fst = CATEGORIES)
    CATEGORIES _ h ?_
  intro b hb key hkey
  split
  · rw [Entries.keys_assign (hb ▸ hkey), hb]
  · exact hb

/-- The categories that a patch has. -/
theorem lookup_patchCategories (base : List (String × Bool)) (patch : Members) (key : String) :
    (patchCategories base patch).lookup key =
      if key ∈ CATEGORIES then ((get key patch).map truthy).or (base.lookup key)
      else base.lookup key := by
  unfold patchCategories
  induction CATEGORIES using List.reverseRecOn with
  | nil => simp
  | append_singleton keys k ih =>
    rw [List.foldl_append, List.foldl_cons, List.foldl_nil]
    cases hk : get k patch with
    | none =>
      dsimp only
      rw [ih]
      by_cases hkey : key = k
      · subst hkey
        simp [hk]
      · simp [hkey]
    | some v =>
      dsimp only
      rw [Entries.lookup_assign, ih]
      by_cases hkey : key = k
      · subst hkey
        simp [hk]
      · simp [hkey]

theorem get_categories {cats : List (String × Bool)} (h : cats.map Prod.fst = CATEGORIES)
    (key : String) : get key (cats.map fun e => (e.1, .bool e.2)) = (cats.lookup key).map .bool := by
  have hkeys : ((cats.map fun e => (e.1, Value.bool e.2)).map Prod.fst).Nodup := by
    rw [List.map_map]
    exact h ▸ (by decide : CATEGORIES.Nodup)
  rw [← Entries.lookup_map]
  exact Entries.lookup_reverse hkeys key

theorem patchCategories_same {base cats : List (String × Bool)} (hbase : base.map Prod.fst = CATEGORIES)
    (h : cats.map Prod.fst = CATEGORIES) :
    patchCategories base (cats.map fun e => (e.1, .bool e.2)) = cats := by
  have hkeys := keys_patchCategories (cats.map fun e => (e.1, .bool e.2)) hbase
  have hnodup : CATEGORIES.Nodup := by decide
  refine Entries.ext_lookup (hkeys.trans h.symm) (hkeys ▸ hnodup) ?_
  intro key hkey
  rw [hkeys] at hkey
  rw [lookup_patchCategories, if_pos hkey, get_categories h]
  cases hlookup : cats.lookup key with
  | none =>
    rw [← h] at hkey
    obtain ⟨e, he, rfl⟩ := List.mem_map.mp hkey
    exact absurd (List.lookup_eq_none_iff.mp hlookup e he) (by simp)
  | some v => rfl

section Valid
variable {base s : Settings} {patch : Members}

theorem applyPatch_valid (hbase : base.Valid) (h : applyPatch base patch = some s) : s.Valid := by
  unfold applyPatch at h
  simp only [Option.bind_eq_bind, Option.bind_eq_some_iff] at h
  obtain ⟨trailSeconds, htrail, port, hport, h⟩ := h
  obtain rfl := Option.some.inj h
  constructor
  · exact patchInt_bounds (by decide) hbase.trailSeconds htrail
  · exact patchInt_bounds (by decide) hbase.port hport
  · dsimp only
    split
    · split
      · assumption
      · exact hbase.viewMode
    · exact hbase.viewMode
  · dsimp only
    split
    · exact keys_patchCategories _ hbase.categories
    · exact hbase.categories

/-- A patch with all the keys of well-formed settings makes those settings. -/
theorem applyPatch_members (hbase : base.Valid) (hs : s.Valid) :
    applyPatch base s.members = some s := by
  have htrail : patchInt "trailSeconds" 0 60 base.trailSeconds s.members = some s.trailSeconds :=
    clampInt_same (by decide) (by decide) hs.trailSeconds
  have hport : patchInt "port" 1 65535 base.port s.members = some s.port :=
    clampInt_same (by decide) (by decide) hs.port
  unfold applyPatch
  rw [htrail, hport]
  show some (Settings.mk s.showTrails s.trailSeconds s.showLabels s.showSky
    (if s.viewMode = "orbit" ∨ s.viewMode = "sat" then s.viewMode else base.viewMode)
    (patchCategories base.categories (s.categories.map fun e => (e.1, .bool e.2))) s.host s.port) =
      some s
  rw [if_pos hs.viewMode, patchCategories_same hbase.categories hs.categories]

end Valid

/-! ## What a patch leaves alone -/

/-- An update changes only keys of the patch, and of its categories. -/
def OnlyPatched (patch : Members) (s s' : Settings) : Prop :=
  (∀ key, get key patch = none → get key s'.members = get key s.members) ∧
  ∀ key, (∀ cats, get "categories" patch = some (.obj cats) → get key cats = none) →
    s'.categories.lookup key = s.categories.lookup key

theorem patchToggle_absent {key : String} {patch : Members} {base : Bool} (h : get key patch = none) :
    patchToggle key base patch = base := by
  rw [patchToggle, h]

theorem patchInt_absent {key : String} {patch : Members} {min max base n : ℤ}
    (h : get key patch = none) (hn : patchInt key min max base patch = some n) : n = base := by
  rw [patchInt, h] at hn
  exact (Option.some.inj hn).symm

theorem onlyPatched {base s : Settings} {patch : Members} (h : applyPatch base patch = some s) :
    OnlyPatched patch base s := by
  unfold applyPatch at h
  simp only [Option.bind_eq_bind, Option.bind_eq_some_iff] at h
  obtain ⟨trailSeconds, htrail, port, hport, h⟩ := h
  obtain rfl := Option.some.inj h
  constructor
  · intro key hkey
    apply Entries.lookup_congr
    apply List.forall₂_reverse_iff.mpr
    refine .cons ⟨rfl, ?_⟩ (.cons ⟨rfl, ?_⟩ (.cons ⟨rfl, ?_⟩ (.cons ⟨rfl, ?_⟩ (.cons ⟨rfl, ?_⟩
      (.cons ⟨rfl, ?_⟩ (.cons ⟨rfl, ?_⟩ (.cons ⟨rfl, ?_⟩ .nil)))))))
    · rintro rfl
      rw [patchToggle_absent hkey]
    · rintro rfl
      rw [patchInt_absent hkey htrail]
    · rintro rfl
      rw [patchToggle_absent hkey]
    · rintro rfl
      rw [patchToggle_absent hkey]
    · rintro rfl
      rw [hkey]
    · rintro rfl
      rw [hkey]
    · rintro rfl
      rw [hkey]
    · rintro rfl
      rw [patchInt_absent hkey hport]
  · intro key hkey
    dsimp only
    split
    · rename_i cats hcats
      rw [lookup_patchCategories, hkey cats hcats]
      simp
    · rfl

/-! ## Saving and loading -/

theorem stringify_parses {s : Settings} (hs : s.categories.map Prod.fst = CATEGORIES) :
    Json.parse s.stringify = some (.obj s.members) := by
  have htext : ∀ t : String, Json.Parses (Json.quote t.toList) (.str t) := by
    intro t
    have h := Json.Parses.quote t.toList
    rwa [String.ofList_toList] at h
  have hcats : Json.Parses (Json.objectText (s.categories.map fun e => (e.1, Json.booleanText e.2)))
      (.obj (s.categories.map fun e => (e.1, .bool e.2))) := by
    apply Json.Parses.object
    rw [List.forall₂_map_left_iff, List.forall₂_map_right_iff, List.forall₂_same]
    intro e he
    have hkey : e.1 ∈ CATEGORIES := hs ▸ List.mem_map.mpr ⟨e, he, rfl⟩
    have halnum : CATEGORIES.all (fun key => key.toList.all Char.isAlphanum) = true := by decide
    exact Json.parsesMember (List.all_eq_true.mp halnum e.1 hkey) (.boolean e.2)
  apply Json.parse_eq
  apply Json.Parses.object
  refine .cons (Json.parsesMember (by decide) (.boolean _)) ?_
  refine .cons (Json.parsesMember (by decide) (.integer _)) ?_
  refine .cons (Json.parsesMember (by decide) (.boolean _)) ?_
  refine .cons (Json.parsesMember (by decide) (.boolean _)) ?_
  refine .cons (Json.parsesMember (by decide) (htext _)) ?_
  refine .cons (Json.parsesMember (by decide) hcats) ?_
  refine .cons (Json.parsesMember (by decide) (htext _)) ?_
  exact .cons (Json.parsesMember (by decide) (.integer _)) .nil

/-- What is stored has nothing that `Number` throws for. -/
def Loads (stored : Option (List Char)) : Prop :=
  ∀ patch, loadStored stored = some patch → Numeric patch

/-- Nor have the site defaults. -/
def Merges (siteDefaults : Value) : Prop :=
  ∀ patch, keysOf siteDefaults = some patch → Numeric patch

theorem mergeSiteDefaults_isSome {site : Value} :
    (mergeSiteDefaults site).isSome = true ↔ Merges site := by
  unfold mergeSiteDefaults Merges
  cases keysOf site with
  | none => simp
  | some patch => simp [applyPatch_isSome]

theorem mergeSiteDefaults_valid {site : Value} {s : Settings} (h : mergeSiteDefaults site = some s) :
    s.Valid := by
  unfold mergeSiteDefaults at h
  split at h
  · exact applyPatch_valid valid_DEFAULTS h
  · exact Option.some.inj h ▸ valid_DEFAULTS

theorem normalize_isSome {stored : Option (List Char)} {b : Settings} :
    (normalize (loadStored stored) b).isSome = true ↔ Loads stored := by
  unfold normalize Loads
  cases loadStored stored with
  | none => simp
  | some patch => simp [applyPatch_isSome]

theorem normalize_valid {raw : Option Members} {base s : Settings} (hbase : base.Valid)
    (h : normalize raw base = some s) : s.Valid := by
  unfold normalize at h
  split at h
  · exact applyPatch_valid hbase h
  · exact Option.some.inj h ▸ hbase

def Store.Valid (st : Store) : Prop := st.effectiveDefaults.Valid ∧ st.current.Valid

theorem createSettings_isSome {stored : Option (List Char)} {site : Value} :
    (createSettings stored site).isSome = true ↔ Loads stored ∧ Merges site := by
  rw [← mergeSiteDefaults_isSome]
  unfold createSettings
  cases mergeSiteDefaults site with
  | none => simp
  | some base =>
    rw [← normalize_isSome (b := base)]
    cases hnormalize : normalize (loadStored stored) base <;> simp [hnormalize]

theorem createSettings_valid {stored : Option (List Char)} {site : Value} {st : Store}
    (h : createSettings stored site = some st) : st.Valid := by
  unfold createSettings at h
  simp only [Option.bind_eq_bind, Option.bind_eq_some_iff] at h
  obtain ⟨base, hbase, current, hcurrent, h⟩ := h
  obtain rfl := Option.some.inj h
  have hvalid := mergeSiteDefaults_valid hbase
  exact ⟨hvalid, normalize_valid hvalid hcurrent⟩

/-- A new store starts with what was persisted. -/
theorem createSettings_stringify {s : Settings} (hs : s.Valid) {site : Value} {st : Store}
    (h : createSettings (some s.stringify) site = some st) : st.current = s := by
  unfold createSettings at h
  simp only [Option.bind_eq_bind, Option.bind_eq_some_iff] at h
  obtain ⟨base, hbase, current, hcurrent, h⟩ := h
  obtain rfl := Option.some.inj h
  have hload : loadStored (some s.stringify) = some s.members := by
    rw [loadStored, Option.bind_some, stringify_parses hs.categories]
  rw [hload] at hcurrent
  have hsame := applyPatch_members (mergeSiteDefaults_valid hbase) hs
  exact Option.some.inj (hcurrent.symm.trans hsame)

theorem loads_stringify {s : Settings} (hs : s.Valid) : Loads (some s.stringify) := by
  apply (normalize_isSome (b := s)).mp
  have hload : loadStored (some s.stringify) = some s.members := by
    rw [loadStored, Option.bind_some, stringify_parses hs.categories]
  rw [hload, normalize, applyPatch_members hs hs]
  rfl

/-! ## Calls -/

/-- The call writes to storage, and storage takes it. -/
def Call.Persists : Call → Prop
  | .update (.obj patch) takes => takes = true ∧ Numeric patch
  | .update _ _ => False
  | .resetDefaults takes => takes = true

def Call.ChangesOnly (s s' : Settings) : Call → Prop
  | .update (.obj patch) _ => OnlyPatched patch s s'
  | .update _ _ => s' = s
  | .resetDefaults _ => True

section Calls
variable {st : Store} {call : Call}

theorem persist_current (takes : Bool) : (st.persist takes).current = st.current := by
  unfold Store.persist
  split <;> rfl

theorem Store.Valid.persist (h : st.Valid) (takes : Bool) : (st.persist takes).Valid := by
  unfold Store.persist
  split <;> exact h

theorem Store.Valid.step (h : st.Valid) (call : Call) : (st.step call).Valid := by
  cases call with
  | resetDefaults takes =>
    have hnext : Store.Valid { st with current := st.effectiveDefaults } := ⟨h.1, h.1⟩
    exact hnext.persist takes
  | update patch takes =>
    cases patch with
    | obj patch =>
      unfold Store.step
      dsimp only
      split
      · rename_i s hs
        have hnext : Store.Valid { st with current := s } := ⟨h.1, applyPatch_valid h.2 hs⟩
        exact hnext.persist takes
      · exact h
    | _ => exact h

theorem Store.Valid.run (h : st.Valid) (calls : List Call) : (st.run calls).Valid := by
  induction calls generalizing st with
  | nil => exact h
  | cons call calls ih => exact ih (h.step call)

theorem onlyPatched_refl (patch : Members) (s : Settings) : OnlyPatched patch s s :=
  ⟨fun _ _ => rfl, fun _ _ => rfl⟩

theorem step_changes (st : Store) (call : Call) :
    call.ChangesOnly st.current (st.step call).current := by
  cases call with
  | resetDefaults takes => trivial
  | update patch takes =>
    cases patch with
    | obj patch =>
      show OnlyPatched patch st.current _
      unfold Store.step
      dsimp only
      split
      · rename_i s hs
        rw [persist_current]
        exact onlyPatched hs
      · exact onlyPatched_refl patch st.current
    | _ => rfl

theorem step_persists (h : call.Persists) :
    (st.step call).stored = some (st.step call).current.stringify := by
  cases call with
  | resetDefaults takes =>
    obtain rfl : takes = true := h
    rfl
  | update patch takes =>
    cases patch with
    | obj patch =>
      obtain ⟨rfl, hnumeric⟩ := h
      obtain ⟨s, hs⟩ := Option.isSome_iff_exists.mp (applyPatch_isSome.mpr hnumeric)
      have hstep : st.step (.update (.obj patch) true) = { st with current := s }.persist true := by
        rw [Store.step, hs]
      rw [hstep]
      rfl
    | _ => exact h.elim

/-- After a call that persists, a new store starts with the current settings. -/
def Reloads (site : Value) (st : Store) : Prop :=
  ∃ st', createSettings st.stored site = some st' ∧ st'.current = st.current

theorem reloads_iff (hst : st.Valid) (h : call.Persists) {site : Value} :
    Reloads site (st.step call) ↔ Merges site := by
  have hvalid := (hst.step call).2
  unfold Reloads
  rw [step_persists h]
  constructor
  · rintro ⟨st', hst', _⟩
    exact (createSettings_isSome.mp (Option.isSome_iff_exists.mpr ⟨st', hst'⟩)).2
  · intro hsite
    obtain ⟨st', hst'⟩ := Option.isSome_iff_exists.mp
      (createSettings_isSome.mpr ⟨loads_stringify hvalid, hsite⟩)
    exact ⟨st', hst', createSettings_stringify hvalid hst'⟩

end Calls

/-- A store is made, and along the calls its settings stay well-formed, change only
where they are patched, and start a new store, with its own site defaults, after
every call that persists. -/
def Upholds (stored : Option (List Char)) (site site' : Value) (calls : List Call) : Prop :=
  ∃ st, createSettings stored site = some st ∧ st.current.Valid ∧
    ∀ before call after, calls = before ++ call :: after →
      ((st.run before).step call).current.Valid ∧
      call.ChangesOnly (st.run before).current ((st.run before).step call).current ∧
      (call.Persists → Reloads site' ((st.run before).step call))

/-- **Only what `Number` throws for breaks the store.** -/
theorem settings_iff (stored : Option (List Char)) (site site' : Value) (calls : List Call) :
    Upholds stored site site' calls ↔
      Loads stored ∧ Merges site ∧ (Merges site' ∨ ∀ call ∈ calls, ¬ call.Persists) := by
  constructor
  · rintro ⟨st, hst, _, hcalls⟩
    obtain ⟨hloads, hmerges⟩ := createSettings_isSome.mp (Option.isSome_iff_exists.mpr ⟨st, hst⟩)
    refine ⟨hloads, hmerges, ?_⟩
    by_cases hpersist : ∃ call ∈ calls, call.Persists
    · obtain ⟨call, hmem, hp⟩ := hpersist
      obtain ⟨before, after, hsplit⟩ := List.append_of_mem hmem
      obtain ⟨_, _, hreload⟩ := hcalls before call after hsplit
      exact .inl ((reloads_iff ((createSettings_valid hst).run before) hp).mp (hreload hp))
    · exact .inr fun call hmem hp => hpersist ⟨call, hmem, hp⟩
  · rintro ⟨hloads, hmerges, hlater⟩
    obtain ⟨st, hst⟩ := Option.isSome_iff_exists.mp (createSettings_isSome.mpr ⟨hloads, hmerges⟩)
    have hvalid := createSettings_valid hst
    refine ⟨st, hst, hvalid.2, fun before call after hsplit => ?_⟩
    have hbefore := hvalid.run before
    refine ⟨(hbefore.step call).2, step_changes _ call, fun hp => ?_⟩
    apply (reloads_iff hbefore hp).mpr
    have hmem : call ∈ calls := hsplit ▸ List.mem_append_right _ List.mem_cons_self
    exact hlater.resolve_right fun hnone => hnone call hmem hp

/-- A stored port that `Number` throws for. -/
def brokenText : List Char := "\x7b\"port\":\x7b\"toString\":0\x7d\x7d".toList

/-- The text is that of an object, and no store is made. -/
theorem brokenText_throws :
    (loadStored (some brokenText)).isSome = true ∧
      ¬ Upholds (some brokenText) (.obj []) (.obj []) [] := by
  have hnone : (createSettings (some brokenText) (.obj [])).isSome = false := by decide +kernel
  refine ⟨by decide +kernel, ?_⟩
  rintro ⟨st, hst, _⟩
  rw [hst] at hnone
  cases hnone

end SettingsStore
