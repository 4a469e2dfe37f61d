import OrbitalViewer.Ui

/-!
# What the panel shows

Whatever the user and the server do, the panel shows what the settings, the last state
and the selection say, and the page under it hears what is meant for it (`panel_shows`).
-/

namespace Ui
open FrontendMain (Page)
open SettingsStore (Settings Members)
open NetConnection (World Callback)
open ClientModel (Model)
open Renderer (Point)
open NetParse (Vec3 Satellite ObjectRow)
open Json (Value get)
open Ieee (binary64)

/-! ## What is shown of a model -/

/-- The text of the number nearest to `v` with so many digits, of two the larger one. -/
def Cell.Reads (c : Cell) (digits : ℕ) (v : ℚ) : Prop :=
  match c with
  | .emDash => False
  | .string w => w = v ∧ 10 ^ 21 ≤ |v|
  | .fixed neg n d => |v| < 10 ^ 21 ∧ d = digits ∧ (neg = true ↔ v < 0) ∧
      (n : ℚ) ≤ |v| * 10 ^ digits + 1 / 2 ∧ |v| * 10 ^ digits + 1 / 2 < n + 1

/-- The statistic is a finite number. -/
def Holds (stats : Members) (key : String) (v : ℚ) : Prop :=
  ∃ q, get key stats = some (.num q) ∧ (Json.double q).isFinite = true ∧ (Json.double q).toRat = v

/-- The text of a statistic, or a dash for none. -/
def Cell.Tells (c : Cell) (stats : Members) (key : String) (text : Cell → ℚ → Prop) : Prop :=
  (∀ v, Holds stats key v → text c v) ∧ ((∀ v, ¬ Holds stats key v) → c = .emDash)

structure Stats.Of (stats : Members) (shown : Stats) : Prop where
  statUdpReceived : shown.statUdpReceived.Tells stats "udpReceived" fun c v => c = .string v
  statUdpAccepted : shown.statUdpAccepted.Tells stats "udpAccepted" fun c v => c = .string v
  statUdpDropped : shown.statUdpDropped.Tells stats "udpDropped" fun c v => c = .string v
  statUdpRateHz : shown.statUdpRateHz.Tells stats "udpRateHz" fun c v => c.Reads 2 v
  statWsClients : shown.statWsClients.Tells stats "wsClients" fun c v => c = .string v
  statObjectCount : shown.statObjectCount.Tells stats "objectCount" fun c v => c = .string v
  statBroadcastSeq : shown.statBroadcastSeq.Tells stats "broadcastSeq" fun c v => c = .string v

/-- A satellite in kilometres, each operation rounded to a double. -/
structure Telemetry.Of (length : Vec3 → Option ℚ) (sat : Satellite) (shown : Telemetry) :
    Prop where
  satId : shown.satId = .string (binary64.rd sat.id)
  satSeq : shown.satSeq = .string (binary64.rd sat.seq)
  satX : shown.satX.Reads 1 (binary64.rd (binary64.rd sat.pos.1 / 1000))
  satY : shown.satY.Reads 1 (binary64.rd (binary64.rd sat.pos.2.1 / 1000))
  satZ : shown.satZ.Reads 1 (binary64.rd (binary64.rd sat.pos.2.2 / 1000))
  satSpeed : (length sat.vel).elim (shown.satSpeed = .emDash) fun v =>
    shown.satSpeed.Reads 2 (binary64.rd (v / 1000))
  satAlt : (length sat.pos).elim (shown.satAlt = .emDash) fun r =>
    shown.satAlt.Reads 1 (binary64.rd (binary64.rd (r / 1000) - 6371))

/-- The objects under a filter by id, in their order where ids repeat. -/
def listed (m : Model) (filter : Option String) : List ObjectRow :=
  (m.objects.filter fun o => filter.all fun f => o.cat = f).mergeSort fun a b => a.id ≤ b.id

section Shows
variable (length : Vec3 → Option ℚ)

/-- The nodes are as the settings, the last state and the selection say. -/
structure Shows (s : Settings) (m : Model) (selectedId : Option ℚ) (ui : Nodes) : Prop where
  filter : ∀ f ∈ ui.currentFilter, f ∈ CATEGORY_LIST
  chips : ui.chips = ("" :: CATEGORY_LIST).map fun f => (f, decide (f = ui.currentFilter.getD ""))
  rows : ui.objectRows = ((listed m ui.currentFilter).take 1000).map fun o => {
    id := o.id
    cat := (CATEGORY_LABEL.lookup o.cat).getD o.cat
    conf := o.conf
    selected := decide (selectedId = some o.id) }
  footer : ui.objectTableFooter =
    (min 1000 (listed m ui.currentFilter).length, (listed m ui.currentFilter).length)
  countAll : ui.countAll = m.objects.length
  counts : ui.counts = CATEGORY_LIST.map fun cat => (cat, m.objects.countP fun o => o.cat = cat)
  stats : m.stats.elim (ui.stats = {}) fun stats => Stats.Of stats ui.stats
  telemetry : m.satellite.elim (ui.telemetry = {}) fun sat => Telemetry.Of length sat ui.telemetry
  iso : ui.lastDataTimeIso = m.lastDataTime
  dataTime : ui.lastDataTime = m.lastDataTime.filter (· ≠ "")
  view : ui.view3d = decide (s.viewMode ≠ "sat") ∧ ui.viewSat = decide (s.viewMode = "sat")
  badge : ui.viewBadge =
    if s.viewMode ≠ "sat" then none
    else if m.satellite.isSome then some "SAT VIEW — nadir, 170° FOV"
    else some "SAT VIEW — awaiting satellite data"
  form : ui.settingsModal = true → ui.form = {
    showTrails := s.showTrails
    trailSeconds := toString s.trailSeconds
    trailSecondsValue := toString s.trailSeconds
    showLabels := s.showLabels
    showSky := s.showSky
    categories := CATEGORY_LIST.map fun cat => (cat, (s.categories.lookup cat).getD false)
    host := s.host
    port := toString s.port }

def Panel.Shows (panel : Panel) : Prop :=
  Ui.Shows length panel.page.settingsStore.current panel.page.model panel.page.uiSelected panel.ui

end Shows

/-! ## What the events leave -/

/-- The modal of the settings is opened or closed. -/
def Event.settingsModal : Event → Option Bool
  | .btnSettings => some true
  | .closeSettings => some false
  | .keydown key _ => if key = "Escape" then some false else none
  | _ => none

def Event.aboutModal : Event → Option Bool
  | .btnAbout => some true
  | .closeAbout => some false
  | .keydown key _ => if key = "Escape" then some false else none
  | _ => none

def Event.chosen : Event → Option (Option String)
  | .chip filter _ => some filter
  | _ => none

def Event.toggles : Event → Bool
  | .panelToggle => true
  | _ => false

/-- The last of what events do, if any does. -/
def latest {α : Type} (does : Event → Option α) (events : List Event) : Option α :=
  (events.filterMap does).getLast?

/-- A change of one setting. -/
def Moment.sets (t : Moment) (key : String) (value : Value) : FrontendMain.Event :=
  .settings (.update (.obj [(key, value)]) t.takes) t.made

/-- What an event is to the page, after `before`. -/
def Event.onPage (page : Page) (before : List Event) (t : Moment) :
    Event → Option FrontendMain.Event
  | .btnView3d => some (t.sets "viewMode" (.str "orbit"))
  | .btnViewSat => some (t.sets "viewMode" (.str "sat"))
  | .keydown key tag =>
    -- Not while something is typed or read.
    if key = "v" ∧ tag ∉ ["INPUT", "TEXTAREA", "SELECT"] ∧
        latest Event.settingsModal before ≠ some true ∧ latest Event.aboutModal before ≠ some true
    then some (t.sets "viewMode" (.str (if page.settingsStore.current.viewMode = "sat" then "orbit"
      else "sat")))
    else none
  | .settingShowTrails checked => some (t.sets "showTrails" (.bool checked))
  | .settingTrailSeconds value => some (t.sets "trailSeconds" (.str value))
  | .settingShowLabels checked => some (t.sets "showLabels" (.bool checked))
  | .settingShowSky checked => some (t.sets "showSky" (.bool checked))
  | .category cat _ checked => some (t.sets "categories" (.obj [(cat, .bool checked)]))
  | .settingHost value => some (t.sets "host" (.str value))
  | .settingPort value => some (t.sets "port" (.str value))
  | .btnReconnect => some (.reconnect t.made)
  | .btnResetDefaults => some (.settings (.resetDefaults t.takes) t.made)
  | .row i => ((listed page.model (latest Event.chosen before).join).take 1000)[i]?.map fun o =>
      .rowClick o.id
  | .browser e he => some (.browser e he)
  | .pointerdown x y => some (.pointerdown x y)
  | .pointermove x y => some (.pointermove x y)
  | .pointerup picked => some (.pointerup picked)
  | .frame => some .frame
  | .tick => some .tick
  | _ => none

/-- A page under the events of a panel, with those before. -/
def under (worldFromMeters : Vec3 → Point) (dateParse : String → Option ℚ) (page : Page)
    (before : List Event) : List (Moment × Event) → Page
  | [] => page
  | (t, e) :: events => under worldFromMeters dateParse ((e.onPage page before t).elim page
      (page.step worldFromMeters dateParse t.nowMs)) (before ++ [e]) events

/-- What the events alone say of the panel. -/
structure Panel.After (worldFromMeters : Vec3 → Point) (dateParse : String → Option ℚ)
    (start : Page) (events : List (Moment × Event)) (panel : Panel) : Prop where
  page : panel.page = under worldFromMeters dateParse start [] events
  filter : panel.ui.currentFilter = (latest Event.chosen (events.map Prod.snd)).join
  settingsModal : panel.ui.settingsModal =
    (latest Event.settingsModal (events.map Prod.snd)).getD false
  aboutModal : panel.ui.aboutModal = (latest Event.aboutModal (events.map Prod.snd)).getD false
  collapsed : panel.ui.collapsed = decide ((events.map Prod.snd).countP Event.toggles % 2 = 1)

variable {worldFromMeters : Vec3 → Point} {dateParse : String → Option ℚ}
  {length : Vec3 → Option ℚ} {t : Moment} {s : Settings} {m : Model} {selectedId : Option ℚ}
  {ui : Nodes} {panel : Panel}

/-! ## Texts and lists -/

theorem toFixed_reads (digits : ℕ) (v : ℚ) : (toFixed digits v).Reads digits v := by
  unfold toFixed
  split
  · exact ⟨rfl, by assumption⟩
  · rename_i hsmall
    exact ⟨not_le.mp hsmall, rfl, decide_eq_true_iff, Nat.floor_le (by positivity),
      Nat.lt_floor_add_one _⟩

/-- 7000.15 is no double: what is next to it is rounded down. -/
example : toFixed 1 (thousandth 7000150) = .fixed false 70001 1 := by decide +kernel

theorem statistic_iff {stats : Members} {key : String} {v : ℚ} :
    statistic key stats = some v ↔ Holds stats key v := by
  rw [statistic, Option.bind_eq_some_iff]
  constructor
  · rintro ⟨value, hvalue, hv⟩
    cases value with
    | num q =>
      obtain ⟨hfinite, heq⟩ := Option.ite_none_right_eq_some.mp hv
      exact ⟨q, hvalue, hfinite, Option.some.inj heq⟩
    | _ => cases hv
  · rintro ⟨q, hq, hfinite, rfl⟩
    exact ⟨.num q, hq, if_pos hfinite⟩

/-- A statistic is written if it is one. -/
theorem statistic_tells {stats : Members} {key : String} {text : Cell → ℚ → Prop} (write : ℚ → Cell)
    (hwrite : ∀ v, text (write v) v) :
    ((statistic key stats).elim .emDash write).Tells stats key text := by
  constructor
  · intro v hv
    rw [statistic_iff.mpr hv]
    exact hwrite v
  · intro hnone
    cases hv : statistic key stats with
    | none => rfl
    | some v => exact absurd (statistic_iff.mp hv) (hnone v)

theorem statsOf_of (stats : Members) : Stats.Of stats (statsOf stats) := by
  constructor <;> first
    | exact statistic_tells Cell.string fun _ => rfl
    | exact statistic_tells (toFixed 2) (toFixed_reads 2)

theorem telemetryOf_of (sat : Satellite) : Telemetry.Of length sat (telemetryOf length sat) where
  satId := rfl
  satSeq := rfl
  satX := toFixed_reads 1 _
  satY := toFixed_reads 1 _
  satZ := toFixed_reads 1 _
  satSpeed := by
    unfold telemetryOf
    cases length sat.vel with
    | none => rfl
    | some v => exact toFixed_reads 2 _
  satAlt := by
    unfold telemetryOf
    cases length sat.pos with
    | none => rfl
    | some r => exact toFixed_reads 1 _

/-- No category is empty, so a filter is one. -/
theorem getListRows_listed (m : Model) {filter : Option String}
    (hfilter : ∀ f ∈ filter, f ∈ CATEGORY_LIST) :
    m.getListRows filter 1000 = ⟨(listed m filter).take 1000, (listed m filter).length⟩ := by
  unfold Model.getListRows listed
  cases filter with
  | none => simp
  | some f =>
    have hne : f ≠ "" := by
      rintro rfl
      exact absurd (hfilter "" rfl) (by decide)
    simp [hne]

theorem listed_none (filter : Option String) : listed {} filter = [] := by
  simp [listed]

theorem view_of_mode (s : Settings) :
    decide (currentViewMode s = "orbit") = decide (s.viewMode ≠ "sat") ∧
      decide (currentViewMode s = "sat") = decide (s.viewMode = "sat") := by
  unfold currentViewMode
  by_cases hsat : s.viewMode = "sat" <;> simp [hsat]

theorem badgeText_eq (s : Settings) (satellite : Option Satellite) : badgeText s satellite =
    if s.viewMode ≠ "sat" then none
    else if satellite.isSome then some "SAT VIEW — nadir, 170° FOV"
    else some "SAT VIEW — awaiting satellite data" := by
  unfold badgeText currentViewMode
  by_cases hsat : s.viewMode = "sat" <;> simp [hsat]

variable (dateParse) in
theorem updateDataTimeText_eq (dateNow : ℚ) (ui : Nodes) : ∃ relative,
    ui.updateDataTimeText dateParse dateNow = { ui with
      lastDataTime := ui.lastDataTimeIso.filter (· ≠ "")
      lastDataRelative := relative } := by
  unfold Nodes.updateDataTimeText
  cases ui.lastDataTimeIso.filter (· ≠ "") with
  | none => exact ⟨none, rfl⟩
  | some iso => exact ⟨_, rfl⟩

namespace Shows

/-- A state is shown whatever was shown before. -/
theorem updateData (h : Shows length s m selectedId ui) (dateNow : ℚ) {m' : Model}
    (hstats : m'.stats ≠ none) (hcategorized : m'.Categorized) : Shows length s m' selectedId
      (ui.updateData length dateParse dateNow s selectedId m') := by
  obtain ⟨stats, hsome⟩ := Option.ne_none_iff_exists'.mp hstats
  obtain ⟨htotal, _, hof⟩ := hcategorized.getCounts
  have hlist := getListRows_listed m' h.filter
  unfold Nodes.updateData
  dsimp only
  obtain ⟨relative, heq⟩ := updateDataTimeText_eq dateParse dateNow { ui with
    stats := m'.stats.elim ui.stats statsOf
    telemetry := m'.satellite.elim {} (telemetryOf length)
    lastDataTimeIso := m'.lastDataTime }
  rw [heq]
  constructor
  · exact h.filter
  · exact h.chips
  · exact congrArg (fun list => list.rows.map (trOf selectedId)) hlist
  · rw [← List.length_take]
    exact congrArg (fun list : ClientModel.ListRows => (list.rows.length, list.total)) hlist
  · exact htotal
  · exact List.map_congr_left fun cat hcat => congrArg (cat, ·) (hof cat hcat)
  · rw [hsome]
    exact statsOf_of stats
  · show m'.satellite.elim (m'.satellite.elim {} (telemetryOf length) = {}) fun sat =>
      Telemetry.Of length sat (m'.satellite.elim {} (telemetryOf length))
    cases m'.satellite with
    | none => rfl
    | some sat => exact telemetryOf_of sat
  · rfl
  · rfl
  · exact h.view
  · exact badgeText_eq s m'.satellite
  · exact h.form

theorem updateDataTimeText (h : Shows length s m selectedId ui) (dateNow : ℚ) :
    Shows length s m selectedId (ui.updateDataTimeText dateParse dateNow) := by
  obtain ⟨relative, heq⟩ := updateDataTimeText_eq dateParse dateNow ui
  rw [heq]
  exact ⟨h.filter, h.chips, h.rows, h.footer, h.countAll, h.counts, h.stats, h.telemetry, h.iso,
    congrArg (Option.filter _) h.iso, h.view, h.badge, h.form⟩

/-- A modal that opens has the settings in its controls. -/
theorem modal (h : Shows length s m selectedId ui) (collapsed settingsModal aboutModal : Bool)
    (form : Form) (hform : settingsModal = true → form = formOf s) :
    Shows length s m selectedId { ui with collapsed, settingsModal, aboutModal, form } :=
  ⟨h.filter, h.chips, h.rows, h.footer, h.countAll, h.counts, h.stats, h.telemetry, h.iso,
    h.dataTime, h.view, h.badge, hform⟩

/-- The listener, after a control has changed. -/
theorem listen (h : Shows length s m selectedId ui) (form : Form) (s' : Settings)
    {lastModel : Option Model} (hlast : lastModel.bind (·.satellite) = m.satellite) :
    Shows length s' m selectedId ((if ui.settingsModal then
      ({ ui with form } : Nodes).syncSettingsForm s' else { ui with form }).updateViewToggle s'
        lastModel) := by
  have hbadge := badgeText_eq s' (lastModel.bind (·.satellite))
  rw [hlast] at hbadge
  by_cases hopen : ui.settingsModal = true
  · rw [if_pos hopen]
    exact ⟨h.filter, h.chips, h.rows, h.footer, h.countAll, h.counts, h.stats, h.telemetry, h.iso,
      h.dataTime, view_of_mode s', hlast ▸ hbadge, fun _ => rfl⟩
  · rw [if_neg hopen]
    exact ⟨h.filter, h.chips, h.rows, h.footer, h.countAll, h.counts, h.stats, h.telemetry, h.iso,
      h.dataTime, view_of_mode s', hlast ▸ hbadge, fun hform => absurd hform hopen⟩

theorem setSelected (h : Shows length s m selectedId ui) (id : Option ℚ) :
    Shows length s m id (ui.setSelected id) := by
  refine ⟨h.filter, h.chips, ?_, h.footer, h.countAll, h.counts, h.stats, h.telemetry, h.iso,
    h.dataTime, h.view, h.badge, h.form⟩
  show ui.objectRows.map _ = _
  rw [h.rows, List.map_map]
  rfl

/-- A chip is clicked; without a model there are no rows to draw again. -/
theorem setFilter (h : Shows length s m selectedId ui) {filter : Option String}
    (hfilter : ∀ f ∈ filter, f ∈ CATEGORY_LIST) {lastModel : Option Model}
    (hlast : lastModel = some m ∨ lastModel = none ∧ m = {}) :
    Shows length s m selectedId (lastModel.elim (ui.setFilter filter) fun m =>
      (ui.setFilter filter).renderList selectedId m) := by
  have hmem : ∀ f ∈ (ui.setFilter filter).currentFilter, f ∈ CATEGORY_LIST := by
    intro f hf
    exact hfilter f (Option.filter_eq_some_iff.mp hf).1
  have hchips : (ui.setFilter filter).chips = ("" :: CATEGORY_LIST).map fun f =>
      (f, decide (f = (ui.setFilter filter).currentFilter.getD "")) := by
    show ui.chips.map _ = _
    rw [h.chips, List.map_map]
    rfl
  have hlist := getListRows_listed m hmem
  rcases hlast with rfl | ⟨rfl, rfl⟩
  · refine ⟨hmem, hchips, ?_, ?_, h.countAll, h.counts, h.stats, h.telemetry, h.iso, h.dataTime,
      h.view, h.badge, h.form⟩
    · exact congrArg (fun list => list.rows.map (trOf selectedId)) hlist
    · rw [← List.length_take]
      exact congrArg (fun list : ClientModel.ListRows => (list.rows.length, list.total)) hlist
  · refine ⟨hmem, hchips, ?_, ?_, h.countAll, h.counts, h.stats, h.telemetry, h.iso, h.dataTime,
      h.view, h.badge, h.form⟩
    · rw [listed_none]
      refine Eq.trans h.rows ?_
      rw [listed_none]
    · rw [listed_none]
      refine Eq.trans h.footer ?_
      rw [listed_none]

theorem createUi (s : Settings) : Shows length s {} none (Ui.createUi s) := by
  refine ⟨?_, rfl, ?_, ?_, rfl, rfl, rfl, rfl, rfl, rfl, view_of_mode s, badgeText_eq s none,
    fun _ => rfl⟩
  · intro f hf
    cases hf
  · rw [listed_none]
    rfl
  · rw [listed_none]
    rfl

end Shows

/-- What has come over the connection is all of the known categories. -/
def Delivered (w : World) : Prop := ∀ s ∈ w.states, ∀ o ∈ s.objects, o.cat ∈ ClientModel.categories

theorem Delivered.step {w : World} (h : Delivered w) (e : NetConnection.Event) :
    Delivered (w.step e) := by
  rcases w.step_states e with hsame | ⟨data, s, hparse, hmore⟩
  · rw [Delivered, hsame]
    exact h
  · intro s' hs'
    rw [hmore] at hs'
    rcases List.mem_append.mp hs' with hold | hnew
    · exact h s' hold
    · rw [List.mem_singleton.mp hnew]
      exact ClientModel.parseStateMessage_cat hparse

namespace Panel

/-! ## The page goes on as without its panel -/

theorem handles_page (panel : Panel) (cs : List Callback) :
    (cs.foldl (handle worldFromMeters dateParse length t) panel).page =
      cs.foldl (Page.handle worldFromMeters dateParse t.nowMs) panel.page := by
  induction cs generalizing panel with
  | nil => rfl
  | cons c cs ih =>
    have hhandle : (panel.handle worldFromMeters dateParse length t c).page =
        panel.page.handle worldFromMeters dateParse t.nowMs c := by cases c <;> rfl
    rw [List.foldl_cons, List.foldl_cons, ih, hhandle]

theorem connected_page (w : World) (panel : Panel) :
    (panel.connected worldFromMeters dateParse length t w).page =
      panel.page.connected worldFromMeters dateParse t.nowMs w :=
  handles_page _ _

theorem call_page (c : SettingsStore.Call) (panel : Panel) :
    (panel.call worldFromMeters dateParse length t c).page =
      panel.page.step worldFromMeters dateParse t.nowMs (.settings c t.made) := by
  unfold call Page.step
  dsimp only
  split
  · unfold onChange Page.onChange
    dsimp only
    split
    · exact connected_page _ _
    · rfl
  · rfl

variable (worldFromMeters dateParse length t) in
/-- An event of the panel is one of the page, or none. -/
theorem step_page (h : panel.Shows length) {before : List Event}
    (hfilter : panel.ui.currentFilter = (latest Event.chosen before).join)
    (hsettings : panel.ui.settingsModal = (latest Event.settingsModal before).getD false)
    (habout : panel.ui.aboutModal = (latest Event.aboutModal before).getD false) (e : Event) :
    (panel.step worldFromMeters dateParse length t e).page =
      (e.onPage panel.page before t).elim panel.page
        (panel.page.step worldFromMeters dateParse t.nowMs) := by
  cases e with
  | panelToggle | chip | btnSettings | btnAbout | closeSettings | closeAbout => rfl
  | btnView3d | btnViewSat | settingShowTrails | settingTrailSeconds | settingShowLabels
  | settingShowSky | category | settingHost | settingPort | btnResetDefaults => exact call_page _ _
  | keydown key tag =>
    have hopen (modal : Option Bool) : modal.getD false = true ↔ modal = some true := by
      cases modal <;> simp
    have hheard : (key = "v" ∧ tag ∉ ["INPUT", "TEXTAREA", "SELECT"] ∧
        latest Event.settingsModal before ≠ some true ∧
        latest Event.aboutModal before ≠ some true) ↔
        key = "v" ∧ tag ∉ ["INPUT", "TEXTAREA", "SELECT"] ∧ ¬ panel.ui.anyModalOpen = true := by
      rw [Nodes.anyModalOpen, hsettings, habout, Bool.or_eq_true, hopen, hopen, not_or]
    unfold Panel.step Event.onPage
    dsimp only
    by_cases hkey : key = "v"
    · have hescape : ¬ key = "Escape" := by
        rw [hkey]
        decide
      rw [if_neg hescape, if_neg (not_not.mpr hkey)]
      by_cases htag : tag ∈ ["INPUT", "TEXTAREA", "SELECT"]
      · rw [if_pos htag, if_neg (hheard.not.mpr fun hall => hall.2.1 htag)]
        rfl
      · rw [if_neg htag]
        by_cases hmodal : panel.ui.anyModalOpen = true
        · rw [if_pos hmodal, if_neg (hheard.not.mpr fun hall => hall.2.2 hmodal)]
          rfl
        · rw [if_neg hmodal, if_pos (hheard.mpr ⟨hkey, htag, hmodal⟩)]
          refine (call_page _ _).trans ?_
          have hmode : currentViewMode panel.page.settingsStore.current = "sat" ↔
              panel.page.settingsStore.current.viewMode = "sat" := by
            unfold currentViewMode
            split <;> simp [*]
          simp only [hmode]
          rfl
    · rw [if_pos hkey, if_neg (hheard.not.mpr fun hall => hkey hall.1)]
      split <;> rfl
  | btnReconnect => exact connected_page _ _
  | row i =>
    have hrow : panel.ui.objectRows[i]?.map Tr.id =
        ((listed panel.page.model (latest Event.chosen before).join).take 1000)[i]?.map
          (·.id) := by
      rw [h.rows, hfilter, List.getElem?_map, Option.map_map]
      rfl
    unfold Panel.step Event.onPage
    dsimp only
    cases hold : panel.ui.objectRows[i]? with
    | none =>
      rw [hold] at hrow
      rw [Option.map_eq_none_iff.mp hrow.symm]
      rfl
    | some tr =>
      rw [hold] at hrow
      obtain ⟨o, ho, hid⟩ := Option.map_eq_some_iff.mp hrow.symm
      rw [ho]
      show panel.page.select (some tr.id) = panel.page.select (some o.id)
      rw [hid]
  | browser e he => exact connected_page _ _
  | pointerdown x y => rfl
  | pointermove x y => rfl
  | pointerup picked =>
    show (if panel.page.pointer.dragging then panel else panel.select picked).page =
      if panel.page.pointer.dragging then panel.page else panel.page.select picked
    split <;> rfl
  | frame => rfl
  | tick => rfl

variable (worldFromMeters dateParse) in
/-- The connection of a page takes at most one step. -/
theorem step_connection (page : Page) (nowMs : ℚ) (e : FrontendMain.Event) :
    (page.step worldFromMeters dateParse nowMs e).connection = page.connection ∨
      ∃ e', (page.step worldFromMeters dateParse nowMs e).connection = page.connection.step e' := by
  have hconnected (page : Page) (w : World) :
      (page.connected worldFromMeters dateParse nowMs w).connection = w :=
    (Page.same_handles { page with connection := w } _).connection
  cases e with
  | settings call made =>
    unfold Page.step Page.onChange
    dsimp only
    split
    · split
      · exact .inr ⟨.setEndpoint _ _ made, hconnected _ _⟩
      · exact .inl rfl
    · exact .inl rfl
  | reconnect made => exact .inr ⟨.setEndpoint _ _ made, hconnected _ _⟩
  | browser e he => exact .inr ⟨e, hconnected _ _⟩
  | pointermove x y =>
    unfold Page.step
    dsimp only
    split <;> exact .inl rfl
  | pointerup picked =>
    unfold Page.step
    dsimp only
    split <;> exact .inl rfl
  | _ => exact .inl rfl

theorem page_delivered {page : Page} (h : Delivered page.connection) (nowMs : ℚ)
    (e : FrontendMain.Event) :
    Delivered (page.step worldFromMeters dateParse nowMs e).connection := by
  rcases step_connection worldFromMeters dateParse page nowMs e with hsame | ⟨e', hstep⟩
  · rw [hsame]
    exact h
  · rw [hstep]
    exact h.step e'

/-! ## Every event keeps what is shown -/

namespace Shows

theorem handle (h : panel.Shows length) {c : Callback}
    (hc : ∀ s, c = .onState s → ∀ o ∈ s.objects, o.cat ∈ ClientModel.categories) :
    (panel.handle worldFromMeters dateParse length t c).Shows length := by
  cases c with
  | onHello hello => exact h
  | onStatus status => exact h
  | onState msg =>
    exact Ui.Shows.updateData h t.dateNow (Option.some_ne_none msg.stats) (hc msg rfl)

theorem connected (h : panel.Shows length) {w : World} (hw : Delivered w) :
    (panel.connected worldFromMeters dateParse length t w).Shows length := by
  refine List.foldlRecOn (motive := fun p : Panel => p.Shows length) _ _ h fun _ hp c hc => ?_
  apply Shows.handle hp
  rintro s rfl
  exact hw s (List.mem_filterMap.mpr ⟨_, List.mem_of_mem_drop hc, rfl⟩)

/-- The listeners run for new settings. -/
theorem onChange (h : panel.Shows length) (hdelivered : Delivered panel.page.connection)
    (hunseen : panel.page.hasModel = false → panel.page.model = {}) (form : Form)
    (st : SettingsStore.Store) : (Panel.onChange worldFromMeters dateParse length t
      ⟨{ panel.page with settingsStore := st }, { panel.ui with form }⟩).Shows length := by
  have hlast : panel.lastModel.bind (·.satellite) = panel.page.model.satellite := by
    unfold lastModel
    cases hseen : panel.page.hasModel with
    | true => rfl
    | false =>
      rw [hunseen hseen]
      rfl
  have hlisten := Ui.Shows.listen h form st.current hlast
  unfold Panel.onChange
  dsimp only
  split
  · unfold Panel.setEndpoint
    refine Shows.connected ?_ (hdelivered.step (.setEndpoint _ _ t.made))
    exact hlisten
  · exact hlisten

theorem call (h : panel.Shows length) (hdelivered : Delivered panel.page.connection)
    (hunseen : panel.page.hasModel = false → panel.page.model = {}) (form : Form)
    {c : SettingsStore.Call} (hnotifies : FrontendMain.notifies panel.page.settingsStore c = true) :
    (Panel.call worldFromMeters dateParse length t c
      ⟨panel.page, { panel.ui with form }⟩).Shows length := by
  unfold Panel.call
  dsimp only
  rw [if_pos hnotifies]
  exact h.onChange hdelivered hunseen form _

/-- A patch of one key always reaches the listeners. -/
theorem update (h : panel.Shows length) (hdelivered : Delivered panel.page.connection)
    (hunseen : panel.page.hasModel = false → panel.page.model = {}) (form : Form) {key : String}
    {value : Value} (hvalue : key ∈ ["trailSeconds", "port"] → Json.convertible value = true) :
    (Panel.update worldFromMeters dateParse length t key value
      ⟨panel.page, { panel.ui with form }⟩).Shows length := by
  refine h.call hdelivered hunseen form (SettingsStore.applyPatch_isSome.mpr ?_)
  intro k hk v hv
  have hlookup : List.lookup k [(key, value)] = some v := hv
  rw [List.lookup_cons] at hlookup
  split at hlookup
  · rename_i hkey
    obtain rfl := eq_of_beq hkey
    obtain rfl := Option.some.inj hlookup
    exact hvalue hk
  · cases hlookup

theorem select (h : panel.Shows length) (id : Option ℚ) : (panel.select id).Shows length :=
  Ui.Shows.setSelected h id

theorem step (h : panel.Shows length) (hdelivered : Delivered panel.page.connection)
    (hunseen : panel.page.hasModel = false → panel.page.model = {}) (e : Event) :
    (panel.step worldFromMeters dateParse length t e).Shows length := by
  have htext : ∀ text, Json.convertible (.str text) = true := by
    intro text
    simp [Json.convertible]
  cases e with
  | panelToggle | btnAbout | closeAbout => exact Ui.Shows.modal h _ _ _ _ h.form
  | chip filter hfilter =>
    refine Ui.Shows.setFilter h hfilter ?_
    unfold lastModel
    cases hseen : panel.page.hasModel with
    | true => exact .inl rfl
    | false => exact .inr ⟨rfl, hunseen hseen⟩
  | btnSettings => exact Ui.Shows.modal h _ _ _ _ fun _ => rfl
  | closeSettings => exact Ui.Shows.modal h _ _ _ _ fun hopen => absurd hopen Bool.false_ne_true
  | btnView3d | btnViewSat => exact h.update hdelivered hunseen panel.ui.form fun _ => htext _
  | keydown key tag =>
    have hclosed : Panel.Shows length
        ⟨panel.page, if key = "Escape" then panel.ui.closeAllModals else panel.ui⟩ := by
      split
      · exact Ui.Shows.modal h _ _ _ _ fun hopen => absurd hopen Bool.false_ne_true
      · exact h
    unfold Panel.step
    dsimp only
    generalize (if key = "Escape" then panel.ui.closeAllModals else panel.ui) = ui at hclosed ⊢
    split
    · exact hclosed
    · split
      · exact hclosed
      · split
        · exact hclosed
        · exact Shows.update hclosed hdelivered hunseen ui.form fun _ => htext _
  | settingShowTrails checked | settingShowLabels checked | settingShowSky checked =>
    exact h.update hdelivered hunseen _ fun hkey => absurd hkey (by decide)
  | settingTrailSeconds value | settingHost value | settingPort value =>
    exact h.update hdelivered hunseen _ fun _ => htext _
  | category cat hcat checked =>
    exact h.update hdelivered hunseen _ fun hkey => absurd hkey (by decide)
  | btnReconnect =>
    unfold Panel.step Panel.onReconnect Panel.setEndpoint
    refine Shows.connected ?_ (hdelivered.step (.setEndpoint _ _ t.made))
    exact h
  | btnResetDefaults =>
    have hnext : Panel.Shows length (panel.call worldFromMeters dateParse length t
        (.resetDefaults t.takes)) := h.call hdelivered hunseen panel.ui.form rfl
    exact Ui.Shows.modal hnext _ _ _ _ fun _ => rfl
  | row i =>
    unfold Panel.step
    dsimp only
    split
    · exact h
    · exact h.select _
  | browser e he => exact h.connected (hdelivered.step e)
  | pointerdown x y => exact h
  | pointermove x y =>
    unfold Panel.step Panel.pageStep Page.step
    dsimp only
    split <;> exact h
  | pointerup picked =>
    unfold Panel.step
    dsimp only
    split
    · exact h
    · exact h.select picked
  | frame => exact h
  | tick => exact Ui.Shows.updateDataTimeText h t.dateNow

end Shows

/-! ## The modals, the filter and the width -/

/-- What only the panel's own events change. -/
structure Keeps (ui ui' : Nodes) : Prop where
  filter : ui'.currentFilter = ui.currentFilter
  settingsModal : ui'.settingsModal = ui.settingsModal
  aboutModal : ui'.aboutModal = ui.aboutModal
  collapsed : ui'.collapsed = ui.collapsed

theorem Keeps.refl (ui : Nodes) : Keeps ui ui := ⟨rfl, rfl, rfl, rfl⟩

theorem Keeps.trans {a b c : Nodes} (hab : Keeps a b) (hbc : Keeps b c) : Keeps a c :=
  ⟨hbc.filter.trans hab.filter, hbc.settingsModal.trans hab.settingsModal,
    hbc.aboutModal.trans hab.aboutModal, hbc.collapsed.trans hab.collapsed⟩

variable (dateParse) in
theorem keeps_updateDataTimeText (dateNow : ℚ) (ui : Nodes) :
    Keeps ui (ui.updateDataTimeText dateParse dateNow) := by
  obtain ⟨relative, heq⟩ := updateDataTimeText_eq dateParse dateNow ui
  rw [heq]
  exact ⟨rfl, rfl, rfl, rfl⟩

theorem keeps_handle (panel : Panel) (c : Callback) :
    Keeps panel.ui (panel.handle worldFromMeters dateParse length t c).ui := by
  cases c with
  | onHello hello => exact .refl _
  | onStatus status => exact .refl _
  | onState msg =>
    have htext := keeps_updateDataTimeText dateParse t.dateNow { panel.ui with
      stats := statsOf msg.stats
      telemetry := msg.satellite.elim {} (telemetryOf length)
      lastDataTimeIso := msg.lastDataTime }
    exact ⟨htext.filter, htext.settingsModal, htext.aboutModal, htext.collapsed⟩

theorem keeps_connected (w : World) (panel : Panel) :
    Keeps panel.ui (panel.connected worldFromMeters dateParse length t w).ui :=
  List.foldlRecOn (motive := fun p : Panel => Keeps panel.ui p.ui) _ _ (.refl _)
    fun p hp c _ => hp.trans (keeps_handle p c)

theorem keeps_setEndpoint (page : Page) (ui : Nodes) :
    Keeps ui (setEndpoint worldFromMeters dateParse length t ⟨page, ui⟩).ui :=
  keeps_connected _ ⟨page, ui⟩

theorem keeps_call (c : SettingsStore.Call) (panel : Panel) :
    Keeps panel.ui (panel.call worldFromMeters dateParse length t c).ui := by
  have hlisten (next : Settings) (lastModel : Option Model) : Keeps panel.ui
      ((if panel.ui.settingsModal then panel.ui.syncSettingsForm next
        else panel.ui).updateViewToggle next lastModel) := by
    split <;> exact ⟨rfl, rfl, rfl, rfl⟩
  unfold call
  dsimp only
  split
  · unfold onChange
    dsimp only
    split
    · exact (hlisten _ _).trans (keeps_setEndpoint _ _)
    · exact hlisten _ _
  · exact .refl _

theorem keeps_edit (form : Form → Form) (key : String) (value : Value) (panel : Panel) :
    Keeps panel.ui (panel.edit worldFromMeters dateParse length t form key value).ui :=
  have hform : Keeps panel.ui { panel.ui with form := form panel.ui.form } := ⟨rfl, rfl, rfl, rfl⟩
  hform.trans (keeps_call _ ⟨_, _⟩)

/-- What an event does to them. -/
structure Moved (ui : Nodes) (e : Event) (ui' : Nodes) : Prop where
  filter : ui'.currentFilter = e.chosen.getD ui.currentFilter
  settingsModal : ui'.settingsModal = e.settingsModal.getD ui.settingsModal
  aboutModal : ui'.aboutModal = e.aboutModal.getD ui.aboutModal
  collapsed : ui'.collapsed = (ui.collapsed ^^ e.toggles)

theorem Keeps.moved {ui' : Nodes} {e : Event} (h : Keeps ui ui') (hchosen : e.chosen = none)
    (hsettings : e.settingsModal = none) (habout : e.aboutModal = none)
    (htoggles : e.toggles = false) : Moved ui e ui' := by
  constructor
  · rw [hchosen]
    exact h.filter
  · rw [hsettings]
    exact h.settingsModal
  · rw [habout]
    exact h.aboutModal
  · rw [htoggles, Bool.xor_false]
    exact h.collapsed

theorem Moved.keeps {ui' ui'' : Nodes} {e : Event} (h : Moved ui e ui') (hkeeps : Keeps ui' ui'') :
    Moved ui e ui'' :=
  ⟨hkeeps.filter.trans h.filter, hkeeps.settingsModal.trans h.settingsModal,
    hkeeps.aboutModal.trans h.aboutModal, hkeeps.collapsed.trans h.collapsed⟩

variable (worldFromMeters dateParse length t) in
theorem step_moved (panel : Panel) (e : Event) :
    Moved panel.ui e (panel.step worldFromMeters dateParse length t e).ui := by
  cases e with
  | panelToggle => exact ⟨rfl, rfl, rfl, (Bool.xor_true _).symm⟩
  | chip filter hfilter =>
    have hnonempty : filter.filter (· ≠ "") = filter := by
      cases filter with
      | none => rfl
      | some f =>
        refine Option.filter_eq_some_iff.mpr ⟨rfl, decide_eq_true ?_⟩
        rintro rfl
        exact absurd (hfilter "" rfl) (by decide)
    unfold Panel.step
    dsimp only
    cases panel.lastModel <;> exact ⟨hnonempty, rfl, rfl, (Bool.xor_false _).symm⟩
  | btnSettings | btnAbout | closeSettings | closeAbout =>
    exact ⟨rfl, rfl, rfl, (Bool.xor_false _).symm⟩
  | keydown key tag =>
    have hescape : Moved panel.ui (.keydown key tag)
        (if key = "Escape" then panel.ui.closeAllModals else panel.ui) := by
      constructor
      · split <;> rfl
      · show _ = (if key = "Escape" then some false else none).getD panel.ui.settingsModal
        split <;> rfl
      · show _ = (if key = "Escape" then some false else none).getD panel.ui.aboutModal
        split <;> rfl
      · split <;> exact (Bool.xor_false _).symm
    unfold Panel.step
    dsimp only
    generalize (if key = "Escape" then panel.ui.closeAllModals else panel.ui) = ui at hescape ⊢
    split
    · exact hescape
    · split
      · exact hescape
      · split
        · exact hescape
        · exact hescape.keeps (keeps_call _ ⟨_, _⟩)
  | btnView3d | btnViewSat =>
    refine Keeps.moved ?_ rfl rfl rfl rfl
    exact keeps_call _ panel
  | settingShowTrails | settingTrailSeconds | settingShowLabels | settingShowSky | category
  | settingHost | settingPort =>
    refine Keeps.moved ?_ rfl rfl rfl rfl
    unfold Panel.step
    exact keeps_edit _ _ _ panel
  | btnResetDefaults =>
    have hnext : Keeps panel.ui (panel.call worldFromMeters dateParse length t
        (.resetDefaults t.takes)).ui := keeps_call _ panel
    refine Keeps.moved ?_ rfl rfl rfl rfl
    exact hnext.trans ⟨rfl, rfl, rfl, rfl⟩
  | btnReconnect =>
    refine Keeps.moved ?_ rfl rfl rfl rfl
    exact keeps_setEndpoint _ panel.ui
  | row i =>
    refine Keeps.moved ?_ rfl rfl rfl rfl
    unfold Panel.step
    dsimp only
    split <;> exact ⟨rfl, rfl, rfl, rfl⟩
  | browser e he =>
    refine Keeps.moved ?_ rfl rfl rfl rfl
    exact keeps_connected _ panel
  | pointerdown | pointermove | frame =>
    refine Keeps.moved ?_ rfl rfl rfl rfl
    exact .refl panel.ui
  | pointerup picked =>
    refine Keeps.moved ?_ rfl rfl rfl rfl
    unfold Panel.step
    dsimp only
    split <;> exact ⟨rfl, rfl, rfl, rfl⟩
  | tick =>
    refine Keeps.moved ?_ rfl rfl rfl rfl
    exact keeps_updateDataTimeText _ _ panel.ui

/-! ## A run -/

theorem latest_concat {α : Type} (does : Event → Option α) (events : List Event) (e : Event) :
    latest does (events ++ [e]) = (does e).or (latest does events) := by
  rw [latest, List.filterMap_append, List.getLast?_append]
  cases hdoes : does e <;> simp [hdoes, latest]

theorem under_concat (page : Page) (before : List Event) (events : List (Moment × Event))
    (t : Moment) (e : Event) : under worldFromMeters dateParse page before (events ++ [(t, e)]) =
      let page := under worldFromMeters dateParse page before events
      (e.onPage page (before ++ events.map Prod.snd) t).elim page
        (page.step worldFromMeters dateParse t.nowMs) := by
  induction events generalizing page before with
  | nil => simp [under]
  | cons first events ih =>
    rw [List.cons_append, under, ih, List.map_cons]
    simp [under]

/-- All that a run keeps. -/
structure Sound (worldFromMeters : Vec3 → Point) (dateParse : String → Option ℚ)
    (length : Vec3 → Option ℚ) (start : Page) (events : List (Moment × Event)) (panel : Panel) :
    Prop where
  wired : panel.page.Wired worldFromMeters dateParse
  delivered : Delivered panel.page.connection
  shows : panel.Shows length
  after : panel.After worldFromMeters dateParse start events

variable {start : Page} {events : List (Moment × Event)}

theorem Sound.step (h : panel.Sound worldFromMeters dateParse length start events) (t : Moment)
    (e : Event) : (panel.step worldFromMeters dateParse length t e).Sound worldFromMeters dateParse
      length start (events ++ [(t, e)]) := by
  have hpage := step_page worldFromMeters dateParse length t h.shows h.after.filter
    h.after.settingsModal h.after.aboutModal e
  have hmoved := step_moved worldFromMeters dateParse length t panel e
  refine ⟨?_, ?_, h.shows.step h.delivered h.wired.unseen e, ?_, ?_, ?_, ?_, ?_⟩
  · rw [hpage]
    cases e.onPage panel.page (events.map Prod.snd) t with
    | none => exact h.wired
    | some e' => exact h.wired.step t.nowMs e'
  · rw [hpage]
    cases e.onPage panel.page (events.map Prod.snd) t with
    | none => exact h.delivered
    | some e' => exact page_delivered h.delivered t.nowMs e'
  · rw [hpage, under_concat, ← h.after.page]
    rfl
  · rw [hmoved.filter, h.after.filter, List.map_append, List.map_singleton, latest_concat]
    cases e.chosen <;> rfl
  · rw [hmoved.settingsModal, h.after.settingsModal, List.map_append, List.map_singleton,
      latest_concat]
    cases e.settingsModal <;> rfl
  · rw [hmoved.aboutModal, h.after.aboutModal, List.map_append, List.map_singleton, latest_concat]
    cases e.aboutModal <;> rfl
  · rw [hmoved.collapsed, h.after.collapsed, List.map_append, List.map_singleton,
      List.countP_append, List.countP_singleton]
    cases e.toggles with
    | false => simp
    | true =>
      rw [Bool.xor_true, if_pos rfl, ← decide_not, decide_eq_decide]
      omega

theorem Sound.run (h : panel.Sound worldFromMeters dateParse length start [])
    (events : List (Moment × Event)) :
    (panel.run worldFromMeters dateParse length events).Sound worldFromMeters dateParse length start
      events := by
  induction events using List.reverseRecOn with
  | nil => exact h
  | append_singleton events e ih =>
    rw [Panel.run, List.foldl_concat]
    exact ih.step e.1 e.2

end Panel

end Ui
