import OrbitalViewer.FrontendMain
import OrbitalViewer.Lib.IeeeRounding

/-!
# The panel

`createUi` of `frontend/js/ui.js`: the object list, the counts, the telemetry, the view
buttons and the settings form. Each has writers of its own, and some write only while a
modal is open. What is computed is a double.
-/

namespace Ui
open FrontendMain (Page)
open SettingsStore (Settings Members)
open NetConnection (World Callback)
open ClientModel (Model)
open Renderer (Point)
open NetParse (Vec3 Satellite ObjectRow)
open Json (Value get)
open Ieee (binary64)

def CATEGORY_LIST : List String := ["debris", "star", "comet", "satellite", "groundHot", "unknown"]

def CATEGORY_LABEL : List (String × String) :=
  [("debris", "Debris"), ("star", "Star"), ("comet", "Comet"), ("satellite", "Satellite"),
    ("groundHot", "Ground hot"), ("unknown", "Unknown")]

def EARTH_RADIUS_KM : ℚ := 6371

/-! ## Texts -/

/-- The text of a number. -/
inductive Cell
  | emDash
  /-- `String(v)` -/
  | string (v : ℚ)
  /-- `v.toFixed(digits)`: the sign, and how many units of the last digit. -/
  | fixed (neg : Bool) (n : ℕ) (digits : ℕ)
  deriving DecidableEq

/-- Of a double. -/
def toFixed (digits : ℕ) (v : ℚ) : Cell :=
  if 10 ^ 21 ≤ |v| then .string v else .fixed (v < 0) ⌊|v| * 10 ^ digits + 1 / 2⌋₊ digits

/-- `none` is anything that is not a finite number. -/
def fmtFixed (v : Option ℚ) (digits : ℕ) : Cell := v.elim .emDash (toFixed digits)

def fmtInt (v : Option ℚ) : Cell := v.elim .emDash .string

/-- A finite number, as a double. -/
def finite : Value → Option ℚ
  | .num q => if (Json.double q).isFinite then some (Json.double q).toRat else none
  | _ => none

def statistic (key : String) (stats : Members) : Option ℚ := (get key stats).bind finite

/-! ## The nodes -/

structure Stats where
  statUdpReceived : Cell := .emDash
  statUdpAccepted : Cell := .emDash
  statUdpDropped : Cell := .emDash
  statUdpRateHz : Cell := .emDash
  statWsClients : Cell := .emDash
  statObjectCount : Cell := .emDash
  statBroadcastSeq : Cell := .emDash

structure Telemetry where
  satId : Cell := .emDash
  satSeq : Cell := .emDash
  satX : Cell := .emDash
  satY : Cell := .emDash
  satZ : Cell := .emDash
  satSpeed : Cell := .emDash
  satAlt : Cell := .emDash

/-- A row of the object list, with its `data-id`. -/
structure Tr where
  id : ℚ
  cat : String
  conf : ℚ
  selected : Bool

/-- The controls of the settings. -/
structure Form where
  showTrails : Bool
  trailSeconds : String
  trailSecondsValue : String
  showLabels : Bool
  showSky : Bool
  categories : List (String × Bool)
  host : String
  port : String

/-- What `createUi` closes over and the nodes of the page, as the markup has them. -/
structure Nodes where
  currentFilter : Option String := none
  lastDataTimeIso : Option String := none
  /-- `none` is a dash. -/
  lastDataTime : Option String := none
  lastDataRelative : Option Cell := none
  stats : Stats := {}
  telemetry : Telemetry := {}
  countAll : ℕ := 0
  counts : List (String × ℕ) := CATEGORY_LIST.map fun cat => (cat, 0)
  /-- Each `data-filter`, and whether the chip is active. -/
  chips : List (String × Bool) := ("", true) :: CATEGORY_LIST.map fun cat => (cat, false)
  objectRows : List Tr := []
  /-- `showing _ of _`. -/
  objectTableFooter : ℕ × ℕ := (0, 0)
  collapsed : Bool := false
  /-- A button is active and pressed. -/
  view3d : Bool := true
  viewSat : Bool := false
  /-- `none` is hidden. -/
  viewBadge : Option String := none
  /-- A modal is open. -/
  settingsModal : Bool := false
  aboutModal : Bool := false
  form : Form

namespace Nodes

def setFilter (f : Option String) (ui : Nodes) : Nodes :=
  let currentFilter := f.filter (· ≠ "")
  { ui with
    currentFilter
    chips := ui.chips.map fun chip => (chip.1, chip.1 = currentFilter.getD "") }

def anyModalOpen (ui : Nodes) : Bool := ui.settingsModal || ui.aboutModal

def closeAllModals (ui : Nodes) : Nodes := { ui with settingsModal := false, aboutModal := false }

end Nodes

def currentViewMode (s : Settings) : String := if s.viewMode = "sat" then "sat" else "orbit"

/-- `none` is hidden. -/
def badgeText (s : Settings) (satellite : Option Satellite) : Option String :=
  if currentViewMode s ≠ "sat" then none
  else if satellite.isSome then some "SAT VIEW — nadir, 170° FOV"
  else some "SAT VIEW — awaiting satellite data"

/-- What `syncSettingsForm` writes. -/
def formOf (s : Settings) : Form where
  showTrails := s.showTrails
  trailSeconds := toString s.trailSeconds
  trailSecondsValue := toString s.trailSeconds
  showLabels := s.showLabels
  showSky := s.showSky
  categories := CATEGORY_LIST.map fun cat => (cat, (s.categories.lookup cat).getD false)
  host := s.host
  port := toString s.port

def trOf (selectedId : Option ℚ) (row : ObjectRow) : Tr where
  id := row.id
  cat := (CATEGORY_LABEL.lookup row.cat).getD row.cat
  conf := row.conf
  selected := selectedId = some row.id

def statsOf (stats : Members) : Stats where
  statUdpReceived := fmtInt (statistic "udpReceived" stats)
  statUdpAccepted := fmtInt (statistic "udpAccepted" stats)
  statUdpDropped := fmtInt (statistic "udpDropped" stats)
  statUdpRateHz := fmtFixed (statistic "udpRateHz" stats) 2
  statWsClients := fmtInt (statistic "wsClients" stats)
  statObjectCount := fmtInt (statistic "objectCount" stats)
  statBroadcastSeq := fmtInt (statistic "broadcastSeq" stats)

/-- `v / 1000` of a double. -/
def thousandth (v : ℚ) : ℚ := binary64.rd (v / 1000)

/-- A number of the model is the double nearest to it. `length` is the square root of the
sum of the squares, `none` where that overflows. -/
def telemetryOf (length : Vec3 → Option ℚ) (sat : Satellite) : Telemetry where
  satId := fmtInt (some (binary64.rd sat.id))
  satSeq := fmtInt (some (binary64.rd sat.seq))
  satX := fmtFixed (some (thousandth (binary64.rd sat.pos.1))) 1
  satY := fmtFixed (some (thousandth (binary64.rd sat.pos.2.1))) 1
  satZ := fmtFixed (some (thousandth (binary64.rd sat.pos.2.2))) 1
  satSpeed := fmtFixed ((length sat.vel).map thousandth) 2
  satAlt := fmtFixed
    ((length sat.pos).map fun r => binary64.rd (thousandth r - EARTH_RADIUS_KM)) 1

namespace Nodes
section Refresh
variable (length : Vec3 → Option ℚ) (dateParse : String → Option ℚ)

def syncSettingsForm (s : Settings) (ui : Nodes) : Nodes := { ui with form := formOf s }

def updateViewBadge (s : Settings) (lastModel : Option Model) (ui : Nodes) : Nodes :=
  { ui with viewBadge := badgeText s (lastModel.bind (·.satellite)) }

def updateViewToggle (s : Settings) (lastModel : Option Model) (ui : Nodes) : Nodes :=
  let mode := currentViewMode s
  let ui := { ui with view3d := mode = "orbit", viewSat := mode = "sat" }
  ui.updateViewBadge s lastModel

def renderList (selectedId : Option ℚ) (m : Model) (ui : Nodes) : Nodes :=
  let list := m.getListRows ui.currentFilter 1000
  { ui with
    objectRows := list.rows.map (trOf selectedId)
    objectTableFooter := (list.rows.length, list.total) }

def setSelected (id : Option ℚ) (ui : Nodes) : Nodes :=
  { ui with objectRows := ui.objectRows.map fun tr => { tr with selected := id = some tr.id } }

def updateDataTimeText (dateNow : ℚ) (ui : Nodes) : Nodes :=
  match ui.lastDataTimeIso.filter (· ≠ "") with
  | none => { ui with lastDataTime := none, lastDataRelative := none }
  | some iso => { ui with
      lastDataTime := some iso
      lastDataRelative :=
        match dateParse iso with
        | none => ui.lastDataRelative
        | some dataMs => some (toFixed 1 (max 0 (thousandth (binary64.rd (dateNow - dataMs))))) }

def updateData (dateNow : ℚ) (s : Settings) (selectedId : Option ℚ) (m : Model) (ui : Nodes) :
    Nodes :=
  let ui := { ui with
    stats := m.stats.elim ui.stats statsOf
    telemetry := m.satellite.elim {} (telemetryOf length)
    lastDataTimeIso := m.lastDataTime }
  let ui := ui.updateDataTimeText dateParse dateNow
  let counts := m.getCounts
  let ui := { ui with
    countAll := counts.total
    counts := CATEGORY_LIST.map fun cat => (cat, counts.of cat) }
  (ui.updateViewBadge s (some m)).renderList selectedId m

end Refresh
end Nodes

/-- The end of `createUi`; there is no model yet. -/
def createUi (s : Settings) : Nodes :=
  (({ form := formOf s } : Nodes).setFilter none).updateViewToggle s none

/-! ## The page with its panel -/

/-- What is shown of the connection and the selection is in the page. -/
structure Panel where
  page : Page
  ui : Nodes

/-- The clocks, and whether storage takes what is persisted and a socket can be made. -/
structure Moment where
  nowMs : ℚ
  dateNow : ℚ
  takes : Bool
  made : Bool

/-- What is typed is a value once it is entered. -/
inductive Event
  | panelToggle
  | chip (filter : Option String) (hfilter : ∀ f ∈ filter, f ∈ CATEGORY_LIST)
  | btnSettings
  | btnAbout
  | closeSettings
  | closeAbout
  | btnView3d
  | btnViewSat
  /-- With the tag of its target. -/
  | keydown (key tag : String)
  | settingShowTrails (checked : Bool)
  | settingTrailSeconds (value : String)
  | settingShowLabels (checked : Bool)
  | settingShowSky (checked : Bool)
  | category (cat : String) (hcat : cat ∈ CATEGORY_LIST) (checked : Bool)
  | settingHost (value : String)
  | settingPort (value : String)
  | btnReconnect
  | btnResetDefaults
  /-- A click on a row of the list. -/
  | row (i : ℕ)
  /-- A timer or a socket. -/
  | browser (e : NetConnection.Event) (he : e.browser = true)
  | pointerdown (x y : ℚ)
  | pointermove (x y : ℚ)
  | pointerup (picked : Option ℚ)
  | frame
  | tick

namespace Panel

def lastModel (panel : Panel) : Option Model :=
  if panel.page.hasModel then some panel.page.model else none

section Step
variable (worldFromMeters : Vec3 → Point) (dateParse : String → Option ℚ)
  (length : Vec3 → Option ℚ) (t : Moment)

/-- `onState` ends with `ui.updateData(model)`. -/
def handle (panel : Panel) (c : Callback) : Panel :=
  let page := panel.page.handle worldFromMeters dateParse t.nowMs c
  match c with
  | .onState _ => ⟨page, panel.ui.updateData length dateParse t.dateNow
      page.settingsStore.current page.uiSelected page.model⟩
  | _ => ⟨page, panel.ui⟩

def connected (w : World) (panel : Panel) : Panel :=
  (w.callbacks.drop panel.page.connection.callbacks.length).foldl
    (handle worldFromMeters dateParse length t) ⟨{ panel.page with connection := w }, panel.ui⟩

def setEndpoint (panel : Panel) : Panel :=
  panel.connected worldFromMeters dateParse length t
    (panel.page.connection.setEndpoint panel.page.currentHost panel.page.currentPort.toNat t.made)

/-- The listener of the panel comes before that of `main.js`. -/
def onChange (panel : Panel) : Panel :=
  let next := panel.page.settingsStore.current
  let ui := if panel.ui.settingsModal then panel.ui.syncSettingsForm next else panel.ui
  let ui := ui.updateViewToggle next panel.lastModel
  let page := { panel.page with
    renderer :=
      panel.page.renderer.setSettings worldFromMeters (FrontendMain.rendererSettings next) }
  let resolvedHost := FrontendMain.resolveHost page.hostname next
  if resolvedHost ≠ page.currentHost ∨ next.port ≠ page.currentPort then
    setEndpoint worldFromMeters dateParse length t
      ⟨{ page with currentHost := resolvedHost, currentPort := next.port }, ui⟩
  else ⟨page, ui⟩

def onReconnect (panel : Panel) : Panel :=
  let s := panel.page.settingsStore.current
  setEndpoint worldFromMeters dateParse length t ⟨{ panel.page with
    currentHost := FrontendMain.resolveHost panel.page.hostname s
    currentPort := s.port }, panel.ui⟩

def call (c : SettingsStore.Call) (panel : Panel) : Panel :=
  let settingsStore := panel.page.settingsStore.step c
  let next : Panel := ⟨{ panel.page with settingsStore }, panel.ui⟩
  if FrontendMain.notifies panel.page.settingsStore c then
    next.onChange worldFromMeters dateParse length t
  else next

/-- `settingsStore.update({ key: value })` -/
def update (key : String) (value : Value) (panel : Panel) : Panel :=
  panel.call worldFromMeters dateParse length t (.update (.obj [(key, value)]) t.takes)

/-- A control is changed, and then its setting. -/
def edit (form : Form → Form) (key : String) (value : Value) (panel : Panel) : Panel :=
  update worldFromMeters dateParse length t key value
    ⟨panel.page, { panel.ui with form := form panel.ui.form }⟩

def select (id : Option ℚ) (panel : Panel) : Panel :=
  ⟨panel.page.select id, panel.ui.setSelected id⟩

/-- What concerns the page alone. -/
def pageStep (e : FrontendMain.Event) (panel : Panel) : Panel :=
  ⟨panel.page.step worldFromMeters dateParse t.nowMs e, panel.ui⟩

def step (panel : Panel) : Event → Panel
  | .panelToggle => ⟨panel.page, { panel.ui with collapsed := !panel.ui.collapsed }⟩
  | .chip filter _ =>
    let ui := panel.ui.setFilter filter
    ⟨panel.page, panel.lastModel.elim ui fun m => ui.renderList panel.page.uiSelected m⟩
  | .btnSettings => ⟨panel.page,
      { panel.ui.syncSettingsForm panel.page.settingsStore.current with settingsModal := true }⟩
  | .btnAbout => ⟨panel.page, { panel.ui with aboutModal := true }⟩
  | .closeSettings => ⟨panel.page, { panel.ui with settingsModal := false }⟩
  | .closeAbout => ⟨panel.page, { panel.ui with aboutModal := false }⟩
  | .btnView3d => panel.update worldFromMeters dateParse length t "viewMode" (.str "orbit")
  | .btnViewSat => panel.update worldFromMeters dateParse length t "viewMode" (.str "sat")
  | .keydown key tag =>
    let ui := if key = "Escape" then panel.ui.closeAllModals else panel.ui
    if key ≠ "v" then ⟨panel.page, ui⟩
    else if tag ∈ ["INPUT", "TEXTAREA", "SELECT"] then ⟨panel.page, ui⟩
    else if ui.anyModalOpen then ⟨panel.page, ui⟩
    else update worldFromMeters dateParse length t "viewMode"
      (.str (if currentViewMode panel.page.settingsStore.current = "sat" then "orbit" else "sat"))
      ⟨panel.page, ui⟩
  | .settingShowTrails checked => panel.edit worldFromMeters dateParse length t
      (fun f => { f with showTrails := checked }) "showTrails" (.bool checked)
  -- The store takes `Number` of a text once more, so the text itself does for it.
  | .settingTrailSeconds value => panel.edit worldFromMeters dateParse length t
      (fun f => { f with trailSeconds := value, trailSecondsValue := value }) "trailSeconds"
      (.str value)
  | .settingShowLabels checked => panel.edit worldFromMeters dateParse length t
      (fun f => { f with showLabels := checked }) "showLabels" (.bool checked)
  | .settingShowSky checked => panel.edit worldFromMeters dateParse length t
      (fun f => { f with showSky := checked }) "showSky" (.bool checked)
  | .category cat _ checked => panel.edit worldFromMeters dateParse length t
      (fun f => { f with categories := Entries.assign cat checked f.categories }) "categories"
      (.obj [(cat, .bool checked)])
  | .settingHost value => panel.edit worldFromMeters dateParse length t
      (fun f => { f with host := value }) "host" (.str value)
  | .settingPort value => panel.edit worldFromMeters dateParse length t
      (fun f => { f with port := value }) "port" (.str value)
  | .btnReconnect => panel.onReconnect worldFromMeters dateParse length t
  | .btnResetDefaults =>
    let next := panel.call worldFromMeters dateParse length t (.resetDefaults t.takes)
    ⟨next.page, next.ui.syncSettingsForm next.page.settingsStore.current⟩
  | .row i =>
    match panel.ui.objectRows[i]? with
    | none => panel
    | some tr => panel.select (some tr.id)
  | .browser e _ =>
    panel.connected worldFromMeters dateParse length t (panel.page.connection.step e)
  | .pointerdown x y => panel.pageStep worldFromMeters dateParse t (.pointerdown x y)
  | .pointermove x y => panel.pageStep worldFromMeters dateParse t (.pointermove x y)
  | .pointerup picked => if panel.page.pointer.dragging then panel else panel.select picked
  | .frame => panel.pageStep worldFromMeters dateParse t .frame
  | .tick =>
    let panel := panel.pageStep worldFromMeters dateParse t .tick
    ⟨panel.page, panel.ui.updateDataTimeText dateParse t.dateNow⟩

/-- `boot`, once there are settings and a renderer. -/
def boot (hostname : String) (settingsStore : SettingsStore.Store) : Panel :=
  let s := settingsStore.current
  let currentHost := FrontendMain.resolveHost hostname s
  let connection : World := { connection := { host := currentHost, port := s.port.toNat } }
  let page : Page := {
    hostname
    settingsStore
    renderer := ({ sceneEpochMs := t.dateNow } : Renderer.Scene).setSettings worldFromMeters
      (FrontendMain.rendererSettings s)
    connection
    currentHost
    currentPort := s.port
    shownStatus := .connecting
    shownUrl := FrontendMain.wsUrl currentHost s.port }
  connected worldFromMeters dateParse length t (connection.connect t.made) ⟨page, createUi s⟩

end Step

def run (worldFromMeters : Vec3 → Point) (dateParse : String → Option ℚ)
    (length : Vec3 → Option ℚ) (panel : Panel) (events : List (Moment × Event)) : Panel :=
  events.foldl (fun panel e => panel.step worldFromMeters dateParse length e.1 e.2) panel

end Panel

end Ui
