import OrbitalViewer.Endpoint
import OrbitalViewer.Model
import OrbitalViewer.SceneBuffers
import OrbitalViewer.SiteConfig

/-!
# The page

`boot` of `frontend/js/main.js`: the settings, the connection, the model and the
renderer, and the callbacks between them. A step runs one event of the browser to
its end. Whatever happens, the page is connected to what the settings say, and
draws the last state under the settings (`page_follows`).
-/

namespace FrontendMain
open SettingsStore (Store Settings createSettings)
open NetConnection (World Status Callback)
open ClientModel (Model)
open Renderer (Scene Point GivenSettings)
open NetParse (Vec3)
open SiteConfig (loadSiteConfig)

def PICK_DRAG_THRESHOLD_PX : ℚ := 5

/-- `ui.js`, in seconds. -/
def STALE_THRESHOLD_S : ℚ := 3

/-- The variables of `wireOverlayPicking`. -/
structure Pointer where
  downX : ℚ := 0
  downY : ℚ := 0
  dragging : Bool := false

structure Page where
  /-- `window.location.hostname` -/
  hostname : String
  settingsStore : Store
  model : Model := {}
  renderer : Scene
  connection : World
  currentHost : String
  currentPort : ℤ
  /-- What the panel shows: the connection, the selected row, the warning. -/
  shownStatus : Status
  shownUrl : String
  uiSelected : Option ℚ := none
  hasModel : Bool := false
  staleWarning : Bool := false
  pointer : Pointer := {}

def resolveHost (hostname : String) (s : Settings) : String :=
  if s.host ≠ "" then s.host else if hostname ≠ "" then hostname else "127.0.0.1"

def wsUrl (host : String) (port : ℤ) : String := "ws://" ++ host ++ ":" ++ toString port ++ "/"

/-- What `applyRendererSettings` passes on. -/
def rendererSettings (s : Settings) : GivenSettings where
  showTrails := s.showTrails
  trailSeconds := s.trailSeconds
  showLabels := s.showLabels
  showSky := s.showSky
  categories := s.categories
  viewMode := s.viewMode

section Page
variable (worldFromMeters : Vec3 → Point) (dateParse : String → Option ℚ)

/-- `model.getSnapshot()`, as the renderer reads it; an empty time is none. -/
def getSnapshot (m : Model) : Renderer.Snapshot where
  serverTimeMs := m.serverTime.bind fun t => if t = "" then none else dateParse t
  satellite := m.satellite
  objects := m.objects
  trailPoints := m.trailPoints

namespace Page

/-- `onHello`, `onState` and `onStatus`. -/
def handle (nowMs : ℚ) (p : Page) : Callback → Page
  | .onHello _ => p
  | .onState msg =>
    let model := p.model.applyState msg nowMs
    { p with
      model
      renderer := p.renderer.setSnapshot worldFromMeters (some (getSnapshot dateParse model)) nowMs
      hasModel := true }
  | .onStatus status => { p with
      shownStatus := status
      shownUrl := wsUrl p.currentHost p.currentPort }

/-- The connection has moved on, and what it called back is handled. -/
def connected (nowMs : ℚ) (w : World) (p : Page) : Page :=
  (w.callbacks.drop p.connection.callbacks.length).foldl (handle worldFromMeters dateParse nowMs)
    { p with connection := w }

/-- `connection.setEndpoint(currentHost, currentPort)`; a port is never negative. -/
def setEndpoint (nowMs : ℚ) (made : Bool) (p : Page) : Page :=
  p.connected worldFromMeters dateParse nowMs
    (p.connection.setEndpoint p.currentHost p.currentPort.toNat made)

/-- The listener of the settings. -/
def onChange (nowMs : ℚ) (made : Bool) (p : Page) : Page :=
  let next := p.settingsStore.current
  let p := { p with renderer := p.renderer.setSettings worldFromMeters (rendererSettings next) }
  let resolvedHost := resolveHost p.hostname next
  if resolvedHost ≠ p.currentHost ∨ next.port ≠ p.currentPort then
    ({ p with currentHost := resolvedHost, currentPort := next.port } : Page).setEndpoint
      worldFromMeters dateParse nowMs made
  else p

def onReconnect (nowMs : ℚ) (made : Bool) (p : Page) : Page :=
  let s := p.settingsStore.current
  ({ p with currentHost := resolveHost p.hostname s, currentPort := s.port } : Page).setEndpoint
    worldFromMeters dateParse nowMs made

def select (id : Option ℚ) (p : Page) : Page :=
  { p with renderer := p.renderer.setSelected id, uiSelected := id }

end Page

/-- The listeners of the store are called. -/
def notifies (st : Store) : SettingsStore.Call → Bool
  | .update (.obj patch) _ => (SettingsStore.applyPatch st.current patch).isSome
  | .update _ _ => false
  | .resetDefaults _ => true

inductive Event
  | settings (call : SettingsStore.Call) (made : Bool)
  | reconnect (made : Bool)
  /-- A timer or a socket. -/
  | browser (e : NetConnection.Event) (he : e.browser = true)
  | rowClick (id : ℚ)
  | pointerdown (x y : ℚ)
  | pointermove (x y : ℚ)
  /-- With what `renderer.pick` returns there. -/
  | pointerup (picked : Option ℚ)
  | frame
  | tick

namespace Page

def step (p : Page) (nowMs : ℚ) : Event → Page
  | .settings call made =>
    let next := { p with settingsStore := p.settingsStore.step call }
    if notifies p.settingsStore call then next.onChange worldFromMeters dateParse nowMs made else next
  | .reconnect made => p.onReconnect worldFromMeters dateParse nowMs made
  | .browser e _ => p.connected worldFromMeters dateParse nowMs (p.connection.step e)
  | .rowClick id => p.select (some id)
  | .pointerdown x y => { p with pointer := ⟨x, y, false⟩ }
  | .pointermove x y =>
    if PICK_DRAG_THRESHOLD_PX < |x - p.pointer.downX| ∨ PICK_DRAG_THRESHOLD_PX < |y - p.pointer.downY|
    then { p with pointer := { p.pointer with dragging := true } }
    else p
  | .pointerup picked => if p.pointer.dragging then p else p.select picked
  | .frame => { p with renderer := (p.renderer.sceneNowMs nowMs).2 }
  | .tick => { p with staleWarning := p.hasModel &&
      (p.model.secondsSinceLastState nowMs).elim true fun s => STALE_THRESHOLD_S < s }

/-- `boot`, once there are settings and a renderer. -/
def boot (hostname : String) (dateNow nowMs : ℚ) (settingsStore : Store) (made : Bool) : Page :=
  let s := settingsStore.current
  let currentHost := resolveHost hostname s
  let connection : World := { connection := { host := currentHost, port := s.port.toNat } }
  let p : Page := {
    hostname
    settingsStore
    renderer := ({ sceneEpochMs := dateNow } : Scene).setSettings worldFromMeters (rendererSettings s)
    connection
    currentHost
    currentPort := s.port
    shownStatus := .connecting
    shownUrl := wsUrl currentHost s.port }
  p.connected worldFromMeters dateParse nowMs (connection.connect made)

/-- The store of the page; without one `boot` fails. -/
def load (fetched stored : Option (List Char)) : Option Store :=
  createSettings stored (.obj (loadSiteConfig fetched))

/-- Each event with its time. -/
def run (p : Page) (events : List (ℚ × Event)) : Page :=
  events.foldl (fun p e => p.step worldFromMeters dateParse e.1 e.2) p

end Page

/-! ## What the page shows -/

/-- The renderer has the model and the settings, and the panel its selection. -/
structure Page.Shown (p : Page) : Prop where
  scene : p.renderer.Current worldFromMeters
  settings : p.renderer.settings =
    Renderer.normalizeSettings (some (rendererSettings p.settingsStore.current))
  snapshot : p.renderer.snapshot = if p.hasModel then some (getSnapshot dateParse p.model) else none
  unseen : p.hasModel = false → p.model = {}
  selected : p.renderer.selectedId = p.uiSelected

/-- And the connection is where the settings say. -/
structure Page.Wired (p : Page) : Prop extends p.Shown worldFromMeters dateParse where
  sound : p.connection.Sound
  live : p.connection.Live
  store : p.settingsStore.Valid
  host : p.currentHost = resolveHost p.hostname p.settingsStore.current
  port : p.currentPort = p.settingsStore.current.port
  url : p.connection.connection.url = wsUrl p.currentHost p.currentPort
  status : p.connection.status = some p.shownStatus
  shownUrl : p.shownUrl = wsUrl p.currentHost p.currentPort

end Page

section Steps
variable {worldFromMeters : Vec3 → Point} {dateParse : String → Option ℚ} {p p' : Page} {nowMs : ℚ}

namespace Page

/-- The part of the page that callbacks do not touch. -/
structure Same (p p' : Page) : Prop where
  hostname : p'.hostname = p.hostname
  settingsStore : p'.settingsStore = p.settingsStore
  connection : p'.connection = p.connection
  currentHost : p'.currentHost = p.currentHost
  currentPort : p'.currentPort = p.currentPort

theorem Same.trans {a b c : Page} (hab : Same a b) (hbc : Same b c) : Same a c :=
  ⟨hbc.hostname.trans hab.hostname, hbc.settingsStore.trans hab.settingsStore,
    hbc.connection.trans hab.connection, hbc.currentHost.trans hab.currentHost,
    hbc.currentPort.trans hab.currentPort⟩

theorem same_handle (p : Page) (c : Callback) :
    Same p (p.handle worldFromMeters dateParse nowMs c) := by
  cases c <;> exact ⟨rfl, rfl, rfl, rfl, rfl⟩

theorem same_handles (p : Page) (cs : List Callback) :
    Same p (cs.foldl (handle worldFromMeters dateParse nowMs) p) := by
  induction cs generalizing p with
  | nil => exact ⟨rfl, rfl, rfl, rfl, rfl⟩
  | cons c cs ih => exact (same_handle p c).trans (ih _)

theorem Shown.handle (h : p.Shown worldFromMeters dateParse) (c : Callback) :
    (p.handle worldFromMeters dateParse nowMs c).Shown worldFromMeters dateParse := by
  cases c with
  | onHello hello => exact h
  | onStatus status => exact ⟨h.scene, h.settings, h.snapshot, h.unseen, h.selected⟩
  | onState msg =>
    have hkeeps : Scene.Keeps _ (p.handle worldFromMeters dateParse nowMs (.onState msg)).renderer :=
      Scene.setSnapshot_keeps p.renderer _ nowMs
    have hcurrent := h.scene.step
      (.setSnapshot (some (getSnapshot dateParse (p.model.applyState msg nowMs))) nowMs)
    exact ⟨hcurrent, hkeeps.settings.trans h.settings, hkeeps.snapshot, fun hnone => (nomatch hnone),
      hkeeps.selected.trans h.selected⟩

theorem Shown.handles (h : p.Shown worldFromMeters dateParse) (cs : List Callback) :
    (cs.foldl (Page.handle worldFromMeters dateParse nowMs) p).Shown worldFromMeters dateParse :=
  List.foldlRecOn (motive := fun p : Page => p.Shown worldFromMeters dateParse) cs _ h
    fun _ hp c _ => hp.handle c

variable (worldFromMeters dateParse nowMs) in
/-- The panel shows the last status that was called back, and where. -/
theorem handles_status (p : Page) (cs : List Callback) :
    (cs.foldl (handle worldFromMeters dateParse nowMs) p).shownStatus =
        (cs.filterMap Callback.status).getLast?.getD p.shownStatus ∧
      (cs.foldl (handle worldFromMeters dateParse nowMs) p).shownUrl =
        if cs.filterMap Callback.status = [] then p.shownUrl
        else wsUrl p.currentHost p.currentPort := by
  induction cs using List.reverseRecOn with
  | nil => exact ⟨rfl, rfl⟩
  | append_singleton cs c ih =>
    have hsame : Same p (cs.foldl (handle worldFromMeters dateParse nowMs) p) := same_handles p cs
    rw [List.foldl_concat, List.filterMap_append]
    cases c with
    | onHello hello => simpa [handle, Callback.status] using ih
    | onState msg => simpa [handle, Callback.status] using ih
    | onStatus status =>
      simp [handle, Callback.status, hsame.currentHost, hsame.currentPort]

theorem connected_eq {w : World} {new : List Callback}
    (hnew : w.callbacks = p.connection.callbacks ++ new) :
    p.connected worldFromMeters dateParse nowMs w =
      new.foldl (handle worldFromMeters dateParse nowMs) { p with connection := w } := by
  rw [Page.connected, hnew, List.drop_left]

/-- A connection that moves on leaves the page wired, if it says where it is. -/
theorem Shown.connected (h : p.Shown worldFromMeters dateParse) {w : World} {new : List Callback}
    (hnew : w.callbacks = p.connection.callbacks ++ new) (hsound : w.Sound) (hlive : w.Live)
    (hstore : p.settingsStore.Valid)
    (hhost : p.currentHost = resolveHost p.hostname p.settingsStore.current)
    (hport : p.currentPort = p.settingsStore.current.port)
    (hurl : w.connection.url = wsUrl p.currentHost p.currentPort)
    (htold : new.filterMap Callback.status ≠ [] ∨
      p.connection.status = some p.shownStatus ∧ p.shownUrl = wsUrl p.currentHost p.currentPort) :
    (p.connected worldFromMeters dateParse nowMs w).Wired worldFromMeters dateParse := by
  have hshown : ({ p with connection := w } : Page).Shown worldFromMeters dateParse :=
    ⟨h.scene, h.settings, h.snapshot, h.unseen, h.selected⟩
  have hsame : Same { p with connection := w } (new.foldl
      (Page.handle worldFromMeters dateParse nowMs) { p with connection := w }) := same_handles _ new
  obtain ⟨hstatus, hwhere⟩ := handles_status worldFromMeters dateParse nowMs
    { p with connection := w } new
  rw [connected_eq hnew]
  refine ⟨hshown.handles new, ?_, ?_, ?_, ?_, ?_, ?_, ?_, ?_⟩
  · rw [hsame.connection]
    exact hsound
  · rw [hsame.connection]
    exact hlive
  · rw [hsame.settingsStore]
    exact hstore
  · rw [hsame.currentHost, hsame.hostname, hsame.settingsStore]
    exact hhost
  · rw [hsame.currentPort, hsame.settingsStore]
    exact hport
  · rw [hsame.connection, hsame.currentHost, hsame.currentPort]
    exact hurl
  · rw [hsame.connection, hstatus]
    show (w.callbacks.filterMap Callback.status).getLast? = _
    rw [hnew, List.filterMap_append, List.getLast?_append]
    cases hlast : (new.filterMap Callback.status).getLast? with
    | some status => rfl
    | none =>
      have hempty := List.getLast?_eq_none_iff.mp hlast
      exact (htold.resolve_left (not_not.mpr hempty)).1
  · rw [hsame.currentHost, hsame.currentPort, hwhere]
    split
    · rename_i hempty
      exact (htold.resolve_left (not_not.mpr hempty)).2
    · rfl

/-- The endpoint is that of the settings from now on. -/
theorem Shown.setEndpoint (h : p.Shown worldFromMeters dateParse) (hsound : p.connection.Sound)
    (hstore : p.settingsStore.Valid)
    (hhost : p.currentHost = resolveHost p.hostname p.settingsStore.current)
    (hport : p.currentPort = p.settingsStore.current.port) (made : Bool) :
    (p.setEndpoint worldFromMeters dateParse nowMs made).Wired worldFromMeters dateParse := by
  obtain ⟨hlive, hurl, hcallbacks, _⟩ :=
    NetConnection.World.live_setEndpoint hsound.toTracked p.currentHost p.currentPort.toNat made
  have hnat : ((p.currentPort.toNat : ℕ) : ℤ) = p.currentPort := by
    rw [hport]
    exact Int.toNat_of_nonneg (by linarith [hstore.2.port.1])
  refine h.connected hcallbacks (hsound.setEndpoint _ _ made) hlive hstore hhost hport ?_
    (.inl (List.cons_ne_nil _ _))
  rw [hurl, wsUrl, ← hnat]
  rfl

theorem Wired.browser (h : p.Wired worldFromMeters dateParse) {e : NetConnection.Event}
    (he : e.browser = true) :
    (p.connected worldFromMeters dateParse nowMs (p.connection.step e)).Wired worldFromMeters
      dateParse := by
  obtain ⟨hlive, hurl⟩ := h.live.step h.sound he
  obtain ⟨new, hnew⟩ : ∃ new, (p.connection.step e).callbacks = p.connection.callbacks ++ new := by
    rcases p.connection.step_callbacks e with ⟨new, hnew, _⟩ | ⟨_, new, _, _, hnew⟩ <;>
      exact ⟨new, hnew⟩
  exact h.toShown.connected hnew (h.sound.step e) hlive h.store h.host h.port (hurl.trans h.url)
    (.inr ⟨h.status, h.shownUrl⟩)

theorem Wired.onReconnect (h : p.Wired worldFromMeters dateParse) (made : Bool) :
    (p.onReconnect worldFromMeters dateParse nowMs made).Wired worldFromMeters dateParse := by
  have hshown : ({ p with
      currentHost := resolveHost p.hostname p.settingsStore.current
      currentPort := p.settingsStore.current.port } : Page).Shown worldFromMeters dateParse :=
    ⟨h.scene, h.settings, h.snapshot, h.unseen, h.selected⟩
  exact hshown.setEndpoint h.sound h.store rfl rfl made

/-- The listener runs for new settings. -/
theorem Wired.onChange (h : p.Wired worldFromMeters dateParse) {st : Store} (hst : st.Valid)
    (made : Bool) : (({ p with settingsStore := st } : Page).onChange worldFromMeters dateParse nowMs
      made).Wired worldFromMeters dateParse := by
  have hkeeps : Scene.Keeps _ (p.renderer.setSettings worldFromMeters (rendererSettings st.current)) :=
    Scene.setSettings_keeps p.renderer _
  have hscene := h.scene.step (.setSettings (rendererSettings st.current))
  have hshown : ({ p with
      settingsStore := st
      renderer := p.renderer.setSettings worldFromMeters (rendererSettings st.current) } : Page).Shown
        worldFromMeters dateParse :=
    ⟨hscene, hkeeps.settings, hkeeps.snapshot.trans h.snapshot, h.unseen,
      hkeeps.selected.trans h.selected⟩
  unfold Page.onChange
  dsimp only
  split
  · exact Shown.setEndpoint (p := { p with
        settingsStore := st
        renderer := p.renderer.setSettings worldFromMeters (rendererSettings st.current)
        currentHost := resolveHost p.hostname st.current
        currentPort := st.current.port })
      ⟨hshown.scene, hshown.settings, hshown.snapshot, hshown.unseen, hshown.selected⟩
      h.sound hst rfl rfl made
  · rename_i hsame
    obtain ⟨hhost, hport⟩ := not_or.mp hsame
    exact ⟨hshown, h.sound, h.live, hst, (not_not.mp hhost).symm, (not_not.mp hport).symm, h.url,
      h.status, h.shownUrl⟩

/-- A call that is not told to the listeners changes nothing. -/
theorem step_silent {st : Store} {call : SettingsStore.Call} (h : notifies st call = false) :
    st.step call = st := by
  cases call with
  | resetDefaults takes => cases h
  | update patch takes =>
    cases patch with
    | obj patch =>
      have hnone : SettingsStore.applyPatch st.current patch = none :=
        Option.not_isSome_iff_eq_none.mp (by simpa [notifies] using h)
      rw [SettingsStore.Store.step, hnone]
    | _ => rfl

theorem Wired.step (h : p.Wired worldFromMeters dateParse) (nowMs : ℚ) (e : Event) :
    (p.step worldFromMeters dateParse nowMs e).Wired worldFromMeters dateParse := by
  cases e with
  | settings call made =>
    unfold Page.step
    dsimp only
    split
    · exact h.onChange (h.store.step call) made
    · rename_i hsilent
      rw [step_silent (Bool.not_eq_true _ ▸ hsilent)]
      exact h
  | reconnect made => exact h.onReconnect made
  | browser e he => exact h.browser he
  | rowClick id =>
    exact ⟨⟨h.scene.step (.setSelected (some id)), h.settings, h.snapshot, h.unseen, rfl⟩, h.sound,
      h.live, h.store, h.host, h.port, h.url, h.status, h.shownUrl⟩
  | pointerdown x y =>
    exact ⟨⟨h.scene, h.settings, h.snapshot, h.unseen, h.selected⟩, h.sound, h.live, h.store, h.host,
      h.port, h.url, h.status, h.shownUrl⟩
  | pointermove x y =>
    unfold Page.step
    dsimp only
    split
    · exact ⟨⟨h.scene, h.settings, h.snapshot, h.unseen, h.selected⟩, h.sound, h.live, h.store,
        h.host, h.port, h.url, h.status, h.shownUrl⟩
    · exact h
  | pointerup picked =>
    unfold Page.step
    dsimp only
    split
    · exact h
    · exact ⟨⟨h.scene.step (.setSelected picked), h.settings, h.snapshot, h.unseen, rfl⟩, h.sound,
        h.live, h.store, h.host, h.port, h.url, h.status, h.shownUrl⟩
  | frame =>
    have hscene := h.scene.step (.frame nowMs)
    have hframe : ∃ base, (p.renderer.sceneNowMs nowMs).2 =
        { p.renderer with sceneEpochBaseNow := base } := by
      unfold Scene.sceneNowMs
      split <;> exact ⟨_, rfl⟩
    obtain ⟨base, heq⟩ := hframe
    refine ⟨⟨hscene, ?_, ?_, h.unseen, ?_⟩, h.sound, h.live, h.store, h.host, h.port, h.url, h.status,
      h.shownUrl⟩
    · exact (congrArg Scene.settings heq).trans h.settings
    · exact (congrArg Scene.snapshot heq).trans h.snapshot
    · exact (congrArg Scene.selectedId heq).trans h.selected
  | tick =>
    exact ⟨⟨h.scene, h.settings, h.snapshot, h.unseen, h.selected⟩, h.sound, h.live, h.store, h.host,
      h.port, h.url, h.status, h.shownUrl⟩

theorem boot_wired (hostname : String) (dateNow : ℚ) {st : Store} (hst : st.Valid) (made : Bool) :
    (boot worldFromMeters dateParse hostname dateNow nowMs st made).Wired worldFromMeters
      dateParse := by
  have hkeeps : Scene.Keeps _ (({ sceneEpochMs := dateNow } : Scene).setSettings worldFromMeters
      (rendererSettings st.current)) := Scene.setSettings_keeps _ _
  have hstart : ({ sceneEpochMs := dateNow } : Scene).Current worldFromMeters :=
    Scene.start_current dateNow
  have hnat : ((st.current.port.toNat : ℕ) : ℤ) = st.current.port :=
    Int.toNat_of_nonneg (by linarith [hst.2.port.1])
  obtain ⟨hlive, hurl, hcallbacks, _⟩ := NetConnection.World.live_open (w := { connection := {
    host := resolveHost hostname st.current, port := st.current.port.toNat, stopped := false } })
    rfl rfl made
  have hshown : ({
      hostname
      settingsStore := st
      renderer := ({ sceneEpochMs := dateNow } : Scene).setSettings worldFromMeters
        (rendererSettings st.current)
      connection := { connection := {
        host := resolveHost hostname st.current, port := st.current.port.toNat } }
      currentHost := resolveHost hostname st.current
      currentPort := st.current.port
      shownStatus := .connecting
      shownUrl := wsUrl (resolveHost hostname st.current) st.current.port } : Page).Shown
        worldFromMeters dateParse :=
    ⟨hstart.step (.setSettings (rendererSettings st.current)), hkeeps.settings, hkeeps.snapshot,
      fun _ => rfl, hkeeps.selected⟩
  refine hshown.connected hcallbacks (NetConnection.World.connect_sound _ _ made) hlive hst rfl rfl ?_
    (.inl (List.cons_ne_nil _ _))
  refine hurl.trans ?_
  rw [wsUrl, ← hnat]
  rfl

theorem Wired.run (h : p.Wired worldFromMeters dateParse) (events : List (ℚ × Event)) :
    (p.run worldFromMeters dateParse events).Wired worldFromMeters dateParse :=
  List.foldlRecOn (motive := fun p : Page => p.Wired worldFromMeters dateParse) events _ h
    fun _ hp e _ => hp.step e.1 e.2

/-- Where the settings say that the server is. -/
def endpoint (hostname : String) (s : Settings) : String := wsUrl (resolveHost hostname s) s.port

variable (worldFromMeters) in
/-- A page goes by its settings and the last state. -/
structure Follows (hostname : String) (p : Page) : Prop where
  settings : p.settingsStore.current.Valid
  socket : ∀ i, p.connection.connection.socket = some i →
    p.connection.sockets[i]? = some (endpoint hostname p.settingsStore.current)
  others : ∀ i < p.connection.sockets.length, p.connection.connection.socket ≠ some i →
    i ∈ p.connection.closed
  retries : p.connection.connection.socket = none → p.connection.timers.length = 1
  shownUrl : p.shownUrl = endpoint hostname p.settingsStore.current
  opened : p.shownStatus = .open → p.connection.connection.socket ≠ none
  closed : p.shownStatus = .closed → p.connection.connection.socket = none
  sprites : p.renderer.sprites = (p.model.objects.filterMap (Renderer.drawn worldFromMeters
    (Renderer.normalizeSettings (some (rendererSettings p.settingsStore.current))))).take
      Renderer.MAX_OBJECTS
  satRender : p.renderer.satRender =
    p.model.satellite.map fun s => ⟨s.id, worldFromMeters s.pos⟩
  selected : p.renderer.selectedId = p.uiSelected

/-- The renderer has what the model has. -/
theorem Shown.snapshot_model (h : p.Shown worldFromMeters dateParse) :
    p.renderer.snapshot.elim [] (·.objects) = p.model.objects ∧
      p.renderer.snapshot.bind (·.satellite) = p.model.satellite := by
  rw [h.snapshot]
  cases hseen : p.hasModel with
  | true => exact ⟨rfl, rfl⟩
  | false =>
    rw [h.unseen hseen]
    exact ⟨rfl, rfl⟩

theorem Wired.follows (h : p.Wired worldFromMeters dateParse) {hostname : String}
    (hhostname : p.hostname = hostname) : p.Follows worldFromMeters hostname := by
  have hendpoint : wsUrl p.currentHost p.currentPort = endpoint hostname p.settingsStore.current := by
    rw [h.host, h.port, hhostname, endpoint]
  have hurl := h.url.trans hendpoint
  have hsnapshot := h.snapshot_model
  constructor
  · exact h.store.2
  · intro i hi
    rw [← hurl]
    exact h.live.aimed i hi
  · exact h.sound.others
  · intro hnone
    obtain ⟨timer, htimer⟩ := Option.ne_none_iff_exists'.mp (h.sound.alive h.live.running hnone)
    rw [← List.length_map, h.sound.pending, htimer]
    rfl
  · exact h.shownUrl.trans hendpoint
  · intro hopen
    exact (h.live.opened (h.status.trans (congrArg some hopen))).1
  · intro hclosed
    exact h.live.closed (h.status.trans (congrArg some hclosed))
  · rw [h.scene.sprites, hsnapshot.1, h.settings]
  · rw [h.scene.satRender, hsnapshot.2]
  · exact h.selected

end Page
end Steps

end FrontendMain
