import OrbitalViewer.Backend
import OrbitalViewer.Connection
import OrbitalViewer.Model
import OrbitalViewer.TimerPeriod

/-!
# From the store to the viewer

The backend, one browser and the network between them. A socket of the browser
reaches one session of the server, and what arrives on it is what that session
put on the wire, in order. The browser may drop sockets and open others at any
time; what it is shown still only moves forward.
-/

namespace Olv.Viewer
open Ieee (F64)
open NetParse (parseStateMessage)
open WsServer (Text Connection)
open Backend (Tick Process)

/-- `session` is where a socket of the browser leads, and `delivered` is what has
arrived on it. -/
structure System (src : InputSource) where
  backend : Process src
  browser : NetConnection.World
  model : ClientModel.Model := {}
  session : Nat → Option Nat := fun _ => none
  delivered : Nat → List Text := fun _ => []

inductive Action where
  | backend (a : Backend.Action)
  | browser (e : NetConnection.Event)
  | connect (socket id : Nat)
  | deliver (socket : Nat) (nowMs : ℚ)

namespace System
variable {src : InputSource} (sections : CriticalSections src)

variable (src) in
def start (expiry : Int) (broadcastHz : F64) (host : String) (port : Nat) (made : Bool) :
    System src where
  backend := Process.start src expiry broadcastHz
  browser := ({ connection := { host, port } } : NetConnection.World).connect made

/-- The next frame for a socket, if there is one. -/
def nextFrame (s : System src) (socket : Nat) : Option Text :=
  match (s.session socket).map s.backend.ws.connections with
  | some (.live _ _ w) => w.wire[(s.delivered socket).length]?
  | _ => none

/-- `onState` of `main.js` applies what the connection reports. -/
def arrive (socket : Nat) (nowMs : ℚ) (frame : Text) (s : System src) : System src :=
  { s with
    browser := s.browser.step (.message socket frame)
    model := if s.browser.connection.socket = some socket then s.model.receive (frame, nowMs)
      else s.model
    delivered := Function.update s.delivered socket (s.delivered socket ++ [frame]) }

/-- Messages arrive by `deliver` alone. A socket connects once, and takes a session
that no other socket has and whose handshake is outstanding. -/
def step (s : System src) : Action → Option (System src)
  | .backend a => (s.backend.step sections a).map fun backend => { s with backend }
  | .browser (.message _ _) => some s
  | .browser e => some { s with browser := s.browser.step e }
  | .connect socket id =>
    some (match s.backend.ws.connections id with
      | .handshaking =>
        if socket < s.browser.sockets.length ∧ s.session socket = none ∧
            ∀ i < s.browser.sockets.length, s.session i ≠ some id then
          { s with session := Function.update s.session socket (some id) }
        else s
      | _ => s)
  | .deliver socket nowMs => some ((s.nextFrame socket).elim s fun frame => s.arrive socket nowMs frame)

def run (s : System src) (actions : List Action) : Option (System src) :=
  actions.foldlM (step sections) s

/-- The states broadcast so far. -/
def log (s : System src) : List NetParse.State := s.backend.ticks.mapIdx Tick.state

/-- Where in the log the current socket joined. One that has no session yet will
join at its end. -/
def joinedAt (s : System src) : Nat :=
  match (s.browser.connection.socket.bind s.session).map s.backend.ws.connections with
  | some (.live _ joined _) => joined
  | _ => s.log.length

/-- The states that arrived on the current socket. -/
def current (s : System src) : List NetParse.State :=
  s.browser.connection.socket.elim [] fun socket => (s.delivered socket).filterMap Backend.stateOf

/-- All that the model holds is of the last state shown; before there is one it holds nothing. -/
def Shows (m : ClientModel.Model) (last : Option NetParse.State) : Prop :=
  (last = none → m = {}) ∧ ∀ state ∈ last, ∃ nowMs : ℚ, m = {
    satellite := state.satellite
    objects := state.objects
    lastDataTime := state.lastDataTime
    serverTime := some state.serverTime
    stats := some state.stats
    trailPoints := state.trailPoints
    lastAppliedAtMs := some nowMs }

/-- What holds of the system at all times: the states shown before the current
socket are broadcasts from before it joined. -/
structure Sound (P : StateStore → Prop) (broadcastHz : F64) (s : System src) : Prop where
  backend : s.backend.Sound P broadcastHz
  browser : s.browser.Sound
  linked : ∀ socket id, s.session socket = some id → socket < s.browser.sockets.length
  delivered : ∀ socket, s.delivered socket ≠ [] → ∃ id hello joined w,
    s.session socket = some id ∧ s.backend.ws.connections id = .live hello joined w ∧
      s.delivered socket <+: w.wire
  errors : s.browser.connection.parseErrorCount = 0
  shown : ∃ old, s.browser.states = old ++ s.current ∧ old.Sublist (s.log.take s.joinedAt)
  model : Shows s.model s.browser.states.getLast?

variable {sections} {P : StateStore → Prop} {broadcastHz : F64} {s s' : System src}

theorem joinedAt_live {socket id joined : Nat} {hello : Text} {w : WsServer.World Text}
    (hsocket : s.browser.connection.socket = some socket) (hid : s.session socket = some id)
    (hlive : s.backend.ws.connections id = .live hello joined w) : s.joinedAt = joined := by
  rw [joinedAt, hsocket, Option.bind_some, hid, Option.map_some, hlive]

theorem joinedAt_end (h : ∀ socket, s.browser.connection.socket = some socket →
    ∀ id, s.session socket = some id →
      ∀ hello joined w, s.backend.ws.connections id ≠ .live hello joined w) :
    s.joinedAt = s.log.length := by
  unfold joinedAt
  cases hsocket : s.browser.connection.socket with
  | none => rfl
  | some socket =>
    rw [Option.bind_some]
    cases hid : s.session socket with
    | none => rfl
    | some id =>
      rw [Option.map_some]
      have hnot := h socket hsocket id hid
      cases hc : s.backend.ws.connections id with
      | live hello joined w => exact absurd hc (hnot hello joined w)
      | absent => rfl
      | handshaking => rfl
      | dropped => rfl

/-- Every hello of the server is read as one. -/
def Greets (broadcastHz : F64) : Prop :=
  ∀ now, ∃ hello, parseStateMessage (buildHelloMessage now broadcastHz) = .ok (.hello hello)

/-- The log from where a session joined is what its broadcasts are read as. -/
theorem Sound.offered (h : Sound P broadcastHz s) (hshow : ∀ store, P store → Showable store)
    (hgreet : Greets broadcastHz) {id joined : Nat} {hello : Text} {w : WsServer.World Text}
    (hlive : s.backend.ws.connections id = .live hello joined w) :
    (w.wire.filterMap Backend.stateOf).Sublist (s.log.drop joined) ∧
      ∀ frame ∈ w.wire, ∃ m, parseStateMessage frame = .ok m := by
  have hserves := h.backend.ws.serves hlive
  have hwire : w.wire.Sublist (hello :: s.backend.ws.broadcasts.drop joined) :=
    (WsServer.World.wire_sublist hserves.sound).trans hserves.offered.sublist
  obtain ⟨now, hhello⟩ := hserves.greeting
  rw [h.backend.broadcastHz] at hhello
  obtain ⟨greeting, hgreeting⟩ := hgreet now
  rw [← hhello] at hgreeting
  have hread : (s.backend.ws.broadcasts.drop joined).map Backend.stateOf =
      (s.log.drop joined).map some := by
    rw [List.map_drop, h.backend.read hshow, ← List.map_drop]
    rfl
  have hstates : (hello :: s.backend.ws.broadcasts.drop joined).filterMap Backend.stateOf =
      s.log.drop joined := by
    have hnone : Backend.stateOf hello = none := by rw [Backend.stateOf, hgreeting]
    have hid := List.filterMap_map (f := Backend.stateOf) (g := fun x => x)
      (l := s.backend.ws.broadcasts.drop joined)
    rw [hread, List.filterMap_map] at hid
    rw [List.filterMap_cons_none hnone]
    exact hid.symm.trans List.filterMap_some
  refine ⟨hstates ▸ hwire.filterMap Backend.stateOf, fun frame hframe => ?_⟩
  rcases List.mem_cons.mp (hwire.subset hframe) with rfl | hbroadcast
  · exact ⟨_, hgreeting⟩
  · have hmem := List.mem_map_of_mem (f := Backend.stateOf) hbroadcast
    rw [hread] at hmem
    obtain ⟨state, _, hstate⟩ := List.mem_map.mp hmem
    unfold Backend.stateOf at hstate
    split at hstate
    · exact ⟨_, by assumption⟩
    · cases hstate

/-- What arrived on the current socket was broadcast since it joined. -/
theorem Sound.current_sublist (h : Sound P broadcastHz s)
    (hshow : ∀ store, P store → Showable store) (hgreet : Greets broadcastHz) :
    s.current.Sublist (s.log.drop s.joinedAt) := by
  unfold current
  cases hsocket : s.browser.connection.socket with
  | none => exact List.nil_sublist _
  | some socket =>
    by_cases hnone : s.delivered socket = []
    · simp [hnone]
    · obtain ⟨id, hello, joined, w, hid, hlive, hinitial⟩ := h.delivered socket hnone
      rw [joinedAt_live hsocket hid hlive]
      exact (hinitial.sublist.filterMap Backend.stateOf).trans (h.offered hshow hgreet hlive).1

/-- **The viewer only moves forward.** -/
theorem Sound.forward (h : Sound P broadcastHz s) (hshow : ∀ store, P store → Showable store)
    (hgreet : Greets broadcastHz) :
    s.browser.states.Sublist s.log := by
  obtain ⟨old, hstates, hold⟩ := h.shown
  rw [hstates, ← List.take_append_drop s.joinedAt s.log]
  exact hold.append (h.current_sublist hshow hgreet)

/-! ## One action -/

theorem log_prefix {backend : Process src} (hticks : s.backend.ticks <+: backend.ticks) :
    s.log <+: ({ s with backend } : System src).log := by
  obtain ⟨new, hnew⟩ := hticks
  unfold log
  dsimp only
  rw [← hnew, List.mapIdx_append]
  exact List.prefix_append ..

/-- What was broadcast before the current socket joined stays so. -/
theorem taken_grows {backend : Process src}
    (hticks : s.backend.ticks <+: backend.ticks) (hmoves : ∀ id, s.backend.Moves backend id) :
    (s.log.take s.joinedAt).Sublist
      (({ s with backend } : System src).log.take ({ s with backend } : System src).joinedAt) := by
  have hlog := log_prefix hticks
  have hlength : s.log.length = s.backend.ticks.length := List.length_mapIdx
  by_cases hlive : ∃ socket id hello joined w, s.browser.connection.socket = some socket ∧
      s.session socket = some id ∧ s.backend.ws.connections id = .live hello joined w
  · obtain ⟨socket, id, hello, joined, w, hsocket, hid, hlive⟩ := hlive
    obtain ⟨w', hlive', _⟩ := (hmoves id).lives hello joined w hlive
    rw [joinedAt_live hsocket hid hlive, joinedAt_live (s := { s with backend }) hsocket hid hlive']
    exact (hlog.take joined).sublist
  · have hnot (socket : Nat) (hsocket : s.browser.connection.socket = some socket) (id : Nat)
        (hid : s.session socket = some id) (hello : Text) (joined : Nat) (w : WsServer.World Text) :
        s.backend.ws.connections id ≠ .live hello joined w := fun hlive' =>
      hlive ⟨socket, id, hello, joined, w, hsocket, hid, hlive'⟩
    refine (List.take_sublist _ _).trans ?_
    by_cases hlive' : ∃ socket id hello joined w, s.browser.connection.socket = some socket ∧
        s.session socket = some id ∧ backend.ws.connections id = .live hello joined w
    · obtain ⟨socket, id, hello, joined, w, hsocket, hid, hlive'⟩ := hlive'
      have hjoined := (hmoves id).joins (hnot socket hsocket id hid) hello joined w hlive'
      rw [joinedAt_live (s := { s with backend }) hsocket hid hlive', hjoined, ← hlength,
        ← List.prefix_iff_eq_take.mp hlog]
    · rw [joinedAt_end (s := { s with backend }) fun socket hsocket id hid hello joined w hc =>
        hlive' ⟨socket, id, hello, joined, w, hsocket, hid, hc⟩, List.take_length]
      exact hlog.sublist

theorem Sound.backend_step (h : Sound P broadcastHz s)
    (hP : ∀ (w : World src) a, P w.store → P (w.step sections a).store) (a : Backend.Action) :
    ∃ backend, s.backend.step sections a = some backend ∧
      Sound P broadcastHz { s with backend } := by
  obtain ⟨backend, hstep, hbackend⟩ := h.backend.step hP a
  obtain ⟨hticks, hmoves⟩ := h.backend.step_moves hstep
  refine ⟨backend, hstep, hbackend, h.browser, h.linked, fun socket hne => ?_, h.errors, ?_, h.model⟩
  · obtain ⟨id, hello, joined, w, hid, hlive, hinitial⟩ := h.delivered socket hne
    obtain ⟨w', hlive', hwire⟩ := (hmoves id).lives hello joined w hlive
    exact ⟨id, hello, joined, w', hid, hlive', hinitial.trans hwire⟩
  · obtain ⟨old, hstates, hold⟩ := h.shown
    exact ⟨old, hstates, hold.trans (taken_grows hticks hmoves)⟩

/-- Whatever happens in the browser but a message: all that was shown is older than
what a new socket will bring. -/
theorem Sound.browser_step (h : Sound P broadcastHz s)
    (hshow : ∀ store, P store → Showable store) (hgreet : Greets broadcastHz)
    {browser : NetConnection.World} (hquiet : NetConnection.World.Quiet s.browser browser)
    (hsound : browser.Sound) :
    Sound P broadcastHz { s with browser } := by
  have hlog : ({ s with browser } : System src).log = s.log := rfl
  have hlinked (socket id : Nat) (hid : s.session socket = some id) :
      socket < browser.sockets.length := (h.linked socket id hid).trans_le hquiet.grows
  refine ⟨h.backend, hsound, hlinked, h.delivered, hquiet.errors.trans h.errors, ?_,
    hquiet.states ▸ h.model⟩
  -- a socket that no session was found for has brought nothing
  have hfresh (h' : ∀ socket, browser.connection.socket = some socket → s.session socket = none) :
      ∃ old, ({ s with browser } : System src).browser.states =
          old ++ ({ s with browser } : System src).current ∧
        old.Sublist (s.log.take ({ s with browser } : System src).joinedAt) := by
    refine ⟨s.browser.states, hquiet.states.trans ?_, ?_⟩
    · have hnone : ({ s with browser } : System src).current = [] := by
        unfold current
        dsimp only
        cases hsocket : browser.connection.socket with
        | none => rfl
        | some socket =>
          have hempty : s.delivered socket = [] := by
            by_contra hne
            obtain ⟨id, _, _, _, hid, _⟩ := h.delivered socket hne
            exact absurd ((h' socket hsocket).symm.trans hid) (by simp)
          simp [hempty]
      rw [hnone, List.append_nil]
    · rw [joinedAt_end (s := { s with browser }) fun socket hsocket id hid =>
        absurd ((h' socket hsocket).symm.trans hid) (by simp), hlog, List.take_length]
      exact h.forward hshow hgreet
  rcases hquiet.socket with hsame | hnone | ⟨n, hn, hle⟩
  · obtain ⟨old, hstates, hold⟩ := h.shown
    have hcurrent : ({ s with browser } : System src).current = s.current := by
      unfold current
      rw [hsame]
    have hjoined : ({ s with browser } : System src).joinedAt = s.joinedAt := by
      unfold joinedAt
      rw [hsame]
      rfl
    exact ⟨old, by rw [hcurrent]; exact hquiet.states.trans hstates, by rwa [hjoined]⟩
  · exact hfresh fun socket hsocket => absurd (hnone.symm.trans hsocket) (by simp)
  · refine hfresh fun socket hsocket => ?_
    obtain rfl : n = socket := Option.some.inj (hn.symm.trans hsocket)
    by_contra hne
    obtain ⟨id, hid⟩ := Option.ne_none_iff_exists'.mp hne
    exact absurd (h.linked n id hid) (by omega)

/-- A socket reaches the server. -/
theorem Sound.connect (h : Sound P broadcastHz s) {socket id : Nat}
    (hid : s.backend.ws.connections id = .handshaking) (hlt : socket < s.browser.sockets.length)
    (hfree : s.session socket = none) :
    Sound P broadcastHz { s with session := Function.update s.session socket (some id) } := by
  have hempty : s.delivered socket = [] := by
    by_contra hne
    obtain ⟨_, _, _, _, hsome, _⟩ := h.delivered socket hne
    exact absurd (hfree.symm.trans hsome) (by simp)
  refine ⟨h.backend, h.browser, fun i id' hi => ?_, fun i hne => ?_, h.errors, ?_, h.model⟩
  · by_cases heq : i = socket
    · exact heq ▸ hlt
    · exact h.linked i id' ((Function.update_of_ne heq ..).symm.trans hi)
  · have heq : i ≠ socket := by
      rintro rfl
      exact hne hempty
    obtain ⟨id', hello, joined, w, hi, hrest⟩ := h.delivered i hne
    exact ⟨id', hello, joined, w, (Function.update_of_ne heq ..).trans hi, hrest⟩
  · obtain ⟨old, hstates, hold⟩ := h.shown
    refine ⟨old, hstates, hold.trans ?_⟩
    have hlog : ({ s with session := Function.update s.session socket (some id) } : System src).log =
        s.log := rfl
    rw [hlog]
    by_cases hcurrent : s.browser.connection.socket = some socket
    · have hend : ({ s with session := Function.update s.session socket (some id) } :
          System src).joinedAt = s.log.length := by
        refine joinedAt_end fun i hi id' hid' hello joined w hlive => ?_
        obtain rfl : socket = i := Option.some.inj (hcurrent.symm.trans hi)
        dsimp only at hid'
        rw [Function.update_self] at hid'
        obtain rfl := Option.some.inj hid'
        exact absurd (hid.symm.trans hlive) (by simp)
      rw [hend, List.take_length]
      exact List.take_sublist _ _
    · have hsame : ({ s with session := Function.update s.session socket (some id) } :
          System src).joinedAt = s.joinedAt := by
        unfold joinedAt
        dsimp only
        cases hsocket : s.browser.connection.socket with
        | none => rfl
        | some c =>
          have hne : c ≠ socket := fun heq => hcurrent (hsocket.trans (congrArg some heq))
          rw [Option.bind_some, Option.bind_some, Function.update_of_ne hne]
          rfl
      rw [hsame]

theorem prefix_next {α : Type} {xs ys : List α} {y : α} (h : xs <+: ys) (hnext : ys[xs.length]? = some y) :
    xs ++ [y] <+: ys := by
  obtain ⟨rest, rfl⟩ := h
  rw [List.getElem?_append_right le_rfl, Nat.sub_self] at hnext
  cases rest with
  | nil => simp at hnext
  | cons z rest =>
    obtain rfl := Option.some.inj hnext
    exact ⟨rest, by simp⟩

/-- What a message that parses does to the connection and the model. -/
theorem message_step {b : NetConnection.World} {m : ClientModel.Model} {socket : Nat} {frame : Text}
    (hlt : socket < b.sockets.length) (hcurrent : b.connection.socket = some socket)
    (hparse : ∃ msg, parseStateMessage frame = .ok msg) (hshows : Shows m b.states.getLast?)
    (nowMs : ℚ) :
    (b.step (.message socket frame)).states = b.states ++ (Backend.stateOf frame).toList ∧
      (b.step (.message socket frame)).connection = b.connection ∧
      (b.step (.message socket frame)).sockets = b.sockets ∧
      Shows (m.receive (frame, nowMs)) (b.step (.message socket frame)).states.getLast? := by
  obtain ⟨msg, hmsg⟩ := hparse
  cases msg with
  | hello greeting =>
    have hstep : b.step (.message socket frame) = b.emit (.onHello greeting) := by
      simp [NetConnection.World.step, hlt, NetConnection.World.onmessage, hcurrent, hmsg]
    have hnone : Backend.stateOf frame = none := by rw [Backend.stateOf, hmsg]
    have hstates : (b.emit (.onHello greeting)).states = b.states := by
      simp [NetConnection.World.states, NetConnection.World.emit, NetConnection.Callback.state]
    have hmodel : m.receive (frame, nowMs) = m := by rw [ClientModel.Model.receive, hmsg]
    rw [hstep, hnone, hstates, hmodel]
    exact ⟨(List.append_nil _).symm, rfl, rfl, hshows⟩
  | state st =>
    have hstep : b.step (.message socket frame) = b.emit (.onState st) := by
      simp [NetConnection.World.step, hlt, NetConnection.World.onmessage, hcurrent, hmsg]
    have hsome : Backend.stateOf frame = some st := by rw [Backend.stateOf, hmsg]
    have hstates : (b.emit (.onState st)).states = b.states ++ [st] := by
      simp [NetConnection.World.states, NetConnection.World.emit, NetConnection.Callback.state]
    have hmodel : m.receive (frame, nowMs) = ClientModel.Model.applyState {} st nowMs := by
      rw [ClientModel.Model.receive, hmsg]
      rfl
    rw [hstep, hsome, hstates, hmodel]
    refine ⟨rfl, rfl, rfl, fun hnone => absurd hnone (by simp), fun last hlast => ⟨nowMs, ?_⟩⟩
    rw [List.getLast?_concat] at hlast
    obtain rfl := Option.some.inj hlast
    rfl

theorem arrive_delivered (socket : Nat) (nowMs : ℚ) (frame : Text) (s : System src) :
    (s.arrive socket nowMs frame).delivered =
      Function.update s.delivered socket (s.delivered socket ++ [frame]) := rfl

/-- A frame arrives. -/
theorem Sound.arrive (h : Sound P broadcastHz s) (hshow : ∀ store, P store → Showable store)
    (hgreet : Greets broadcastHz) {socket : Nat} {frame : Text} (hnext : s.nextFrame socket = some frame) (nowMs : ℚ) :
    Sound P broadcastHz (s.arrive socket nowMs frame) := by
  obtain ⟨id, hello, joined, w, hid, hlive, hframe⟩ : ∃ id hello joined w,
      s.session socket = some id ∧ s.backend.ws.connections id = .live hello joined w ∧
      w.wire[(s.delivered socket).length]? = some frame := by
    unfold nextFrame at hnext
    split at hnext
    · rename_i hello joined w hsome
      obtain ⟨id, hid, hlive⟩ := Option.map_eq_some_iff.mp hsome
      exact ⟨id, hello, joined, w, hid, hlive, hnext⟩
    · cases hnext
  have hinitial : s.delivered socket <+: w.wire := by
    by_cases hnone : s.delivered socket = []
    · rw [hnone]
      exact List.nil_prefix
    · obtain ⟨id', hello', joined', w', hid', hlive', hinitial⟩ := h.delivered socket hnone
      obtain rfl := Option.some.inj (hid.symm.trans hid')
      cases hlive.symm.trans hlive'
      exact hinitial
  have hlt := h.linked socket id hid
  have hparse := (h.offered hshow hgreet hlive).2 frame (List.mem_of_getElem? hframe)
  have hdelivered (i : Nat) (hne : (s.arrive socket nowMs frame).delivered i ≠ []) :
      ∃ id hello joined w, s.session i = some id ∧
        s.backend.ws.connections id = .live hello joined w ∧
        (s.arrive socket nowMs frame).delivered i <+: w.wire := by
    by_cases hi : i = socket
    · subst hi
      refine ⟨id, hello, joined, w, hid, hlive, ?_⟩
      rw [arrive_delivered, Function.update_self]
      exact prefix_next hinitial hframe
    · have hsame : (s.arrive socket nowMs frame).delivered i = s.delivered i :=
        Function.update_of_ne hi ..
      rw [hsame] at hne ⊢
      exact h.delivered i hne
  obtain ⟨old, hstates, hold⟩ := h.shown
  by_cases hcurrent : s.browser.connection.socket = some socket
  · obtain ⟨hnew, hconnection, hsockets, hmodel⟩ :=
      message_step hlt hcurrent hparse h.model nowMs
    have hsocket : (s.arrive socket nowMs frame).browser.connection.socket =
        s.browser.connection.socket := congrArg NetConnection.Connection.socket hconnection
    have hjoined : (s.arrive socket nowMs frame).joinedAt = s.joinedAt := by
      unfold joinedAt
      rw [hsocket]
      rfl
    have harrived : (s.arrive socket nowMs frame).current =
        s.current ++ (Backend.stateOf frame).toList := by
      unfold current
      rw [hsocket, hcurrent, Option.elim_some, Option.elim_some, arrive_delivered,
        Function.update_self, List.filterMap_append]
      cases hstate : Backend.stateOf frame <;> simp [hstate]
    refine ⟨h.backend, h.browser.step (.message socket frame), fun i id' hi => ?_, hdelivered, ?_, ⟨old, ?_, ?_⟩, ?_⟩
    · exact hsockets ▸ h.linked i id' hi
    · exact (congrArg NetConnection.Connection.parseErrorCount hconnection).trans h.errors
    · rw [harrived, ← List.append_assoc, ← hstates]
      exact hnew
    · rw [hjoined]
      exact hold
    · rw [System.arrive, if_pos hcurrent]
      exact hmodel
  · have hbrowser : (s.arrive socket nowMs frame).browser = s.browser := by
      simp [System.arrive, NetConnection.World.step, hlt, NetConnection.World.onmessage, hcurrent]
    have hjoined : (s.arrive socket nowMs frame).joinedAt = s.joinedAt := by
      unfold joinedAt
      rw [hbrowser]
      rfl
    have harrived : (s.arrive socket nowMs frame).current = s.current := by
      unfold current
      rw [hbrowser]
      cases hsocket : s.browser.connection.socket with
      | none => rfl
      | some c =>
        have hne : c ≠ socket := fun heq => hcurrent (hsocket.trans (congrArg some heq))
        rw [Option.elim_some, Option.elim_some, arrive_delivered, Function.update_of_ne hne]
    refine ⟨h.backend, h.browser.step (.message socket frame), hbrowser ▸ h.linked, hdelivered, hbrowser ▸ h.errors,
      ⟨old, ?_, ?_⟩, ?_⟩
    · rw [hbrowser, harrived]
      exact hstates
    · rw [hjoined]
      exact hold
    · rw [hbrowser, System.arrive, if_neg hcurrent]
      exact h.model

/-- **One action.** -/
theorem Sound.step (h : Sound P broadcastHz s)
    (hP : ∀ (w : World src) a, P w.store → P (w.step sections a).store)
    (hshow : ∀ store, P store → Showable store) (hgreet : Greets broadcastHz)
    (a : Action) : ∃ s', s.step sections a = some s' ∧ Sound P broadcastHz s' := by
  have hbrowser (e : NetConnection.Event) (he : ∀ socket data, e ≠ .message socket data) :
      Sound P broadcastHz { s with browser := s.browser.step e } :=
    h.browser_step hshow hgreet (NetConnection.World.quiet_step s.browser he) (h.browser.step e)
  cases a with
  | backend a =>
    obtain ⟨backend, hstep, hsound⟩ := h.backend_step hP a
    exact ⟨_, congrArg (Option.map _) hstep, hsound⟩
  | browser e =>
    cases e with
    | message socket data => exact ⟨s, rfl, h⟩
    | close => exact ⟨_, rfl, hbrowser .close (by simp)⟩
    | setEndpoint host port made => exact ⟨_, rfl, hbrowser (.setEndpoint host port made) (by simp)⟩
    | timer timer made => exact ⟨_, rfl, hbrowser (.timer timer made) (by simp)⟩
    | opened socket => exact ⟨_, rfl, hbrowser (.opened socket) (by simp)⟩
    | closed socket => exact ⟨_, rfl, hbrowser (.closed socket) (by simp)⟩
  | connect socket id =>
    refine ⟨_, rfl, ?_⟩
    cases hid : s.backend.ws.connections id with
    | handshaking =>
      dsimp only
      split
      · rename_i hfree
        exact h.connect hid hfree.1 hfree.2.1
      · exact h
    | absent => exact h
    | dropped => exact h
    | live hello joined w => exact h
  | deliver socket nowMs =>
    refine ⟨_, rfl, ?_⟩
    cases hnext : s.nextFrame socket with
    | none => exact h
    | some frame => exact h.arrive hshow hgreet hnext nowMs

/-- **A run.** -/
theorem Sound.run (h : Sound P broadcastHz s)
    (hP : ∀ (w : World src) a, P w.store → P (w.step sections a).store)
    (hshow : ∀ store, P store → Showable store) (hgreet : Greets broadcastHz)
    (actions : List Action) : ∃ s', s.run sections actions = some s' ∧ Sound P broadcastHz s' := by
  induction actions generalizing s with
  | nil => exact ⟨s, rfl, h⟩
  | cons a actions ih =>
    obtain ⟨next, hstep, hnext⟩ := h.step hP hshow hgreet a
    obtain ⟨s', hrun, hs'⟩ := ih hnext
    refine ⟨s', ?_, hs'⟩
    rw [System.run, List.foldlM_cons, hstep]
    exact hrun

theorem start_sound (expiry : Int) (broadcastHz : F64) (host : String) (port : Nat) (made : Bool)
    (hempty : P { objectExpiry := expiry }) :
    Sound P broadcastHz (start src expiry broadcastHz host port made) := by
  have hquiet : NetConnection.World.Quiet
      { connection := { host, port, stopped := false, backoffIndex := 0 } }
      (start src expiry broadcastHz host port made).browser :=
    (NetConnection.World.quiet_clear _).trans (NetConnection.World.quiet_open _ made)
  have hstates : (start src expiry broadcastHz host port made).browser.states = [] := hquiet.states
  have hcurrent : (start src expiry broadcastHz host port made).current = [] := by
    unfold current
    cases (start src expiry broadcastHz host port made).browser.connection.socket <;> rfl
  refine ⟨Process.start_sound expiry broadcastHz hempty, NetConnection.World.connect_sound host port made,
    fun _ _ hid => absurd hid (by simp [start]), fun _ hne => absurd rfl hne, hquiet.errors,
    ⟨[], by rw [hstates, hcurrent]; rfl, List.nil_sublist _⟩, ?_⟩
  rw [hstates]
  exact ⟨fun _ => rfl, fun _ hlast => absurd hlast (by simp)⟩

end System

/-- The hello of an accepted configuration is read as one. -/
theorem greeting {strtod : Toml.Strtod} {files : Toml.Files} {args : List (List Char)} {cfg : Config}
    (h : parseArgs strtod files args = .ok cfg) (now : Int) :
    parseStateMessage (buildHelloMessage now cfg.broadcastHz) = .ok (.hello {
      serverTime := String.ofList (iso8601Utc now)
      broadcastHz := Decimal.rounded 1 cfg.broadcastHz.datum
      limits := [("maxObjects", .num Proto.kMaxTrackedObjects.toNat)] }) := by
  have hvalid := parseArgs_hz h
  rw [validHz_eq] at hvalid
  obtain ⟨hfinite, hpos, hle⟩ := validRate_iff.mp hvalid
  have hbound : |cfg.broadcastHz.datum.toRat| ≤ (60 : ℕ) := by
    rw [abs_of_pos hpos]
    exact_mod_cast hle
  exact hello_read now (prints_of_bounded (k := 2) (by decide) cfg.broadcastHz.datum_proper hfinite
    (by decide) hbound (by decide) (by decide)).2

/-- **The viewer follows the store.** In OLV1 mode, whatever datagrams, completions,
broadcasts, reconnections and deliveries come in whatever order: nothing goes wrong in
the server, no message is refused by the browser, and the states it is shown over all its
connections are broadcast states, in the order of the broadcasts and none twice. The
`k`th of these shows the snapshot of the store at that broadcast, and the panels show
the last that arrived. -/
theorem viewer_follows {strtod : Toml.Strtod} {files : Toml.Files} {args : List (List Char)}
    {cfg : Config} (h : parseArgs strtod files args = .ok cfg) (host : String) (port : Nat)
    (made : Bool) (actions : List Action) :
    ∃ s, (System.start olv1InputSource (seconds cfg.expirySeconds.toInt) cfg.broadcastHz host port
        made).run olv1Sections actions = some s ∧
      s.browser.connection.parseErrorCount = 0 ∧
      s.browser.states.Sublist s.log ∧
      System.Shows s.model s.browser.states.getLast? := by
  have hgreet : System.Greets cfg.broadcastHz := fun now => ⟨_, greeting h now⟩
  have hstart : System.Sound Olv1Store cfg.broadcastHz (System.start olv1InputSource
      (seconds cfg.expirySeconds.toInt) cfg.broadcastHz host port made) :=
    System.start_sound _ _ _ _ _ ⟨StateStore.sound_empty _, by rintro _ ⟨⟩, rfl⟩
  obtain ⟨s, hrun, hs⟩ := hstart.run Backend.olv1_sections (fun _ => Olv1Store.showable) hgreet actions
  exact ⟨s, hrun, hs.errors, hs.forward (fun _ => Olv1Store.showable) hgreet, hs.model⟩

/-- Object 9 is reported; a socket connects, is greeted, and gets the next broadcast. -/
def sampleViewing : List Action :=
  [.backend (.receive
      { bytes := Proto.encode { satId := 1, objectTotal := 1, objects := [{ id := 9 }] } }),
    .backend .settle, .backend (.io (.accepted true)), .connect 0 0,
    .backend (.io (.handshake 0 true 0 0)), .backend (.io (.wrote 0 true)), .deliver 0 0,
    .backend (.tick 0 0), .backend (.io (.wrote 0 true)), .deliver 0 5]

/-- With the default configuration, object 9 reaches the panels at 5 ms. -/
theorem viewer_follows_sample :
    ∃ s, (System.start olv1InputSource (seconds (15 : I32).toInt) (toDouble 1) "localhost" 8765
        true).run olv1Sections sampleViewing = some s ∧
      s.browser.connection.parseErrorCount = 0 ∧
      s.browser.states.Sublist s.log ∧
      System.Shows s.model s.browser.states.getLast? ∧
      s.browser.states.map (fun state => state.objects.map (·.id)) = [[9]] ∧
      s.model.objects.map (·.id) = [9] ∧ s.model.lastAppliedAtMs = some 5 := by
  have hdefault : parseArgs Toml.strict (fun _ => none) [] = .ok {} := by rfl
  obtain ⟨s, hs, herrors, hstates, hshows⟩ :=
    viewer_follows hdefault "localhost" 8765 true sampleViewing
  have hseen : ((System.start olv1InputSource (seconds (15 : I32).toInt) (toDouble 1) "localhost"
      8765 true).run olv1Sections sampleViewing).map (fun s =>
        (s.browser.states.map (fun state => state.objects.map (·.id)),
          s.model.objects.map (·.id), s.model.lastAppliedAtMs)) = some ([[9]], [9], some 5) := by
    decide +kernel
  have hs' : (System.start olv1InputSource (seconds (15 : I32).toInt) (toDouble 1) "localhost"
      8765 true).run olv1Sections sampleViewing = some s := hs
  rw [hs', Option.map_some] at hseen
  obtain ⟨hids, hrest⟩ := Prod.mk.inj (Option.some.inj hseen)
  obtain ⟨hmodel, htime⟩ := Prod.mk.inj hrest
  exact ⟨s, hs, herrors, hstates, hshows, hids, hmodel, htime⟩

end Olv.Viewer
