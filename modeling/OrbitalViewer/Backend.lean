import OrbitalViewer.BroadcastOlv1
import OrbitalViewer.ReceiveThread
import OrbitalViewer.WsClients

/-!
# The backend

`main.cpp`: the input thread and the io_context thread over one store. The store
is the only thing they share, and a broadcast touches it in one critical section,
so a completion of the io_context is one step. `ticks` is history: what the
snapshot of each broadcast was taken of.
-/

namespace Olv.WsServer.World

/-- What was put on the wire: the frames written, and the one whose write is
outstanding or failed. -/
def wire (w : World Text) : List Text := w.written ++ w.session.outbox.take 1

variable {hello : Text} {w w' : World Text} {e : Event Text}

theorem wire_sublist (h : Sound hello w) : w.wire.Sublist w.enqueued :=
  ((List.Sublist.refl w.written).append (List.take_sublist 1 _)).trans h.sublist

/-- A write that completes takes its frame off the front, or leaves the outbox. -/
theorem wrote_cases (h : Sound hello w) {ok : Bool} (hstep : w.wrote ok = some w') :
    (w'.written = w.written ∧ w'.session.outbox = w.session.outbox) ∨
      ∃ frame, w.session.outbox = frame :: w'.session.outbox ∧ w'.written = w.written ++ [frame] := by
  cases hw : w.session.writing with
  | false =>
    rw [World.wrote, h.idle hw] at hstep
    exact Option.some.inj hstep ▸ .inl ⟨rfl, rfl⟩
  | true =>
    obtain ⟨frame, rest, hout, hin⟩ := h.writing hw
    rw [World.wrote, hin] at hstep
    obtain ⟨r, hr, rfl⟩ := Option.map_eq_some_iff.mp hstep
    cases ok with
    | false =>
      obtain rfl := Option.some.inj hr
      refine .inl ⟨rfl, ?_⟩
      show (Session.fail _).1.outbox = _
      unfold Session.fail
      split <;> rfl
    | true =>
      refine .inr ⟨frame, ?_, rfl⟩
      rw [hout]
      simp only [Session.onWrite, hout, Bool.not_true, Bool.false_eq_true, if_false] at hr
      split at hr
      · obtain rfl := Option.some.inj hr
        rfl
      · obtain ⟨_, _, rfl⟩ := Option.map_eq_some_iff.mp hr
        rfl

/-- What is on the wire stays there. -/
theorem wire_initial (h : Sound hello w) (hstep : w.step e = some w') : w.wire <+: w'.wire := by
  cases e with
  | send frame =>
    cases hc : w.session.closed with
    | true => exact Option.some.inj ((send_closed hc frame).symm.trans hstep) ▸ List.prefix_refl _
    | false =>
      obtain ⟨sent, hsent, htakes, _, _, hwritten, _⟩ := h.send hc frame
      obtain rfl := Option.some.inj (hsent.symm.trans hstep)
      unfold wire
      rw [hwritten]
      cases htakes with
      | starts hempty hout _ =>
        rw [hempty, hout]
        exact ⟨[frame], by simp⟩
      | queues hnonempty _ hout _ _ =>
        rw [hnonempty, hout]
        exact List.prefix_refl _
      | sheds hfull _ hout _ _ =>
        rw [hfull, hout]
        exact List.prefix_refl _
  | wrote ok =>
    rcases wrote_cases h hstep with ⟨hwritten, hout⟩ | ⟨frame, hout, hwritten⟩
    · unfold wire
      rw [hwritten, hout]
    · unfold wire
      rw [hwritten, hout]
      exact ⟨w'.session.outbox.take 1, by simp⟩
  | read ok =>
    obtain rfl := Option.some.inj hstep
    have hout : (w.session.onRead ok).1.outbox = w.session.outbox := by
      cases ok with
      | true => rfl
      | false =>
        show (Session.fail _).1.outbox = _
        unfold Session.fail
        split <;> rfl
    show w.written ++ w.session.outbox.take 1 <+: w.written ++ (w.session.onRead ok).1.outbox.take 1
    rw [hout]
  | close =>
    obtain rfl := Option.some.inj hstep
    have hout : w.session.close.1.outbox = w.session.outbox := by
      unfold Session.close
      split <;> rfl
    show w.written ++ w.session.outbox.take 1 <+: w.written ++ w.session.close.1.outbox.take 1
    rw [hout]

theorem wire_run (h : Sound hello w) {events : List (Event Text)}
    (hrun : events.foldlM step w = some w') : w.wire <+: w'.wire := by
  induction events generalizing w with
  | nil => exact Option.some.inj hrun ▸ List.prefix_refl _
  | cons e events ih =>
    rw [List.foldlM_cons] at hrun
    obtain ⟨next, hnext, hrest⟩ := Option.bind_eq_some_iff.mp hrun
    obtain ⟨next', hnext', hsound, _⟩ := h.step e
    obtain rfl := Option.some.inj (hnext'.symm.trans hnext)
    exact (wire_initial h hnext).trans (ih hsound hrest)

end Olv.WsServer.World

namespace Olv.Backend
open Ieee (F64)
open NetParse (parseStateMessage)
open WsServer (Server Text Connection)

/-- A broadcast: the store, its clock, the time of the server and the clients. -/
structure Tick where
  store : StateStore
  mono : Int
  now : Int
  clients : Nat

/-- The snapshot of the broadcast after `k` others. -/
def Tick.snapshot (k : Nat) (t : Tick) : Snapshot := broadcastSnapshot t.store t.mono (k + 1)

def Tick.text (k : Nat) (t : Tick) : Text :=
  buildStateMessage (t.snapshot k) t.now (BitVec.ofNat 32 t.clients)

/-- What a client reads in it. -/
def Tick.state (k : Nat) (t : Tick) : NetParse.State :=
  shown (t.snapshot k) t.now (BitVec.ofNat 32 t.clients)

structure Process (src : InputSource) where
  input : World src
  ws : Server
  ticks : List Tick := []

inductive Action where
  | receive (d : Datagram)
  | settle
  | io (c : Server.Completion)
  | tick (mono now : Int)

namespace Process
variable {src : InputSource} (sections : CriticalSections src)

variable (src) in
def start (expiry : Int) (broadcastHz : F64) : Process src :=
  { input := World.start src expiry, ws := Server.start broadcastHz }

/-- The timer expires. No snapshot is taken once the server was stopped. -/
def tick (mono now : Int) (p : Process src) : Option (Process src) :=
  let snap := (p.input.store.snapshot mono).1
  (p.ws.step (.expired snap now)).map fun ws =>
    if p.ws.waiting = 0 ∨ p.ws.stopped then { p with ws }
    else
      { input := p.input.step sections (.snapshot mono)
        ws
        ticks := p.ticks ++ [⟨p.input.store, mono, now, p.ws.sessions.length⟩] }

/-- The broadcast timer is `tick`; it is no other completion. -/
def step (p : Process src) : Action → Option (Process src)
  | .receive d => some { p with input := p.input.step sections (.receive d) }
  | .settle => some { p with input := p.input.step sections .settle }
  | .io (.expired _ _) => some p
  | .io c => (p.ws.step c).map fun ws => { p with ws }
  | .tick mono now => p.tick sections mono now

def run (expiry : Int) (broadcastHz : F64) (actions : List Action) : Option (Process src) :=
  actions.foldlM (step sections) (start src expiry broadcastHz)

/-! ## The history of the broadcasts -/

/-- What holds of the backend at all times; `P` is what holds of the store. -/
structure Sound (P : StateStore → Prop) (broadcastHz : F64) (p : Process src) : Prop where
  ws : WsServer.Sound p.ws
  broadcastHz : p.ws.broadcastHz = broadcastHz
  broadcasts : p.ws.broadcasts = p.ticks.mapIdx Tick.text
  store : P p.input.store
  ticks : ∀ t ∈ p.ticks, P t.store

variable {sections} {P : StateStore → Prop} {broadcastHz : F64} {p p' : Process src}

theorem Sound.length_eq (h : Sound P broadcastHz p) : p.ws.broadcastSeq = p.ticks.length := by
  rw [h.ws.numbered, h.broadcasts, List.length_mapIdx]

theorem Sound.io (h : Sound P broadcastHz p) {c : Server.Completion} {ws : Server}
    (hstep : p.ws.step c = some ws) (hadds : p.ws.adds c = []) :
    Sound P broadcastHz { p with ws } := by
  obtain ⟨hhz, _, hbroadcasts⟩ := WsServer.step_frame hstep
  obtain ⟨next, hnext, hsound⟩ := h.ws.step c
  obtain rfl := Option.some.inj (hnext.symm.trans hstep)
  refine ⟨hsound, hhz.trans h.broadcastHz, ?_, h.store, h.ticks⟩
  rw [hbroadcasts, hadds, List.append_nil]
  exact h.broadcasts

theorem message_eq (p : Process src) (mono now : Int) :
    p.ws.stateMessage (p.input.store.snapshot mono).1 now =
      Tick.text p.ws.broadcastSeq ⟨p.input.store, mono, now, p.ws.sessions.length⟩ := by
  rw [Server.stateMessage, Tick.text, Tick.snapshot, broadcastSnapshot]

theorem Sound.tick (hP : ∀ (w : World src) a, P w.store → P (w.step sections a).store)
    (h : Sound P broadcastHz p) (mono now : Int) :
    ∃ p', p.tick sections mono now = some p' ∧ Sound P broadcastHz p' := by
  have hexpired := h.ws.step (.expired (p.input.store.snapshot mono).1 now)
  obtain ⟨ws, hstep, hws⟩ := hexpired
  refine ⟨_, congrArg (Option.map _) hstep, ?_⟩
  obtain ⟨hhz, _, hbroadcasts⟩ := WsServer.step_frame hstep
  dsimp only
  by_cases hidle : p.ws.waiting = 0 ∨ p.ws.stopped
  · rw [if_pos hidle]
    exact h.io hstep (if_pos hidle)
  · rw [if_neg hidle]
    have hadds : p.ws.adds (.expired (p.input.store.snapshot mono).1 now) =
        [Tick.text p.ticks.length ⟨p.input.store, mono, now, p.ws.sessions.length⟩] := by
      rw [Server.adds, if_neg hidle, message_eq, h.length_eq]
    refine ⟨hws, hhz.trans h.broadcastHz, ?_, hP _ _ h.store, fun t ht => ?_⟩
    · rw [hbroadcasts, hadds, h.broadcasts, List.mapIdx_concat]
    · rcases List.mem_append.mp ht with ht | ht
      · exact h.ticks t ht
      · rw [List.mem_singleton.mp ht]
        exact h.store

/-- **One action.** -/
theorem Sound.step (hP : ∀ (w : World src) a, P w.store → P (w.step sections a).store)
    (h : Sound P broadcastHz p) (a : Action) :
    ∃ p', p.step sections a = some p' ∧ Sound P broadcastHz p' := by
  have hio (c : Server.Completion) (hadds : p.ws.adds c = []) :
      ∃ p', ((p.ws.step c).map fun ws => { p with ws }) = some p' ∧ Sound P broadcastHz p' := by
    obtain ⟨ws, hstep, _⟩ := h.ws.step c
    exact ⟨_, congrArg (Option.map _) hstep, h.io hstep hadds⟩
  cases a with
  | receive d => exact ⟨_, rfl, h.ws, h.broadcastHz, h.broadcasts, hP _ _ h.store, h.ticks⟩
  | settle => exact ⟨_, rfl, h.ws, h.broadcastHz, h.broadcasts, hP _ _ h.store, h.ticks⟩
  | tick mono now => exact h.tick hP mono now
  | io c =>
    cases c with
    | expired snap now => exact ⟨p, rfl, h⟩
    | accepted socket => exact hio (.accepted socket) rfl
    | acceptAborted => exact hio (.acceptAborted) rfl
    | handshake id ok now place => exact hio (.handshake id ok now place) rfl
    | wrote id ok => exact hio (.wrote id ok) rfl
    | read id ok => exact hio (.read id ok) rfl
    | timerCancelled => exact hio (.timerCancelled) rfl
    | stop => exact hio (.stop) rfl

/-- **A run.** -/
theorem Sound.run (hP : ∀ (w : World src) a, P w.store → P (w.step sections a).store)
    (h : Sound P broadcastHz p) (actions : List Action) :
    ∃ p', actions.foldlM (Process.step sections) p = some p' ∧ Sound P broadcastHz p' := by
  induction actions generalizing p with
  | nil => exact ⟨p, rfl, h⟩
  | cons a actions ih =>
    obtain ⟨next, hstep, hnext⟩ := h.step hP a
    obtain ⟨p', hrun, hp'⟩ := ih hnext
    refine ⟨p', ?_, hp'⟩
    rw [List.foldlM_cons, hstep]
    exact hrun

theorem start_sound (expiry : Int) (broadcastHz : F64) (hempty : P { objectExpiry := expiry }) :
    Sound P broadcastHz (start src expiry broadcastHz) :=
  ⟨WsServer.start_sound broadcastHz, rfl, rfl, hempty, fun _ ht => absurd ht List.not_mem_nil⟩

/-! ## What clients read -/

end Process

/-- The state that a frame is read as. -/
def stateOf (frame : Text) : Option NetParse.State :=
  match parseStateMessage frame with
  | .ok (.state s) => some s
  | _ => none

theorem Tick.read {t : Tick} (h : Showable t.store) (k : Nat) :
    parseStateMessage (t.text k) = .ok (.state (t.state k)) :=
  message_read (h.prints t.mono (k + 1)) t.now _

theorem Tick.stateOf {t : Tick} (h : Showable t.store) (k : Nat) :
    stateOf (t.text k) = some (t.state k) := by
  rw [Backend.stateOf, Tick.read h k]

namespace Process
variable {src : InputSource} {P : StateStore → Prop} {broadcastHz : F64} {p : Process src}

/-- Every broadcast is read as the state of its tick. -/
theorem Sound.read (h : Sound P broadcastHz p) (hshow : ∀ s, P s → Showable s) :
    p.ws.broadcasts.map stateOf = (p.ticks.mapIdx Tick.state).map some := by
  have hticks (ticks : List Tick) (hticks : ∀ t ∈ ticks, P t.store) :
      (ticks.mapIdx Tick.text).map stateOf = (ticks.mapIdx Tick.state).map some := by
    induction ticks using List.reverseRecOn with
    | nil => rfl
    | append_singleton ticks t ih =>
      have hlast := Tick.stateOf (hshow _ (hticks t (by simp))) ticks.length
      rw [List.mapIdx_concat, List.mapIdx_concat, List.map_append, List.map_append,
        ih fun t ht => hticks t (List.mem_append_left _ ht), List.map_singleton, hlast]
      rfl
  rw [h.broadcasts]
  exact hticks p.ticks h.ticks

end Process

/-! ## What an action makes of a connection -/

namespace Process
variable {src : InputSource} {sections : CriticalSections src} {P : StateStore → Prop}
  {broadcastHz : F64} {p p' : Process src}

/-- What an action makes of a connection: a live one keeps what is on the wire, and
one becomes live with all the broadcasts so far behind it. -/
structure Moves (p p' : Process src) (id : Nat) : Prop where
  lives : ∀ hello joined w, p.ws.connections id = .live hello joined w →
    ∃ w', p'.ws.connections id = .live hello joined w' ∧ w.wire <+: w'.wire
  joins : (∀ hello joined w, p.ws.connections id ≠ .live hello joined w) →
    ∀ hello joined w, p'.ws.connections id = .live hello joined w → joined = p.ticks.length

theorem Moves.of_eq {id : Nat} (h : p'.ws.connections id = p.ws.connections id) : Moves p p' id where
  lives _ _ w hid := ⟨w, h.trans hid, List.prefix_refl _⟩
  joins hnot hello joined w hid := absurd (h.symm.trans hid) (hnot hello joined w)

theorem Sound.moves (h : Sound P broadcastHz p) {c : WsServer.Server.Completion}
    (hstep : p.ws.step c = some p'.ws) (id : Nat) : Moves p p' id := by
  cases h.ws.becomes hstep id with
  | lives hbefore hafter hsteps =>
    refine ⟨fun hello joined w hid => ?_, fun hnot => absurd hbefore (hnot _ _ _)⟩
    cases hid.symm.trans hbefore
    exact ⟨_, hafter, WsServer.World.wire_run (h.ws.serves hbefore).sound hsteps⟩
  | joins _ hbefore _ hafter =>
    refine ⟨fun hello joined w hid => absurd (hid.symm.trans hbefore) (by simp),
      fun _ hello joined w hid => ?_⟩
    cases hid.symm.trans hafter
    rw [h.broadcasts, List.length_mapIdx]
  | apart hbefore hafter =>
    exact ⟨fun hello joined w hid => absurd hid (hbefore hello joined w),
      fun _ hello joined w hid => absurd hid (hafter hello joined w)⟩

/-- One action of the backend, as its clients see it. -/
theorem Sound.step_moves (h : Sound P broadcastHz p) {a : Action}
    (hstep : p.step sections a = some p') :
    p.ticks <+: p'.ticks ∧ ∀ id, Moves p p' id := by
  have hio (c : WsServer.Server.Completion)
      (hstep : (p.ws.step c).map (fun ws => { p with ws }) = some p') :
      p.ticks <+: p'.ticks ∧ ∀ id, Moves p p' id := by
    obtain ⟨ws, hws, rfl⟩ := Option.map_eq_some_iff.mp hstep
    exact ⟨List.prefix_refl _, h.moves hws⟩
  cases a with
  | receive d =>
    obtain rfl := Option.some.inj hstep
    exact ⟨List.prefix_refl _, fun id => .of_eq rfl⟩
  | settle =>
    obtain rfl := Option.some.inj hstep
    exact ⟨List.prefix_refl _, fun id => .of_eq rfl⟩
  | tick mono now =>
    obtain ⟨ws, hws, rfl⟩ := Option.map_eq_some_iff.mp hstep
    refine ⟨?_, fun id => h.moves (by split <;> exact hws) id⟩
    split
    · exact List.prefix_refl _
    · exact List.prefix_append ..
  | io c =>
    cases c with
    | expired snap now =>
      obtain rfl := Option.some.inj hstep
      exact ⟨List.prefix_refl _, fun id => .of_eq rfl⟩
    | accepted socket => exact hio (.accepted socket) hstep
    | acceptAborted => exact hio (.acceptAborted) hstep
    | handshake id ok now place => exact hio (.handshake id ok now place) hstep
    | wrote id ok => exact hio (.wrote id ok) hstep
    | read id ok => exact hio (.read id ok) hstep
    | timerCancelled => exact hio (.timerCancelled) hstep
    | stop => exact hio (.stop) hstep

end Process

/-! ## OLV1 -/

/-- Each critical section of the input thread keeps what an OLV1 store keeps. -/
theorem olv1_sections (w : World olv1InputSource) (a : Olv.Action) (h : Olv1Store w.store) :
    Olv1Store (w.step olv1Sections a).store := by
  rcases World.step_cases olv1Sections a w with heq | ⟨d, _, _, heq⟩ | ⟨d, _, _, heq⟩ | ⟨mono, _, heq⟩
  · rw [heq]
    exact h
  · rw [heq]
    exact ⟨StateStore.sound_countReceived h.sound _, h.velocity, h.trail⟩
  · rw [heq]
    by_cases hv : Proto.verdict d.bytes = .kNone
    · obtain ⟨hheader, hrecords⟩ := ((Proto.verdict_iff d.bytes).mp hv).sound
      obtain ⟨hsat, htrail⟩ := apply_store (Proto.packetAt d.bytes) d.wall d.mono w.store
      have hsettle : Olv.settle (olv1Sections.outcome d w.memory) w.store =
          (w.store.apply (Proto.packetAt d.bytes) d.wall d.mono).2 := by
        simp only [olv1Sections, if_pos hv]
        rfl
      dsimp only
      rw [hsettle]
      have hbody : SoundSatellite (StateStore.satelliteOf (Proto.packetAt d.bytes)) :=
        ⟨hheader.px, hheader.py, hheader.pz⟩
      refine ⟨StateStore.sound_apply h.sound hbody hrecords _ _, fun sat hmem => ?_,
        htrail.trans h.trail⟩
      rcases hsat sat hmem with hold | rfl
      · exact h.velocity sat hold
      · exact ⟨hheader.vx, hheader.vy, hheader.vz⟩
    · have hsettle : Olv.settle (olv1Sections.outcome d w.memory) w.store =
          w.store.countDropped .kMalformed := by
        simp only [olv1Sections, if_neg hv]
        rfl
      dsimp only
      rw [hsettle]
      exact ⟨StateStore.sound_countDropped h.sound _, h.velocity, h.trail⟩
  · rw [heq]
    exact ⟨StateStore.sound_snapshot h.sound mono, h.velocity, rfl⟩

end Olv.Backend
