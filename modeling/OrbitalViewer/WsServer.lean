import OrbitalViewer.JsonWriter
import OrbitalViewer.Lib.Family
import OrbitalViewer.WsSession

/-!
# The WebSocket server

`WsServer` of `ws_server.cpp`: the accept loop, the broadcast timer and the set of
sessions. All of it runs on the io_context thread, so the completion of an
operation is one step. Sessions are told apart by the order in which their
sockets were accepted. `broadcasts` is history: nothing reads it.
-/

namespace Olv.WsServer
open Ieee (F64)

abbrev Text := List Char

/-- What became of a socket. A session knows the broadcasts before it, in `joined`. -/
inductive Connection where
  | absent
  | handshaking
  | dropped
  | live (hello : Text) (joined : Nat) (w : World Text)

structure Server where
  broadcastHz : F64
  broadcastSeq : Nat := 0
  stopped : Bool := false
  sessions : List Nat := []
  created : Nat := 0
  connections : Nat → Connection := fun _ => .absent
  accepting : Nat := 0
  waiting : Nat := 0
  broadcasts : List Text := []

/-- A callback of the session; there is none before the handshake. -/
def Connection.step (e : Event Text) : Connection → Option Connection
  | .live hello joined w => (w.step e).map (.live hello joined)
  | c => some c

def Connection.effects : Connection → List (Effect Text)
  | .live _ _ w => w.effects
  | _ => []

/-- `sessions_` is ordered by address, so an insertion may go anywhere. -/
def register (id place : Nat) (sessions : List Nat) : Effect Text → List Nat
  | .insertSession => sessions.take place ++ id :: sessions.drop place
  | .eraseSession => sessions.erase id
  | _ => sessions

namespace Server

/-- A connection after one of its callbacks; what that asked of the set is done. -/
def settle (id place : Nat) (c : Connection) (s : Server) : Server :=
  { s with
    connections := Function.update s.connections id c
    sessions := (c.effects.drop (s.connections id).effects.length).foldl (register id place)
      s.sessions }

def callback (id : Nat) (e : Event Text) (s : Server) : Option Server :=
  ((s.connections id).step e).map fun c => s.settle id 0 c

/-! ## Accepting -/

def doAccept (s : Server) : Server := { s with accepting := s.accepting + 1 }

/-- The completion of an accept, with a socket or with an error. -/
def onSocket (socket : Bool) (s : Server) : Server :=
  let s := { s with accepting := s.accepting - 1 }
  let s := if socket then
      { s with
        created := s.created + 1
        connections := Function.update s.connections s.created .handshaking }
    else s
  if s.stopped then s else s.doAccept

/-- The completion of a handshake. -/
def onAccept (id : Nat) (ok : Bool) (now : Int) (place : Nat) (s : Server) : Option Server :=
  if ok then
    let hello := buildHelloMessage now s.broadcastHz
    (World.accepted hello).map fun w => s.settle id place (.live hello s.broadcasts.length w)
  else some { s with connections := Function.update s.connections id .dropped }

/-! ## Broadcasting -/

def armTimer (s : Server) : Server := if s.stopped then s else { s with waiting := s.waiting + 1 }

def stateMessage (snap : Snapshot) (now : Int) (s : Server) : Text :=
  buildStateMessage { snap with stats := { snap.stats with broadcastSeq := s.broadcastSeq + 1 } } now
    (BitVec.ofNat 32 s.sessions.length)

def broadcastTick (snap : Snapshot) (now : Int) (s : Server) : Option Server :=
  if s.stopped then some s
  else do
    let msg := s.stateMessage snap now
    let s ← s.sessions.foldlM (fun s id => s.callback id (.send msg))
      { s with broadcastSeq := s.broadcastSeq + 1, broadcasts := s.broadcasts ++ [msg] }
    some s.armTimer

/-! ## Runs -/

def start (broadcastHz : F64) : Server := armTimer (doAccept { broadcastHz })

/-- The operations outstanding complete with an error later on. -/
def stop (s : Server) : Option Server :=
  if s.stopped then some s
  else do
    let s ← s.sessions.foldlM (fun s id => s.callback id .close) { s with stopped := true }
    some { s with sessions := [] }

inductive Completion where
  | accepted (socket : Bool)
  | acceptAborted
  | handshake (id : Nat) (ok : Bool) (now : Int) (place : Nat)
  | wrote (id : Nat) (ok : Bool)
  | read (id : Nat) (ok : Bool)
  | expired (snap : Snapshot) (now : Int)
  | timerCancelled
  | stop

/-- What is not outstanding does not complete, and only `stop` cancels. -/
def step (s : Server) : Completion → Option Server
  | .accepted socket => some (if s.accepting = 0 then s else s.onSocket socket)
  | .acceptAborted =>
    some (if s.accepting = 0 ∨ ¬s.stopped then s else { s with accepting := s.accepting - 1 })
  | .handshake id ok now place => match s.connections id with
    | .handshaking => s.onAccept id ok now place
    | _ => some s
  | .wrote id ok => s.callback id (.wrote ok)
  | .read id ok => s.callback id (.read ok)
  | .expired snap now =>
    if s.waiting = 0 then some s
    else { s with waiting := s.waiting - 1 }.broadcastTick snap now
  | .timerCancelled =>
    some (if s.waiting = 0 ∨ ¬s.stopped then s else { s with waiting := s.waiting - 1 })
  | .stop => s.stop

def run (broadcastHz : F64) (completions : List Completion) : Option Server :=
  completions.foldlM step (start broadcastHz)

end Server

/-! ## What a session asks for -/

/-- Nothing is asked of the set. -/
def Effect.quiet : Effect Text → Bool
  | .insertSession | .eraseSession => false
  | _ => true

namespace Session
variable {s : Session Text} {r : Session Text × List (Effect Text)}

theorem enforce_cases (h : s.enforceQueueLimit = some r) :
    (s.outbox.length ≤ kMaxQueuedFrames ∧ r = (s, [])) ∨
      (kMaxQueuedFrames < s.outbox.length ∧ r.1.closed = s.closed ∧ r.1.overflowWarned = true ∧
        r.2 = if s.overflowWarned then [] else [.warnOverflow]) := by
  by_cases hlen : s.outbox.length ≤ kMaxQueuedFrames
  · rw [World.enforce_within hlen] at h
    exact .inl ⟨hlen, (Option.some.inj h).symm⟩
  · have hover : s.outbox.length > kMaxQueuedFrames := not_le.mp hlen
    obtain ⟨outbox, _, rfl⟩ := Option.map_eq_some_iff.mp h
    refine .inr ⟨hover, rfl, by simp [hover], ?_⟩
    cases s.overflowWarned <;> simp [hover]

theorem enforce_quiet (h : s.enforceQueueLimit = some r) :
    r.1.closed = s.closed ∧ ∀ e ∈ r.2, e.quiet = true := by
  rcases enforce_cases h with ⟨_, rfl⟩ | ⟨_, hclosed, _, heffects⟩
  · exact ⟨rfl, by simp⟩
  · refine ⟨hclosed, fun e he => ?_⟩
    rw [heffects] at he
    split at he
    · exact absurd he List.not_mem_nil
    · rw [List.mem_singleton.mp he]
      rfl

theorem doWrite_quiet (h : s.doWrite = some r) :
    r.1.closed = s.closed ∧ ∀ e ∈ r.2, e.quiet = true := by
  obtain ⟨frame, _, rfl⟩ := Option.map_eq_some_iff.mp h
  refine ⟨rfl, fun e he => ?_⟩
  rw [List.mem_singleton.mp he]
  rfl

theorem send_quiet {frame : Text} (h : s.send frame = some r) :
    r.1.closed = s.closed ∧ ∀ e ∈ r.2, e.quiet = true := by
  unfold send at h
  split at h
  · obtain rfl := Option.some.inj h
    exact ⟨rfl, by simp⟩
  · obtain ⟨limited, hlimited, h⟩ := Option.bind_eq_some_iff.mp h
    obtain ⟨hclosed, hquiet⟩ := enforce_quiet hlimited
    dsimp only at h
    split at h
    · obtain rfl := Option.some.inj h
      exact ⟨hclosed, hquiet⟩
    · obtain ⟨started, hstarted, h⟩ := Option.bind_eq_some_iff.mp h
      obtain ⟨hclosed', hquiet'⟩ := doWrite_quiet hstarted
      obtain rfl := Option.some.inj h
      refine ⟨hclosed'.trans hclosed, fun e he => ?_⟩
      exact (List.mem_append.mp he).elim (hquiet e) (hquiet' e)

theorem fail_asks (s : Session Text) :
    (s.fail.1.closed = s.closed ∧ ∀ e ∈ s.fail.2, e.quiet = true) ∨
      s.fail.2 = [.closeSocket, .eraseSession] ∧ s.closed = false ∧ s.fail.1.closed = true := by
  cases h : s.closed with
  | true => exact .inl (by simp [fail, h])
  | false => exact .inr (by simp [fail, h])

theorem onWrite_asks {ok : Bool} (h : s.onWrite ok = some r) :
    (r.1.closed = s.closed ∧ ∀ e ∈ r.2, e.quiet = true) ∨
      r.2 = [.closeSocket, .eraseSession] ∧ s.closed = false ∧ r.1.closed = true := by
  cases ok with
  | false =>
    obtain rfl := Option.some.inj h
    exact fail_asks { s with writing := false }
  | true =>
    cases hout : s.outbox with
    | nil => simp [onWrite, hout] at h
    | cons front rest =>
      simp only [onWrite, hout, Bool.not_true, Bool.false_eq_true, if_false] at h
      split at h
      · obtain rfl := Option.some.inj h
        exact .inl ⟨rfl, by simp⟩
      · obtain ⟨hclosed, hquiet⟩ := doWrite_quiet h
        exact .inl ⟨hclosed, hquiet⟩

end Session

namespace World
variable {w w' : World Text} {e : Event Text}

/-- What a callback asks for: nothing of the set, unless the session fails. Only
the server closes it without being asked to take it out. -/
theorem step_asks (hstep : w.step e = some w') :
    ∃ asked, w'.effects = w.effects ++ asked ∧
      ((∀ f ∈ asked, f.quiet = true) ∧
        (w'.session.closed = w.session.closed ∨ e = .close ∧ w'.session.closed = true) ∨
      asked = [.closeSocket, .eraseSession] ∧ w.session.closed = false ∧
        w'.session.closed = true) := by
  cases e with
  | send frame =>
    obtain ⟨r, hr, rfl⟩ := Option.map_eq_some_iff.mp hstep
    obtain ⟨hclosed, hquiet⟩ := Session.send_quiet hr
    exact ⟨r.2, rfl, .inl ⟨hquiet, .inl hclosed⟩⟩
  | wrote ok =>
    rw [step, wrote] at hstep
    cases hin : w.inFlight with
    | nil =>
      rw [hin] at hstep
      obtain rfl := Option.some.inj hstep
      exact ⟨[], (List.append_nil _).symm, .inl ⟨by simp, .inl rfl⟩⟩
    | cons frame rest =>
      rw [hin] at hstep
      obtain ⟨r, hr, rfl⟩ := Option.map_eq_some_iff.mp hstep
      refine ⟨r.2, rfl, (Session.onWrite_asks hr).imp (fun h => ⟨h.2, .inl h.1⟩) id⟩
  | read ok =>
    obtain rfl := Option.some.inj hstep
    cases ok with
    | true => exact ⟨[.asyncRead], rfl, .inl ⟨by simp [Effect.quiet], .inl rfl⟩⟩
    | false =>
      refine ⟨w.session.fail.2, rfl, (Session.fail_asks w.session).imp (fun h => ⟨h.2, .inl h.1⟩) id⟩
  | close =>
    obtain rfl := Option.some.inj hstep
    cases hc : w.session.closed with
    | true => exact ⟨[], by simp [perform, Session.close, hc], .inl (by simp [perform, Session.close, hc])⟩
    | false =>
      exact ⟨[.closeSocket], by simp [perform, Session.close, hc],
        .inl (by simp [perform, Session.close, hc, Effect.quiet])⟩

/-- Only `send` enqueues, and not in a closed session. -/
theorem step_enqueued (hstep : w.step e = some w') :
    w'.enqueued = w.enqueued ∨ w.session.closed = false ∧
      ∃ frame, e = .send frame ∧ w'.enqueued = w.enqueued ++ [frame] := by
  cases e with
  | send frame =>
    obtain ⟨r, _, rfl⟩ := Option.map_eq_some_iff.mp hstep
    cases hc : w.session.closed with
    | true => exact .inl (by simp)
    | false => exact .inr ⟨rfl, frame, rfl, by simp⟩
  | wrote ok =>
    rw [step, wrote] at hstep
    cases hin : w.inFlight with
    | nil =>
      rw [hin] at hstep
      exact .inl (congrArg World.enqueued (Option.some.inj hstep).symm)
    | cons frame rest =>
      rw [hin] at hstep
      obtain ⟨r, _, rfl⟩ := Option.map_eq_some_iff.mp hstep
      exact .inl rfl
  | read ok =>
    obtain rfl := Option.some.inj hstep
    exact .inl rfl
  | close =>
    obtain rfl := Option.some.inj hstep
    exact .inl rfl

/-- Until an overflow is logged, a frame that was enqueued is written or queued. -/
structure Kept (w : World Text) : Prop where
  warned : w.session.overflowWarned = true → .warnOverflow ∈ w.effects
  kept : .warnOverflow ∉ w.effects → w.written ++ w.session.outbox = w.enqueued

theorem Kept.quiet (h : Kept w) {r : Session Text × List (Effect Text)}
    (houtbox : r.1.outbox = w.session.outbox) (hwarned : r.1.overflowWarned = w.session.overflowWarned) :
    Kept (w.perform r) where
  warned hw := List.mem_append_left _ (h.warned (hwarned.symm.trans hw))
  kept hno := by
    have hkept := h.kept fun hmem => hno (List.mem_append_left _ hmem)
    exact (congrArg (w.written ++ ·) houtbox).trans hkept

theorem Kept.send (h : Kept w) (hclosed : w.session.closed = false) {frame : Text}
    (hstep : w.send frame = some w') : Kept w' := by
  obtain ⟨r, hr, rfl⟩ := Option.map_eq_some_iff.mp hstep
  rw [Session.send, if_neg (by simp [hclosed])] at hr
  obtain ⟨limited, hlimited, hr⟩ := Option.bind_eq_some_iff.mp hr
  dsimp only at hr
  -- a write that is started changes neither the outbox nor the mark
  have hstarted : r.1.outbox = limited.1.outbox ∧
      r.1.overflowWarned = limited.1.overflowWarned ∧ ∃ asked, r.2 = limited.2 ++ asked := by
    split at hr
    · obtain rfl := Option.some.inj hr
      exact ⟨rfl, rfl, [], (List.append_nil _).symm⟩
    · obtain ⟨started, hstarted, hr⟩ := Option.bind_eq_some_iff.mp hr
      obtain ⟨_, _, rfl⟩ := Option.map_eq_some_iff.mp hstarted
      obtain rfl := Option.some.inj hr
      exact ⟨rfl, rfl, _, rfl⟩
  obtain ⟨houtbox, hmark, asked, heffects⟩ := hstarted
  rcases Session.enforce_cases hlimited with ⟨_, rfl⟩ | ⟨_, _, hwarned, hlogged⟩
  · constructor
    · exact fun hw => List.mem_append_left _ (h.warned (hmark.symm.trans hw))
    · intro hno
      have hkept := h.kept fun hmem => hno (List.mem_append_left _ hmem)
      show w.written ++ r.1.outbox = if w.session.closed then _ else w.enqueued ++ [frame]
      rw [houtbox, hclosed, ← hkept]
      simp
  · have hin : .warnOverflow ∈ w.effects ++ r.2 := by
      cases hold : w.session.overflowWarned with
      | true => exact List.mem_append_left _ (h.warned hold)
      | false =>
        have hlimited : limited.2 = [.warnOverflow] := by simp [hlogged, hold]
        simp [heffects, hlimited]
    exact ⟨fun _ => hin, fun hno => absurd hin hno⟩

theorem Kept.wrote {hello : Text} (hsound : Sound hello w) (h : Kept w) {ok : Bool}
    (hstep : w.wrote ok = some w') : Kept w' := by
  cases hw : w.session.writing with
  | false =>
    rw [World.wrote, hsound.idle hw] at hstep
    exact Option.some.inj hstep ▸ h
  | true =>
    obtain ⟨frame, rest, hout, hin⟩ := hsound.writing hw
    rw [World.wrote, hin] at hstep
    obtain ⟨r, hr, rfl⟩ := Option.map_eq_some_iff.mp hstep
    cases ok with
    | false =>
      obtain rfl := Option.some.inj hr
      have hsame (s : Session Text) : s.fail.1.outbox = s.outbox ∧
          s.fail.1.overflowWarned = s.overflowWarned := by
        unfold Session.fail
        split <;> exact ⟨rfl, rfl⟩
      have hbefore : Kept { w with inFlight := [] } := ⟨h.warned, h.kept⟩
      exact hbefore.quiet (hsame _).1 (hsame _).2
    | true =>
      have hbefore (s : Session Text) (houtbox : s.outbox = rest)
          (hmark : s.overflowWarned = true → w.session.overflowWarned = true)
          (asked : List (Effect Text)) : Kept (World.perform (s, asked)
            { w with inFlight := [], written := w.written ++ [frame] }) := by
        constructor
        · exact fun hs => List.mem_append_left _ (h.warned (hmark hs))
        · intro hno
          have hkept := h.kept fun hmem => hno (List.mem_append_left _ hmem)
          show w.written ++ [frame] ++ s.outbox = w.enqueued
          rw [houtbox, ← hkept, hout, List.append_assoc, List.singleton_append]
      simp only [Session.onWrite, hout, Bool.not_true, Bool.false_eq_true, if_false] at hr
      split at hr
      · obtain rfl := Option.some.inj hr
        exact hbefore _ rfl (fun hs => absurd hs (by simp)) _
      · obtain ⟨_, _, rfl⟩ := Option.map_eq_some_iff.mp hr
        exact hbefore { w.session with outbox := rest, writing := true } rfl (fun hs => hs) _

/-- **No frame is lost in silence.** -/
theorem Kept.step {hello : Text} (hsound : Sound hello w) (h : Kept w)
    (hstep : w.step e = some w') : Kept w' := by
  cases e with
  | send frame =>
    cases hc : w.session.closed with
    | true => exact Option.some.inj ((send_closed hc frame).symm.trans hstep) ▸ h
    | false => exact h.send hc hstep
  | wrote ok => exact h.wrote hsound hstep
  | read ok =>
    obtain rfl := Option.some.inj hstep
    cases ok with
    | true => exact h.quiet rfl rfl
    | false =>
      rcases fail_cases w.session with ⟨_, hfail⟩ | hfail
      · exact h.quiet (by rw [Session.onRead, if_neg (by simp), hfail])
          (by rw [Session.onRead, if_neg (by simp), hfail])
      · exact h.quiet (by rw [Session.onRead, if_neg (by simp), hfail])
          (by rw [Session.onRead, if_neg (by simp), hfail])
  | close =>
    obtain rfl := Option.some.inj hstep
    refine h.quiet ?_ ?_
    · unfold Session.close
      split <;> rfl
    · unfold Session.close
      split <;> rfl

end World
end Olv.WsServer
