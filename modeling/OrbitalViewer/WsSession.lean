import Mathlib

/-!
# One WebSocket session

`WsServer::Session` of `ws_server.cpp`. Every callback runs on the io_context
thread, so it is one step; it takes the session and returns it with what it asks
of the socket, the server and the log. A step is `none` where the source would
touch a frame that is not in the outbox. `World` adds what the session does not
know: the writes outstanding and the frames that went in and out.
-/

namespace Olv.WsServer

def kMaxQueuedFrames : Nat := 5

structure Session (Frame : Type) where
  outbox : List Frame := []
  writing : Bool := false
  closed : Bool := false
  overflowWarned : Bool := false

inductive Effect (Frame : Type) where
  | asyncWrite (frame : Frame)
  | asyncRead
  | closeSocket
  | insertSession
  | eraseSession
  | warnOverflow
  deriving DecidableEq

variable {Frame : Type}

namespace Session

/-- Starts a write of the front frame. -/
def doWrite (s : Session Frame) : Option (Session Frame × List (Effect Frame)) :=
  s.outbox.head?.map fun frame => ({ s with writing := true }, [.asyncWrite frame])

/-- The loop of `enforceQueueLimit`: it erases at `protect` until the limit holds. -/
def shed (protect : Nat) (outbox : List Frame) : Option (List Frame) :=
  if outbox.length > kMaxQueuedFrames then
    if protect < outbox.length then shed protect (outbox.eraseIdx protect) else none
  else some outbox
termination_by outbox.length
decreasing_by rw [List.length_eraseIdx_of_lt (by assumption)]; omega

/-- The frame in flight is not erased. -/
def enforceQueueLimit (s : Session Frame) : Option (Session Frame × List (Effect Frame)) :=
  (shed (if s.writing then 1 else 0) s.outbox).map fun outbox =>
    let dropped := decide (s.outbox.length > kMaxQueuedFrames)
    ({ s with outbox, overflowWarned := s.overflowWarned || dropped },
      if dropped && !s.overflowWarned then [.warnOverflow] else [])

def send (frame : Frame) (s : Session Frame) : Option (Session Frame × List (Effect Frame)) :=
  if s.closed then some (s, [])
  else do
    let (s, warned) ← enforceQueueLimit { s with outbox := s.outbox ++ [frame] }
    if s.writing then some (s, warned)
    else do
      let (s, started) ← s.doWrite
      some (s, warned ++ started)

/-- The server closes the session. -/
def close (s : Session Frame) : Session Frame × List (Effect Frame) :=
  if s.closed then (s, []) else ({ s with closed := true }, [.closeSocket])

def fail (s : Session Frame) : Session Frame × List (Effect Frame) :=
  if s.closed then (s, []) else ({ s with closed := true }, [.closeSocket, .eraseSession])

def onRead (ok : Bool) (s : Session Frame) : Session Frame × List (Effect Frame) :=
  if ok then (s, [.asyncRead]) else s.fail

def onWrite (ok : Bool) (s : Session Frame) : Option (Session Frame × List (Effect Frame)) :=
  let s := { s with writing := false }
  if !ok then some s.fail
  else match s.outbox with
    | [] => none
    | _ :: outbox =>
      let s := { s with outbox }
      if outbox.isEmpty then some ({ s with overflowWarned := false }, []) else s.doWrite

/-- After the handshake; `hello` is the first frame of every session. -/
def onAccept (ok : Bool) (hello : Frame) (s : Session Frame) : Option (Session Frame × List (Effect Frame)) :=
  if !ok then some (s, [])
  else do
    let (s, sent) ← s.send hello
    some (s, .insertSession :: (sent ++ [.asyncRead]))

end Session

/-! ## Runs -/

/-- A session, the buffers of its outstanding writes, the frames it took and the
frames that were written, and what it has asked for. -/
structure World (Frame : Type) where
  session : Session Frame := {}
  inFlight : List Frame := []
  enqueued : List Frame := []
  written : List Frame := []
  effects : List (Effect Frame) := []

inductive Event (Frame : Type) where
  | send (frame : Frame)
  | wrote (ok : Bool)
  | read (ok : Bool)
  | close

def Effect.started : Effect Frame → Option Frame
  | asyncWrite frame => some frame
  | _ => none

namespace World

/-- The session after a callback, and what that asked for. -/
def perform (r : Session Frame × List (Effect Frame)) (w : World Frame) : World Frame :=
  { w with
    session := r.1
    inFlight := w.inFlight ++ r.2.filterMap Effect.started
    effects := w.effects ++ r.2 }

/-- `send`, which takes the frame unless the session is closed. -/
def send (frame : Frame) (w : World Frame) : Option (World Frame) :=
  (w.session.send frame).map fun r =>
    { w.perform r with
      enqueued := if w.session.closed then w.enqueued else w.enqueued ++ [frame] }

/-- A write completes when there is one outstanding. -/
def wrote (ok : Bool) (w : World Frame) : Option (World Frame) :=
  match w.inFlight with
  | [] => some w
  | frame :: inFlight =>
    (w.session.onWrite ok).map
      { w with inFlight, written := if ok then w.written ++ [frame] else w.written }.perform

def step (w : World Frame) : Event Frame → Option (World Frame)
  | .send frame => w.send frame
  | .wrote ok => w.wrote ok
  | .read ok => some (w.perform (w.session.onRead ok))
  | .close => some (w.perform w.session.close)

/-- A session from its handshake on. -/
def accepted (hello : Frame) : Option (World Frame) :=
  (Session.onAccept true hello {}).map fun r => { ({} : World Frame).perform r with enqueued := [hello] }

/-- The session after `events`, or `none` if one of them went wrong. -/
def run (hello : Frame) (events : List (Event Frame)) : Option (World Frame) :=
  (accepted hello).bind fun w => events.foldlM step w

/-! ## The outbox -/

/-- What holds of a session at all times: the one write outstanding is of the
front frame. -/
structure Sound (hello : Frame) (w : World Frame) : Prop where
  writing : w.session.writing = true → ∃ frame rest, w.session.outbox = frame :: rest ∧
    w.inFlight = [frame]
  idle : w.session.writing = false → w.inFlight = []
  open_idle : w.session.closed = false → w.session.writing = false → w.session.outbox = []
  length_le : w.session.outbox.length ≤ kMaxQueuedFrames
  sublist : (w.written ++ w.session.outbox).Sublist w.enqueued
  first : w.written.head? = some hello ∨
    w.written = [] ∧ (w.inFlight = [hello] ∨ w.inFlight = [] ∧ w.session.closed = true)

variable {hello : Frame} {w w' : World Frame}

theorem Sound.inFlight_eq (h : Sound hello w) : w.inFlight = if w.session.writing then
    w.session.outbox.take 1 else [] := by
  cases hw : w.session.writing with
  | false => exact h.idle hw
  | true =>
    obtain ⟨frame, rest, hout, hin⟩ := h.writing hw
    simp [hout, hin]

/-- What `send` does to an open session: it starts writing, or queues the frame,
or queues it in place of the oldest frame that is not being written. -/
inductive Takes (frame : Frame) (w w' : World Frame) : Prop where
  | starts (empty : w.session.outbox = []) (outbox : w'.session.outbox = [frame])
      (inFlight : w'.inFlight = [frame])
  | queues {front : Frame} {rest : List Frame} (nonempty : w.session.outbox = front :: rest)
      (room : w.session.outbox.length < kMaxQueuedFrames)
      (outbox : w'.session.outbox = front :: rest ++ [frame])
      (before : w.inFlight = [front]) (inFlight : w'.inFlight = [front])
  | sheds {front oldest : Frame} {rest : List Frame}
      (full : w.session.outbox = front :: oldest :: rest)
      (limit : w.session.outbox.length = kMaxQueuedFrames)
      (outbox : w'.session.outbox = front :: rest ++ [frame])
      (before : w.inFlight = [front]) (inFlight : w'.inFlight = [front])

theorem shed_of_le {protect : Nat} {outbox : List Frame} (h : outbox.length ≤ kMaxQueuedFrames) :
    Session.shed protect outbox = some outbox := by
  rw [Session.shed, if_neg (by omega)]

/-- Within the limit nothing is shed. -/
theorem enforce_within {s : Session Frame} (h : s.outbox.length ≤ kMaxQueuedFrames) :
    s.enforceQueueLimit = some (s, []) := by
  have hnot : ¬ s.outbox.length > kMaxQueuedFrames := not_lt.mpr h
  rw [Session.enforceQueueLimit, shed_of_le h]
  simp [hnot]

/-- One frame over the limit, the one behind the frame in flight goes. -/
theorem enforce_full {s : Session Frame} {front oldest : Frame} {rest : List Frame}
    (hw : s.writing = true) (hout : s.outbox = front :: oldest :: rest)
    (hlen : s.outbox.length = kMaxQueuedFrames + 1) :
    ∃ warned, s.enforceQueueLimit =
      some ({ s with outbox := front :: rest, overflowWarned := true }, warned) ∧
      warned.filterMap Effect.started = [] := by
  have hshed : Session.shed 1 s.outbox = some (front :: rest) := by
    rw [Session.shed, if_pos (by omega), if_pos (by rw [hlen]; decide), hout]
    apply shed_of_le
    rw [hout] at hlen
    simp only [List.length_cons] at hlen
    simp [List.eraseIdx]
    omega
  have hover : s.outbox.length > kMaxQueuedFrames := by omega
  refine ⟨if s.overflowWarned then [] else [.warnOverflow], ?_, by split <;> rfl⟩
  rw [Session.enforceQueueLimit, hw, if_pos rfl, hshed]
  cases hwarned : s.overflowWarned <;> simp [hover]

/-- **send** in a sound world never goes wrong. -/
theorem Sound.send (h : Sound hello w) (hopen : w.session.closed = false) (frame : Frame) :
    ∃ w', w.send frame = some w' ∧ Takes frame w w' ∧ w'.session.closed = false ∧
      w'.session.writing = true ∧ w'.written = w.written ∧ w'.enqueued = w.enqueued ++ [frame] := by
  have hlen := h.length_le
  cases hw : w.session.writing with
  | false =>
    have hout := h.open_idle hopen hw
    have hin := h.idle hw
    have hlimit := enforce_within (s := { w.session with outbox := w.session.outbox ++ [frame] })
      (by simp [hout, kMaxQueuedFrames])
    have hsend : w.session.send frame =
        some ({ w.session with outbox := [frame], writing := true }, [.asyncWrite frame]) := by
      rw [Session.send, if_neg (by simp [hopen]), hlimit]
      simp [hw, hout, Session.doWrite]
    refine ⟨_, congrArg _ hsend, .starts hout rfl ?_, hopen, rfl, rfl, ?_⟩
    · simp [perform, hin, Effect.started]
    · simp [hopen]
  | true =>
    obtain ⟨front, rest, hout, hin⟩ := h.writing hw
    by_cases hroom : w.session.outbox.length < kMaxQueuedFrames
    · have hlimit := enforce_within (s := { w.session with outbox := w.session.outbox ++ [frame] })
        (by simp; omega)
      have hsend : w.session.send frame =
          some ({ w.session with outbox := w.session.outbox ++ [frame] }, []) := by
        rw [Session.send, if_neg (by simp [hopen]), hlimit]
        simp [hw]
      refine ⟨_, congrArg _ hsend, .queues hout hroom ?_ hin ?_, hopen, hw, rfl, ?_⟩
      · simp [perform, hout]
      · simp [perform, hin]
      · simp [hopen]
    · obtain ⟨oldest, rest, rfl⟩ : ∃ oldest rest', rest = oldest :: rest' := by
        apply List.exists_cons_of_ne_nil
        rintro rfl
        simp [hout, kMaxQueuedFrames] at hroom
      obtain ⟨warned, hlimit, hstarted⟩ :=
        @enforce_full _ { w.session with outbox := w.session.outbox ++ [frame] } front oldest
          (rest ++ [frame]) hw (by simp [hout]) (by simp; omega)
      have hsend : w.session.send frame = some ({ w.session with
          outbox := front :: (rest ++ [frame]), overflowWarned := true }, warned) := by
        rw [Session.send, if_neg (by simp [hopen]), hlimit]
        simp [hw]
      refine ⟨_, congrArg _ hsend, .sheds hout (by omega) rfl hin ?_, hopen, hw, rfl, ?_⟩
      · simp [perform, hin, hstarted]
      · simp [hopen]

theorem send_closed (hclosed : w.session.closed = true) (frame : Frame) :
    w.send frame = some w := by
  simp [World.send, Session.send, hclosed, perform]

/-- Taking a frame keeps a session sound. -/
theorem Sound.takes (h : Sound hello w) (hopen : w.session.closed = false) {frame : Frame}
    (htakes : Takes frame w w') (hwriting : w'.session.writing = true)
    (hwritten : w'.written = w.written) (henqueued : w'.enqueued = w.enqueued ++ [frame]) :
    Sound hello w' := by
  have hgrown : (w.written ++ (w.session.outbox ++ [frame])).Sublist (w.enqueued ++ [frame]) := by
    rw [← List.append_assoc]
    exact h.sublist.append (List.Sublist.refl [frame])
  have hfirst : w.written.head? = some hello ∨ w.written = [] ∧ w.inFlight = [hello] := by
    rcases h.first with hhead | ⟨hnil, hin | ⟨_, hclosed⟩⟩
    · exact .inl hhead
    · exact .inr ⟨hnil, hin⟩
    · simp [hopen] at hclosed
  have hbusy (hw : w'.session.writing = false) : False := by simp [hwriting] at hw
  cases htakes with
  | starts hempty hout hin =>
    have hidle : w.inFlight = [] := by
      rw [h.inFlight_eq, hempty]
      split <;> rfl
    have hhead : w.written.head? = some hello :=
      hfirst.resolve_right fun hr => by simp [hidle] at hr
    refine ⟨fun _ => ⟨frame, [], hout, hin⟩, fun hw => (hbusy hw).elim, fun _ hw => (hbusy hw).elim,
      ?_, ?_, .inl (hwritten ▸ hhead)⟩
    · simp [hout, kMaxQueuedFrames]
    · rw [hwritten, henqueued, hout]
      rwa [hempty] at hgrown
  | @queues front rest hnonempty hroom hout hbefore hin =>
    refine ⟨fun _ => ⟨front, rest ++ [frame], hout, hin⟩, fun hw => (hbusy hw).elim,
      fun _ hw => (hbusy hw).elim, ?_, ?_, ?_⟩
    · rw [hnonempty] at hroom
      simp only [List.length_cons] at hroom
      simp only [hout, List.length_append, List.length_cons, List.length_nil]
      omega
    · rwa [hwritten, henqueued, hout, ← hnonempty]
    · rw [hwritten, hin, ← hbefore]
      exact hfirst.imp id fun hr => ⟨hr.1, .inl hr.2⟩
  | @sheds front oldest rest hfull hlimit hout hbefore hin =>
    refine ⟨fun _ => ⟨front, rest ++ [frame], hout, hin⟩, fun hw => (hbusy hw).elim,
      fun _ hw => (hbusy hw).elim, ?_, ?_, ?_⟩
    · rw [hfull] at hlimit
      simp only [List.length_cons] at hlimit
      simp only [hout, List.length_append, List.length_cons, List.length_nil]
      omega
    · have hshorter : (front :: rest ++ [frame]).Sublist (w.session.outbox ++ [frame]) := by
        rw [hfull]
        exact ((List.sublist_cons_self oldest rest).cons_cons front).append (List.Sublist.refl _)
      rw [hwritten, henqueued, hout]
      exact ((List.Sublist.refl w.written).append hshorter).trans hgrown
    · rw [hwritten, hin, ← hbefore]
      exact hfirst.imp id fun hr => ⟨hr.1, .inl hr.2⟩

/-- A callback that starts no write and leaves the outbox alone. -/
theorem Sound.perform (h : Sound hello w) {s : Session Frame} {effects : List (Effect Frame)}
    (hquiet : effects.filterMap Effect.started = [])
    (hs : s = { w.session with closed := s.closed }) (hclosed : w.session.closed = true → s.closed = true) :
    Sound hello (w.perform (s, effects)) := by
  have hin : (w.perform (s, effects)).inFlight = w.inFlight := by simp [World.perform, hquiet]
  have hout : s.outbox = w.session.outbox := by rw [hs]
  have hwriting : s.writing = w.session.writing := by rw [hs]
  constructor
  · rw [hin]
    show s.writing = true → ∃ frame rest, s.outbox = frame :: rest ∧ w.inFlight = [frame]
    rw [hwriting, hout]
    exact h.writing
  · rw [hin]
    exact fun hw => h.idle (hwriting.symm.trans hw)
  · intro hopen hw
    have hopen' : w.session.closed = false := by
      by_contra hne
      have hs : s.closed = false := hopen
      simp [hclosed (by simpa using hne)] at hs
    exact hout.trans (h.open_idle hopen' (hwriting.symm.trans hw))
  · exact (congrArg List.length hout).trans_le h.length_le
  · show (w.written ++ s.outbox).Sublist w.enqueued
    rw [hout]
    exact h.sublist
  · rw [hin]
    exact h.first.imp id fun hr => ⟨hr.1, hr.2.imp id fun hr => ⟨hr.1, hclosed hr.2⟩⟩

theorem fail_cases (s : Session Frame) :
    (s.closed = true ∧ s.fail = (s, [])) ∨
      s.fail = ({ s with closed := true }, [.closeSocket, .eraseSession]) := by
  cases h : s.closed with
  | true => exact .inl ⟨rfl, by simp [Session.fail, h]⟩
  | false => exact .inr (by simp [Session.fail, h])

theorem Sound.fail (h : Sound hello w) : Sound hello (w.perform w.session.fail) := by
  rcases fail_cases w.session with ⟨_, hfail⟩ | hfail
  · rw [hfail]
    exact h.perform rfl rfl id
  · rw [hfail]
    exact h.perform rfl rfl fun _ => rfl

theorem Sound.close (h : Sound hello w) : Sound hello (w.perform w.session.close) := by
  unfold Session.close
  split
  · exact h.perform rfl rfl id
  · exact h.perform rfl rfl fun _ => rfl

theorem Sound.read (h : Sound hello w) (ok : Bool) : Sound hello (w.perform (w.session.onRead ok)) := by
  cases ok with
  | false => exact h.fail
  | true => exact h.perform rfl rfl id

/-- A write that failed leaves the session closed. -/
theorem Sound.wrote_failed (h : Sound hello w) {frame : Frame} (hin : w.inFlight = [frame]) :
    ∃ w', w.wrote false = some w' ∧ Sound hello w' ∧ w'.session.closed = true := by
  have hfirst : w.written.head? = some hello ∨ w.written = [] := h.first.imp id And.left
  have hstopped : ({ w.session with writing := false } : Session Frame).fail =
      ({ w.session with writing := false, closed := true },
        if w.session.closed then [] else [.closeSocket, .eraseSession]) := by
    cases hc : w.session.closed <;> simp [Session.fail, hc]
  have hwrote : w.session.onWrite false =
      some ({ w.session with writing := false, closed := true },
        if w.session.closed then [] else [.closeSocket, .eraseSession]) := congrArg some hstopped
  have hquiet : (if w.session.closed then [] else
      [.closeSocket, .eraseSession] : List (Effect Frame)).filterMap Effect.started = [] := by
    split <;> rfl
  rw [World.wrote, hin]
  refine ⟨World.perform _ { w with inFlight := [] }, congrArg (Option.map _) hwrote, ?_, rfl⟩
  refine ⟨fun hw => (nomatch hw), fun _ => ?_, fun hopen => (nomatch hopen), h.length_le,
    h.sublist, ?_⟩
  · simp [World.perform, hquiet]
  · refine hfirst.imp id fun hnil => ⟨hnil, .inr ⟨?_, rfl⟩⟩
    simp [World.perform, hquiet]

/-- A write that completed takes its frame off the front, and the next one is
started. -/
theorem Sound.wrote_done (h : Sound hello w) {frame : Frame} {rest : List Frame}
    (hw : w.session.writing = true) (hout : w.session.outbox = frame :: rest)
    (hin : w.inFlight = [frame]) : ∃ w', w.wrote true = some w' ∧ Sound hello w' ∧
      w'.session.closed = w.session.closed := by
  have hlen := h.length_le
  have hsub := h.sublist
  have hfirst : (w.written ++ [frame]).head? = some hello := by
    rcases h.first with hhead | ⟨hnil, hr⟩
    · rw [List.head?_append, hhead]
      rfl
    · rw [hin] at hr
      rcases hr with hr | ⟨hr, _⟩
      · rw [hnil, hr]
        rfl
      · cases hr
  rw [hout] at hlen hsub
  have hkept : (w.written ++ [frame] ++ rest).Sublist w.enqueued := by
    rwa [List.append_assoc, List.singleton_append]
  rw [World.wrote, hin]
  cases rest with
  | nil =>
    have hwrote : w.session.onWrite true =
        some ({ w.session with writing := false, outbox := [], overflowWarned := false }, []) := by
      simp [Session.onWrite, hout]
    refine ⟨World.perform _ { w with inFlight := [], written := w.written ++ [frame] },
      congrArg (Option.map _) hwrote, ?_, rfl⟩
    exact ⟨fun hw => (nomatch hw), fun _ => rfl, fun _ _ => rfl, Nat.zero_le _, hkept,
      .inl hfirst⟩
  | cons next rest =>
    have hwrote : w.session.onWrite true =
        some ({ w.session with outbox := next :: rest }, [.asyncWrite next]) := by
      simp [Session.onWrite, Session.doWrite, hout, hw]
    refine ⟨World.perform _ { w with inFlight := [], written := w.written ++ [frame] },
      congrArg (Option.map _) hwrote, ?_, rfl⟩
    refine ⟨fun _ => ⟨next, rest, rfl, rfl⟩, fun hidle => ?_, fun _ hidle => ?_, ?_, hkept,
      .inl hfirst⟩
    · exact absurd (hw.symm.trans hidle) (by decide)
    · exact absurd (hw.symm.trans hidle) (by decide)
    · exact Nat.le_of_succ_le hlen

theorem Sound.wrote (h : Sound hello w) (ok : Bool) :
    ∃ w', w.wrote ok = some w' ∧ Sound hello w' ∧
      (w.session.closed = true → w'.session.closed = true) := by
  cases hw : w.session.writing with
  | false =>
    refine ⟨w, ?_, h, id⟩
    rw [World.wrote, h.idle hw]
  | true =>
    obtain ⟨frame, rest, hout, hin⟩ := h.writing hw
    cases ok with
    | false =>
      obtain ⟨w', hwrote, hsound, hclosed⟩ := h.wrote_failed hin
      exact ⟨w', hwrote, hsound, fun _ => hclosed⟩
    | true =>
      obtain ⟨w', hwrote, hsound, hclosed⟩ := h.wrote_done hw hout hin
      exact ⟨w', hwrote, hsound, fun hc => hclosed.trans hc⟩

/-- **One step.** Nothing goes wrong, the session stays sound, and a closed
session stays closed. -/
theorem Sound.step (h : Sound hello w) (e : Event Frame) : ∃ w', w.step e = some w' ∧
    Sound hello w' ∧ (w.session.closed = true → w'.session.closed = true) := by
  cases e with
  | send frame =>
    cases hopen : w.session.closed with
    | true => exact ⟨w, send_closed hopen frame, h, fun _ => hopen⟩
    | false =>
      obtain ⟨w', hsend, htakes, _, hwriting, hwritten, henqueued⟩ := h.send hopen frame
      exact ⟨w', hsend, h.takes hopen htakes hwriting hwritten henqueued, fun hc => nomatch hc⟩
  | wrote ok => exact h.wrote ok
  | read ok =>
    refine ⟨_, rfl, h.read ok, fun hclosed => ?_⟩
    cases ok <;> simp [World.perform, Session.onRead, Session.fail, hclosed]
  | close =>
    refine ⟨_, rfl, h.close, fun hclosed => ?_⟩
    simp [World.perform, Session.close, hclosed]

/-- What ends a session: a close, a read that failed, and the outstanding write if that
failed. -/
def Ends (w : World Frame) : Event Frame → Prop
  | .send _ => False
  | .wrote ok => ok = false ∧ w.inFlight ≠ []
  | .read ok => ok = false
  | .close => True

/-- Nothing else closes a session, and it stays closed. -/
theorem Sound.closed_iff (h : Sound hello w) {e : Event Frame} (hstep : w.step e = some w') :
    w'.session.closed = true ↔ w.session.closed = true ∨ w.Ends e := by
  cases e with
  | send frame =>
    cases hopen : w.session.closed with
    | true =>
      rw [World.step, send_closed hopen] at hstep
      obtain rfl := Option.some.inj hstep
      simp [hopen]
    | false =>
      obtain ⟨next, hsend, _, hstill, _⟩ := h.send hopen frame
      obtain rfl := Option.some.inj (hsend.symm.trans hstep)
      simp [hstill, Ends]
  | wrote ok =>
    cases hw : w.session.writing with
    | false =>
      have hidle := h.idle hw
      rw [World.step, World.wrote, hidle] at hstep
      obtain rfl := Option.some.inj hstep
      simp [Ends, hidle]
    | true =>
      obtain ⟨frame, rest, hout, hin⟩ := h.writing hw
      cases ok with
      | false =>
        obtain ⟨next, hwrote, _, hclosed⟩ := h.wrote_failed hin
        obtain rfl := Option.some.inj (hwrote.symm.trans hstep)
        simp [hclosed, Ends, hin]
      | true =>
        obtain ⟨next, hwrote, _, hsame⟩ := h.wrote_done hw hout hin
        obtain rfl := Option.some.inj (hwrote.symm.trans hstep)
        simp [hsame, Ends]
  | read ok =>
    obtain rfl := Option.some.inj hstep
    cases ok with
    | true => simp [World.perform, Session.onRead, Ends]
    | false =>
      rcases fail_cases w.session with ⟨hclosed, hfail⟩ | hfail
      · simp [World.perform, Session.onRead, hfail, hclosed]
      · simp [World.perform, Session.onRead, hfail, Ends]
  | close =>
    obtain rfl := Option.some.inj hstep
    cases hclosed : w.session.closed <;> simp [World.perform, Session.close, hclosed, Ends]

theorem accepted_sound (hello : Frame) : ∃ w, accepted hello = some w ∧ Sound hello w := by
  have hsend : ({} : Session Frame).send hello =
      some ({ outbox := [hello], writing := true }, [.asyncWrite hello]) := by
    have hlimit := enforce_within (s := ({ outbox := [hello] } : Session Frame))
      (by simp [kMaxQueuedFrames])
    rw [Session.send, if_neg (by simp)]
    simp only [List.nil_append, hlimit]
    simp [Session.doWrite]
  have haccept : Session.onAccept true hello {} = some ({ outbox := [hello], writing := true },
      [.insertSession, .asyncWrite hello, .asyncRead]) := by
    simp [Session.onAccept, hsend]
  refine ⟨_, congrArg (Option.map _) haccept, ?_⟩
  constructor
  · exact fun _ => ⟨hello, [], rfl, rfl⟩
  · exact fun hw => nomatch hw
  · exact fun _ hw => nomatch hw
  · simp [World.perform, kMaxQueuedFrames]
  · exact List.Sublist.refl _
  · exact .inr ⟨rfl, .inl rfl⟩

/-- **A run.** -/
theorem run_sound (hello : Frame) (events : List (Event Frame)) :
    ∃ w, run hello events = some w ∧ Sound hello w := by
  obtain ⟨w, hw, hsound⟩ := accepted_sound hello
  rw [run, hw, Option.bind_some]
  clear hw
  induction events generalizing w with
  | nil => exact ⟨w, rfl, hsound⟩
  | cons e events ih =>
    obtain ⟨w', hstep, hsound', _⟩ := hsound.step e
    obtain ⟨last, hrun, hlast⟩ := ih w' hsound'
    refine ⟨last, ?_, hlast⟩
    rw [List.foldlM_cons, hstep]
    exact hrun

/-- Only its completion takes a frame out of flight. -/
theorem inFlight_prefix {e : Event Frame} (he : ∀ ok, e ≠ .wrote ok) (hstep : w.step e = some w') :
    w.inFlight <+: w'.inFlight := by
  have hperform (r : Session Frame × List (Effect Frame)) :
      w.inFlight <+: (w.perform r).inFlight := List.prefix_append ..
  cases e with
  | send frame =>
    obtain ⟨r, _, rfl⟩ := Option.map_eq_some_iff.mp hstep
    exact hperform r
  | wrote ok => exact absurd rfl (he ok)
  | read ok => exact Option.some.inj hstep ▸ hperform _
  | close => exact Option.some.inj hstep ▸ hperform _

/-- **The outbox of a session**, after the handshake and any callbacks in any
order. At most one write is outstanding, of the front frame, which only its
completion takes away; while the session is open, one is outstanding whenever a
frame is queued. The outbox is bounded, what was written is taken from what was
enqueued, in order and once each, starting with the hello. An open session takes
a frame as `Takes` says. A close and a failed read or write close it, nothing else
does, and a closed session does nothing and stays closed. -/
theorem session_outbox (hello : Frame) (events : List (Event Frame)) :
    ∃ w, run hello events = some w ∧
      w.inFlight.length ≤ 1 ∧
      (w.session.closed = false → (w.inFlight ≠ [] ↔ w.session.outbox ≠ [])) ∧
      w.session.outbox.length ≤ 5 ∧
      (∀ frame ∈ w.inFlight, w.session.outbox.head? = some frame) ∧
      (∀ e w', w.step e = some w' → (∀ ok, e ≠ .wrote ok) → w.inFlight <+: w'.inFlight) ∧
      w.written.Sublist w.enqueued ∧ (∀ frame ∈ w.written.head?, frame = hello) ∧
      (w.session.closed = false → ∀ frame, ∃ w', w.step (.send frame) = some w' ∧
        Takes frame w w' ∧ w'.enqueued = w.enqueued ++ [frame] ∧ w'.session.outbox.length ≤ 5) ∧
      (∀ e w', w.step e = some w' →
        (w'.session.closed = true ↔ w.session.closed = true ∨ w.Ends e)) ∧
      (w.session.closed = true → (∀ frame, w.step (.send frame) = some w) ∧
        ∀ e w', w.step e = some w' → w'.session.closed = true) := by
  obtain ⟨w, hrun, h⟩ := run_sound hello events
  refine ⟨w, hrun, ?_, ?_, h.length_le, ?_, fun e w' hstep he => inFlight_prefix he hstep, ?_, ?_,
    ?_, fun e w' hstep => h.closed_iff hstep, ?_⟩
  · rw [h.inFlight_eq]
    split
    · simp
    · simp
  · intro hopen
    rw [h.inFlight_eq]
    cases hw : w.session.writing with
    | false => simp [h.open_idle hopen hw]
    | true =>
      obtain ⟨frame, rest, hout, _⟩ := h.writing hw
      simp [hout]
  · intro frame hframe
    cases hw : w.session.writing with
    | false => simp [h.idle hw] at hframe
    | true =>
      obtain ⟨front, rest, hout, hin⟩ := h.writing hw
      rw [hin, List.mem_singleton] at hframe
      rw [hout, hframe]
      rfl
  · exact (List.sublist_append_left _ _).trans h.sublist
  · intro frame hframe
    rcases h.first with hhead | ⟨hnil, _⟩
    · exact Option.some.inj ((Option.mem_def.mp hframe).symm.trans hhead)
    · simp [hnil] at hframe
  · intro hopen frame
    obtain ⟨w', hsend, htakes, _, hwriting, hwritten, henqueued⟩ := h.send hopen frame
    exact ⟨w', hsend, htakes, henqueued, (h.takes hopen htakes hwriting hwritten henqueued).length_le⟩
  · intro hclosed
    refine ⟨send_closed hclosed, fun e w' hstep => ?_⟩
    obtain ⟨next, hnext, _, hstays⟩ := h.step e
    exact Option.some.inj (hnext.symm.trans hstep) ▸ hstays hclosed

end World
end Olv.WsServer
