import OrbitalViewer.NetParse

/-!
# The frontend's connection

`createConnection` of `frontend/js/net.js`: one socket and one reconnect timer,
shared by everything that can happen. A step runs one call, timer or socket
event to its end. `World` is the connection with the browser around it: the
timers pending, the sockets created and closed, and the callbacks made.
-/

namespace NetConnection
open NetParse (Message)

def BACKOFF_DELAYS_MS : List Nat := [1000, 2000, 4000, 8000, 10000]

/-- The variables `createConnection` closes over. -/
structure Connection where
  host : String
  port : Nat
  socket : Option Nat := none
  reconnectTimer : Option Nat := none
  backoffIndex : Nat := 0
  stopped : Bool := true
  parseErrorCount : Nat := 0

inductive Status where
  | connecting | open | closed
  deriving DecidableEq, Repr

inductive Callback where
  | onStatus (status : Status)
  | onHello (h : NetParse.Hello)
  | onState (s : NetParse.State)

/-- Sockets and timers are numbered as they are made. -/
structure World where
  connection : Connection
  /-- Timers set and neither fired nor cleared, with their delays. -/
  timers : List (Nat × Nat) := []
  timersSet : Nat := 0
  /-- The urls of the sockets created. -/
  sockets : List String := []
  /-- The sockets that closed or were told to. -/
  closed : List Nat := []
  callbacks : List Callback := []

namespace World

def emit (callback : Callback) (w : World) : World :=
  { w with callbacks := w.callbacks ++ [callback] }

def scheduleReconnect (w : World) : World :=
  let c := w.connection
  if c.stopped then w
  else
    let delay := BACKOFF_DELAYS_MS.getD (min c.backoffIndex (BACKOFF_DELAYS_MS.length - 1)) 0
    { w with
      connection := { c with
        backoffIndex := c.backoffIndex + 1
        reconnectTimer := some w.timersSet }
      timers := w.timers ++ [(w.timersSet, delay)]
      timersSet := w.timersSet + 1 }

/-- `made` says whether the factory returns a socket or throws. -/
def openSocket (made : Bool) (w : World) : World :=
  if w.connection.stopped then w
  else
    let w := w.emit (.onStatus .connecting)
    let url := "ws://" ++ w.connection.host ++ ":" ++ toString w.connection.port ++ "/"
    if made then
      { w with
        connection := { w.connection with socket := some w.sockets.length }
        sockets := w.sockets ++ [url] }
    else w.scheduleReconnect

/-- `clearTimeout` of the reconnect timer, if there is one. -/
def clearReconnect (w : World) : World :=
  match w.connection.reconnectTimer with
  | none => w
  | some timer =>
    { w with
      connection := { w.connection with reconnectTimer := none }
      timers := w.timers.filter fun t => t.1 ≠ timer }

/-- `close` of the current socket, if there is one, which is given up first. -/
def dropSocket (w : World) : World :=
  match w.connection.socket with
  | none => w
  | some socket =>
    { w with
      connection := { w.connection with socket := none }
      closed := w.closed ++ [socket] }

def connect (made : Bool) (w : World) : World :=
  ({ w with connection := { w.connection with
      stopped := false, backoffIndex := 0 } } : World).clearReconnect.openSocket made

def close (w : World) : World :=
  ({ w with connection := { w.connection with stopped := true } } : World).clearReconnect.dropSocket

def setEndpoint (newHost : String) (newPort : Nat) (made : Bool) (w : World) : World :=
  let w := ({ w with connection := { w.connection with
    host := newHost, port := newPort } } : World).clearReconnect.dropSocket
  ({ w with connection := { w.connection with
      backoffIndex := 0, stopped := false } } : World).openSocket made

/-- A timer that is still pending fires. -/
def fire (timer : Nat) (made : Bool) (w : World) : World :=
  if w.timers.any fun t => t.1 = timer then
    ({ w with
      connection := { w.connection with reconnectTimer := none }
      timers := w.timers.filter fun t => t.1 ≠ timer } : World).openSocket made
  else w

def onopen (socket : Nat) (w : World) : World :=
  if w.connection.socket ≠ some socket then w
  else ({ w with connection := { w.connection with backoffIndex := 0 } } : World).emit
    (.onStatus .open)

def onmessage (socket : Nat) (data : List Char) (w : World) : World :=
  if w.connection.socket ≠ some socket then w
  else match NetParse.parseStateMessage data with
    | .error _ =>
      { w with connection := { w.connection with
          parseErrorCount := w.connection.parseErrorCount + 1 } }
    | .ok (.hello h) => w.emit (.onHello h)
    | .ok (.state s) => w.emit (.onState s)

def onclose (socket : Nat) (w : World) : World :=
  let w := { w with closed := w.closed ++ [socket] }
  if w.connection.socket ≠ some socket then w
  else (({ w with connection := { w.connection with socket := none } } : World).emit
    (.onStatus .closed)).scheduleReconnect

end World

/-! ## Runs -/

inductive Event where
  | close
  | setEndpoint (host : String) (port : Nat) (made : Bool)
  | timer (timer : Nat) (made : Bool)
  | opened (socket : Nat)
  | message (socket : Nat) (data : List Char)
  | closed (socket : Nat)

/-- The socket an event comes from. -/
def Event.socket : Event → Option Nat
  | opened socket => some socket
  | message socket _ => some socket
  | closed socket => some socket
  | _ => none

namespace World

/-- A socket has events once it was created. -/
def step (w : World) : Event → World
  | .close => w.close
  | .setEndpoint host port made => w.setEndpoint host port made
  | .timer timer made => w.fire timer made
  | .opened socket => if socket < w.sockets.length then w.onopen socket else w
  | .message socket data => if socket < w.sockets.length then w.onmessage socket data else w
  | .closed socket => if socket < w.sockets.length then w.onclose socket else w

/-- `createConnection`, one `connect()`, and then the events. -/
def run (host : String) (port : Nat) (made : Bool) (events : List Event) : World :=
  events.foldl step (({ connection := { host, port } } : World).connect made)

/-! ## One socket or one timer -/

/-- No socket and no timer. -/
structure Idle (w : World) : Prop where
  no_socket : w.connection.socket = none
  no_timer : w.connection.reconnectTimer = none
  no_pending : w.timers = []
  all_closed : ∀ i < w.sockets.length, i ∈ w.closed

/-- The variables say which timer is pending and which socket is not closed. -/
structure Tracked (w : World) : Prop where
  pending : w.timers.map Prod.fst = w.connection.reconnectTimer.toList
  others : ∀ i < w.sockets.length, w.connection.socket ≠ some i → i ∈ w.closed

/-- A connection that is not stopped has a socket or a timer, and not both. -/
structure Sound (w : World) : Prop extends Tracked w where
  waiting : w.connection.reconnectTimer ≠ none →
    w.connection.socket = none ∧ w.connection.stopped = false
  current : ∀ i, w.connection.socket = some i → i < w.sockets.length ∧ w.connection.stopped = false
  alive : w.connection.stopped = false → w.connection.socket = none →
    w.connection.reconnectTimer ≠ none

variable {w : World}

theorem Idle.sound (h : Idle w) (hstopped : w.connection.stopped = true) : Sound w where
  pending := by rw [h.no_pending, h.no_timer]; rfl
  others i hi _ := h.all_closed i hi
  waiting ht := absurd h.no_timer ht
  current i hi := by rw [h.no_socket] at hi; cases hi
  alive hs := by rw [hstopped] at hs; cases hs

theorem Idle.scheduleReconnect (h : Idle w) (hopen : w.connection.stopped = false) :
    Sound w.scheduleReconnect := by
  have hscheduled : w.scheduleReconnect.connection.stopped = false := by
    simp [World.scheduleReconnect, hopen]
  have hsocket : w.scheduleReconnect.connection.socket = none := by
    simp [World.scheduleReconnect, hopen, h.no_socket]
  constructor
  · constructor
    · simp [World.scheduleReconnect, hopen, h.no_pending]
    · intro i hi _
      simp only [World.scheduleReconnect, hopen] at hi ⊢
      exact h.all_closed i hi
  · exact fun _ => ⟨hsocket, hscheduled⟩
  · intro i hi
    rw [hsocket] at hi
    cases hi
  · simp [World.scheduleReconnect, hopen]

theorem Idle.openSocket (h : Idle w) (made : Bool) : Sound (w.openSocket made) := by
  unfold World.openSocket
  cases hs : w.connection.stopped with
  | true => exact h.sound hs
  | false =>
    have hidle : Idle (w.emit (.onStatus .connecting)) :=
      ⟨h.no_socket, h.no_timer, h.no_pending, h.all_closed⟩
    cases made with
    | false => exact hidle.scheduleReconnect hs
    | true =>
      simp only [Bool.false_eq_true, if_false, if_true]
      constructor
      · constructor
        · simp [emit, h.no_pending, h.no_timer]
        · intro i hi hne
          have hlt : i < w.sockets.length := by
            have hne' : w.sockets.length ≠ i := fun heq => hne (congrArg some heq)
            simp only [emit, List.length_append, List.length_singleton] at hi
            omega
          exact h.all_closed i hlt
      · exact fun ht => absurd h.no_timer ht
      · intro i hi
        obtain rfl : w.sockets.length = i := Option.some.inj hi
        exact ⟨by simp [emit], hs⟩
      · intro _ hnone
        cases hnone

theorem Tracked.clearReconnect (h : Tracked w) :
    w.clearReconnect.connection.reconnectTimer = none ∧ w.clearReconnect.timers = [] ∧
      w.clearReconnect.connection.socket = w.connection.socket ∧
      w.clearReconnect.sockets = w.sockets ∧ w.clearReconnect.closed = w.closed := by
  have hpending := h.pending
  cases ht : w.connection.reconnectTimer with
  | none =>
    rw [ht] at hpending
    simp [World.clearReconnect, ht, List.map_eq_nil_iff.mp hpending]
  | some timer =>
    rw [ht] at hpending
    have hcleared : (w.timers.filter fun t => t.1 ≠ timer) = [] := by
      apply List.filter_eq_nil_iff.mpr
      intro t htimer
      have hmem : t.1 ∈ w.timers.map Prod.fst := List.mem_map_of_mem htimer
      rw [hpending] at hmem
      simpa using hmem
    simpa [World.clearReconnect, ht] using hcleared

/-- What `close` and `setEndpoint` begin with leaves no socket and no timer. -/
theorem Tracked.dropped (h : Tracked w) : Idle w.clearReconnect.dropSocket := by
  obtain ⟨htimer, hpending, hsocket, hsockets, hclosed⟩ := h.clearReconnect
  cases hs : w.connection.socket with
  | none =>
    have hdrop : w.clearReconnect.dropSocket = w.clearReconnect := by
      simp [World.dropSocket, hsocket, hs]
    rw [hdrop]
    refine ⟨hsocket.trans hs, htimer, hpending, fun i hi => ?_⟩
    rw [hsockets] at hi
    rw [hclosed]
    exact h.others i hi (by simp [hs])
  | some socket =>
    have hdrop : w.clearReconnect.dropSocket = { w.clearReconnect with
        connection := { w.clearReconnect.connection with socket := none }
        closed := w.clearReconnect.closed ++ [socket] } := by
      simp [World.dropSocket, hsocket, hs]
    rw [hdrop]
    refine ⟨rfl, htimer, hpending, fun i hi => ?_⟩
    simp only [hsockets] at hi
    simp only [hclosed, List.mem_append, List.mem_singleton]
    by_cases heq : i = socket
    · exact .inr heq
    · exact .inl (h.others i hi (by simpa [hs] using Ne.symm heq))

theorem Idle.of_eq {w' : World} (h : Idle w) (hsocket : w'.connection.socket = w.connection.socket)
    (htimer : w'.connection.reconnectTimer = w.connection.reconnectTimer)
    (htimers : w'.timers = w.timers) (hsockets : w'.sockets = w.sockets)
    (hclosed : w'.closed = w.closed) : Idle w' :=
  ⟨hsocket.trans h.no_socket, htimer.trans h.no_timer, htimers.trans h.no_pending,
    by rw [hsockets, hclosed]; exact h.all_closed⟩

theorem connect_sound (host : String) (port : Nat) (made : Bool) :
    Sound (({ connection := { host, port } } : World).connect made) := by
  apply Idle.openSocket
  exact ⟨rfl, rfl, rfl, fun i hi => absurd hi (Nat.not_lt_zero i)⟩

theorem dropSocket_stopped (w : World) :
    w.clearReconnect.dropSocket.connection.stopped = w.connection.stopped := by
  unfold World.dropSocket World.clearReconnect
  split <;> split <;> rfl

theorem Sound.close (h : Sound w) : Sound w.close := by
  have htracked : Tracked { w with connection := { w.connection with stopped := true } } :=
    ⟨h.pending, h.others⟩
  exact htracked.dropped.sound (dropSocket_stopped _)

theorem Sound.setEndpoint (h : Sound w) (host : String) (port : Nat) (made : Bool) :
    Sound (w.setEndpoint host port made) := by
  have htracked : Tracked { w with connection := { w.connection with host, port } } :=
    ⟨h.pending, h.others⟩
  apply Idle.openSocket
  exact htracked.dropped.of_eq rfl rfl rfl rfl rfl

theorem Sound.fire (h : Sound w) (timer : Nat) (made : Bool) : Sound (w.fire timer made) := by
  unfold World.fire
  split
  · rename_i hany
    obtain ⟨t, hmem, ht⟩ := List.any_eq_true.mp hany
    have hpending := h.pending
    cases hvar : w.connection.reconnectTimer with
    | none =>
      rw [hvar] at hpending
      rw [List.map_eq_nil_iff.mp hpending] at hmem
      cases hmem
    | some id =>
      rw [hvar] at hpending
      obtain ⟨hsocket, _⟩ := h.waiting (by simp [hvar])
      have hid (t' : Nat × Nat) (ht' : t' ∈ w.timers) : t'.1 = id := by
        have hmem' : t'.1 ∈ w.timers.map Prod.fst := List.mem_map_of_mem ht'
        rw [hpending] at hmem'
        simpa using hmem'
      have hfired : timer = id := (of_decide_eq_true ht).symm.trans (hid t hmem)
      apply Idle.openSocket
      refine ⟨hsocket, rfl, ?_, fun i hi => h.others i hi (by simp [hsocket])⟩
      apply List.filter_eq_nil_iff.mpr
      intro t' ht'
      simp [hid t' ht', hfired]
  · exact h

theorem Sound.onopen (h : Sound w) (socket : Nat) : Sound (w.onopen socket) := by
  unfold World.onopen
  split
  · exact h
  · exact ⟨⟨h.pending, h.others⟩, h.waiting, h.current, h.alive⟩

theorem Sound.onmessage (h : Sound w) (socket : Nat) (data : List Char) :
    Sound (w.onmessage socket data) := by
  unfold World.onmessage
  split
  · exact h
  · split <;> exact ⟨⟨h.pending, h.others⟩, h.waiting, h.current, h.alive⟩

theorem Sound.onclose (h : Sound w) (socket : Nat) : Sound (w.onclose socket) := by
  have hclosed : ∀ i < w.sockets.length, w.connection.socket ≠ some i →
      i ∈ w.closed ++ [socket] := fun i hi hne => List.mem_append_left _ (h.others i hi hne)
  unfold World.onclose
  dsimp only
  split
  · exact ⟨⟨h.pending, hclosed⟩, h.waiting, h.current, h.alive⟩
  · rename_i hcurrent
    have hsocket : w.connection.socket = some socket := not_not.mp hcurrent
    have htimer : w.connection.reconnectTimer = none := by
      by_contra hne
      simp [(h.waiting hne).1] at hsocket
    have hpending := h.pending
    rw [htimer] at hpending
    apply Idle.scheduleReconnect
    · refine ⟨rfl, htimer, List.map_eq_nil_iff.mp hpending, fun i hi => ?_⟩
      by_cases heq : i = socket
      · exact List.mem_append_right _ (List.mem_singleton.mpr heq)
      · exact hclosed i hi (by simpa [hsocket] using Ne.symm heq)
    · exact (h.current socket hsocket).2

theorem Sound.step (h : Sound w) (e : Event) : Sound (w.step e) := by
  cases e with
  | close => exact h.close
  | setEndpoint host port made => exact h.setEndpoint host port made
  | timer timer made => exact h.fire timer made
  | opened socket =>
    simp only [World.step]
    split
    · exact h.onopen socket
    · exact h
  | message socket data =>
    simp only [World.step]
    split
    · exact h.onmessage socket data
    · exact h
  | closed socket =>
    simp only [World.step]
    split
    · exact h.onclose socket
    · exact h

theorem run_sound (host : String) (port : Nat) (made : Bool) (events : List Event) :
    Sound (run host port made events) := by
  have hstart := connect_sound host port made
  unfold run
  generalize ({ connection := { host, port } } : World).connect made = w at hstart ⊢
  induction events generalizing w with
  | nil => exact hstart
  | cons e events ih => exact ih (w.step e) (hstart.step e)

/-! ## Callbacks -/

/-- The callbacks made by a step that is not the event of the current socket. -/
def OnlyConnecting (w w' : World) : Prop :=
  ∃ new, w'.callbacks = w.callbacks ++ new ∧ ∀ c ∈ new, c = .onStatus .connecting

theorem OnlyConnecting.of_eq {w' : World} (h : w'.callbacks = w.callbacks) : OnlyConnecting w w' :=
  ⟨[], by rw [h, List.append_nil], by simp⟩

theorem scheduleReconnect_callbacks (w : World) : w.scheduleReconnect.callbacks = w.callbacks := by
  unfold World.scheduleReconnect
  dsimp only
  split <;> rfl

theorem openSocket_callbacks (made : Bool) (w : World) : OnlyConnecting w (w.openSocket made) := by
  unfold World.openSocket
  dsimp only
  split
  · exact .of_eq rfl
  · refine ⟨[.onStatus .connecting], ?_, by simp⟩
    split
    · rfl
    · exact scheduleReconnect_callbacks _

theorem clearReconnect_callbacks (w : World) : w.clearReconnect.callbacks = w.callbacks := by
  unfold World.clearReconnect
  split <;> rfl

theorem dropSocket_callbacks (w : World) : w.dropSocket.callbacks = w.callbacks := by
  unfold World.dropSocket
  split <;> rfl

/-- Everything but an attempt to connect is told about the current socket only. -/
theorem step_callbacks (w : World) (e : Event) : OnlyConnecting w (w.step e) ∨
    ∃ i new, e.socket = some i ∧ w.connection.socket = some i ∧
      (w.step e).callbacks = w.callbacks ++ new := by
  cases e with
  | close => exact .inl (.of_eq ((dropSocket_callbacks _).trans (clearReconnect_callbacks _)))
  | setEndpoint host port made =>
    obtain ⟨new, hnew, hall⟩ := openSocket_callbacks made { (({ w with connection :=
      { w.connection with host, port } } : World).clearReconnect.dropSocket) with connection :=
      { (({ w with connection := { w.connection with host, port } } : World).clearReconnect.dropSocket).connection
        with backoffIndex := 0, stopped := false } }
    refine .inl ⟨new, hnew.trans ?_, hall⟩
    exact congrArg (· ++ new) ((dropSocket_callbacks _).trans (clearReconnect_callbacks _))
  | timer timer made =>
    simp only [World.step, World.fire]
    split
    · exact .inl (openSocket_callbacks made _)
    · exact .inl (.of_eq rfl)
  | opened socket =>
    simp only [World.step, World.onopen]
    split
    · split
      · exact .inl (.of_eq rfl)
      · exact .inr ⟨socket, _, rfl, not_not.mp ‹_›, rfl⟩
    · exact .inl (.of_eq rfl)
  | message socket data =>
    simp only [World.step, World.onmessage]
    split
    · split
      · exact .inl (.of_eq rfl)
      · split
        · exact .inl (.of_eq rfl)
        · exact .inr ⟨socket, _, rfl, not_not.mp ‹_›, rfl⟩
        · exact .inr ⟨socket, _, rfl, not_not.mp ‹_›, rfl⟩
    · exact .inl (.of_eq rfl)
  | closed socket =>
    simp only [World.step, World.onclose]
    split
    · split
      · exact .inl (.of_eq rfl)
      · exact .inr ⟨socket, _, rfl, not_not.mp ‹_›, scheduleReconnect_callbacks _⟩
    · exact .inl (.of_eq rfl)

/-! ## After close -/

/-- Not `setEndpoint`. -/
def Event.Passive : Event → Prop
  | .setEndpoint _ _ _ => False
  | _ => True

theorem scheduleReconnect_stopped (h : w.connection.stopped = true) : w.scheduleReconnect = w :=
  if_pos h

theorem stopped_step {e : Event} (he : Event.Passive e) (h : w.connection.stopped = true) :
    (w.step e).connection.stopped = true ∧ (w.step e).sockets = w.sockets := by
  cases e with
  | setEndpoint host port made => exact he.elim
  | close =>
    refine ⟨dropSocket_stopped _, ?_⟩
    simp only [World.step, World.close, World.dropSocket, World.clearReconnect]
    split <;> split <;> rfl
  | timer timer made =>
    simp only [World.step, World.fire]
    split
    · rw [World.openSocket, if_pos h]
      exact ⟨h, rfl⟩
    · exact ⟨h, rfl⟩
  | opened socket =>
    simp only [World.step, World.onopen]
    split
    · split <;> exact ⟨h, rfl⟩
    · exact ⟨h, rfl⟩
  | message socket data =>
    simp only [World.step, World.onmessage]
    split
    · split
      · exact ⟨h, rfl⟩
      · split <;> exact ⟨h, rfl⟩
    · exact ⟨h, rfl⟩
  | closed socket =>
    simp only [World.step, World.onclose]
    split
    · split
      · exact ⟨h, rfl⟩
      · rw [scheduleReconnect_stopped (by exact h)]
        exact ⟨h, rfl⟩
    · exact ⟨h, rfl⟩

theorem stopped_run {events : List Event} (hevents : ∀ e ∈ events, Event.Passive e)
    (h : w.connection.stopped = true) : (events.foldl step w).sockets = w.sockets := by
  induction events generalizing w with
  | nil => rfl
  | cons e events ih =>
    obtain ⟨hstopped, hsockets⟩ := stopped_step (hevents e List.mem_cons_self) h
    exact (ih (fun e' he' => hevents e' (List.mem_cons_of_mem e he')) hstopped).trans hsockets

/-- **The connection**, after `connect()` and anything in any order. At most one
reconnect timer is pending, and then there is no socket and the connection is not
stopped; a connection that is neither stopped nor has a socket has one pending.
Every other socket is closed, and what is not an attempt to connect is only ever
told of an event of the current one. After `close()` no socket is created before
`setEndpoint`. -/
theorem one_socket_or_timer (host : String) (port : Nat) (made : Bool) (events : List Event) :
    let w := run host port made events
    w.timers.length ≤ 1 ∧
    (w.timers ≠ [] → w.connection.socket = none ∧ w.connection.stopped = false) ∧
    (∀ i < w.sockets.length, w.connection.socket ≠ some i → i ∈ w.closed) ∧
    (∀ e, ∃ new, (w.step e).callbacks = w.callbacks ++ new ∧ ∀ c ∈ new,
      c ≠ .onStatus .connecting → ∃ i, e.socket = some i ∧ w.connection.socket = some i) ∧
    (∀ later, (∀ e ∈ later, ∀ host port made, e ≠ .setEndpoint host port made) →
      (run host port made (events ++ .close :: later)).sockets = w.sockets) ∧
    (w.connection.stopped = false → w.connection.socket = none → w.timers.length = 1) := by
  intro w
  have h : Sound w := run_sound host port made events
  have hlength : w.timers.length = w.connection.reconnectTimer.toList.length := by
    rw [← h.pending, List.length_map]
  refine ⟨?_, ?_, h.others, fun e => ?_, fun later hlater => ?_, fun hopen hsocket => ?_⟩
  · rw [hlength]
    cases w.connection.reconnectTimer <;> simp
  · intro hne
    apply h.waiting
    intro hnone
    rw [hnone] at hlength
    exact hne (List.length_eq_zero_iff.mp hlength)
  · rcases step_callbacks w e with ⟨new, hnew, hall⟩ | ⟨i, new, hi, hcurrent, hnew⟩
    · exact ⟨new, hnew, fun c hc hne => absurd (hall c hc) hne⟩
    · exact ⟨new, hnew, fun c _ _ => ⟨i, hi, hcurrent⟩⟩
  · have hpassive : ∀ e ∈ later, Event.Passive e := by
      intro e he
      cases e with
      | setEndpoint host port made => exact absurd rfl (hlater _ he host port made)
      | _ => trivial
    have hsplit : run host port made (events ++ .close :: later) = later.foldl step w.close := by
      simp [run, w, World.step]
    have hstopped : w.close.connection.stopped = true := dropSocket_stopped _
    have hsockets : w.close.sockets = w.sockets := by
      simp only [World.close, World.dropSocket, World.clearReconnect]
      split <;> split <;> rfl
    rw [hsplit]
    exact (stopped_run hpassive hstopped).trans hsockets
  · rw [hlength]
    obtain ⟨timer, htimer⟩ := Option.ne_none_iff_exists'.mp (h.alive hopen hsocket)
    rw [htimer]
    rfl

end World

/-! ## The states delivered -/

/-- The state a callback delivers. -/
def Callback.state : Callback → Option NetParse.State
  | onState s => some s
  | _ => none

namespace World

def states (w : World) : List NetParse.State := w.callbacks.filterMap Callback.state

/-- A step that brings no message: it may give up the socket, or take a new one. -/
structure Quiet (w w' : World) : Prop where
  states : w'.states = w.states
  errors : w'.connection.parseErrorCount = w.connection.parseErrorCount
  grows : w.sockets.length ≤ w'.sockets.length
  socket : w'.connection.socket = w.connection.socket ∨ w'.connection.socket = none ∨
    ∃ n, w'.connection.socket = some n ∧ w.sockets.length ≤ n

theorem Quiet.refl (w : World) : Quiet w w := ⟨rfl, rfl, le_rfl, .inl rfl⟩

theorem Quiet.trans {a b c : World} (hab : Quiet a b) (hbc : Quiet b c) : Quiet a c where
  states := hbc.states.trans hab.states
  errors := hbc.errors.trans hab.errors
  grows := hab.grows.trans hbc.grows
  socket := by
    rcases hbc.socket with hsame | hnone | ⟨n, hn, hle⟩
    · rw [hsame]
      exact hab.socket
    · exact .inr (.inl hnone)
    · exact .inr (.inr ⟨n, hn, hab.grows.trans hle⟩)

theorem quiet_emit (w : World) (status : Status) : Quiet w (w.emit (.onStatus status)) :=
  ⟨by simp [World.states, emit, Callback.state], rfl, le_rfl, .inl rfl⟩

theorem quiet_schedule (w : World) : Quiet w w.scheduleReconnect := by
  unfold scheduleReconnect
  dsimp only
  split
  · exact .refl w
  · exact ⟨rfl, rfl, le_rfl, .inl rfl⟩

theorem quiet_open (w : World) (made : Bool) : Quiet w (w.openSocket made) := by
  unfold openSocket
  split
  · exact .refl w
  · refine (quiet_emit w .connecting).trans ?_
    dsimp only
    split
    · refine ⟨rfl, rfl, by simp, .inr (.inr ⟨_, rfl, le_rfl⟩)⟩
    · exact quiet_schedule _

theorem quiet_clear (w : World) : Quiet w w.clearReconnect := by
  unfold clearReconnect
  split <;> exact ⟨rfl, rfl, le_rfl, .inl rfl⟩

theorem quiet_drop (w : World) : Quiet w w.dropSocket := by
  unfold dropSocket
  split
  · exact .refl w
  · exact ⟨rfl, rfl, le_rfl, .inr (.inl rfl)⟩

theorem quiet_step (w : World) {e : Event} (he : ∀ socket data, e ≠ .message socket data) :
    Quiet w (w.step e) := by
  cases e with
  | message socket data => exact absurd rfl (he socket data)
  | close =>
    refine Quiet.trans ?_ ((quiet_clear _).trans (quiet_drop _))
    exact ⟨rfl, rfl, le_rfl, .inl rfl⟩
  | setEndpoint host port made =>
    simp only [step, setEndpoint]
    refine Quiet.trans ?_ (quiet_open _ made)
    have hdropped := (quiet_clear { w with connection := { w.connection with host, port } }).trans
      (quiet_drop _)
    exact ⟨hdropped.states, hdropped.errors, hdropped.grows, hdropped.socket⟩
  | timer timer made =>
    simp only [step, fire]
    split
    · refine Quiet.trans ?_ (quiet_open _ made)
      exact ⟨rfl, rfl, le_rfl, .inl rfl⟩
    · exact .refl w
  | opened socket =>
    simp only [step, onopen]
    split
    · split
      · exact .refl w
      · refine Quiet.trans ?_ (quiet_emit _ .open)
        exact ⟨rfl, rfl, le_rfl, .inl rfl⟩
    · exact .refl w
  | closed socket =>
    simp only [step, onclose]
    split
    · split
      · exact ⟨rfl, rfl, le_rfl, .inl rfl⟩
      · refine Quiet.trans ?_ ((quiet_emit _ .closed).trans (quiet_schedule _))
        exact ⟨rfl, rfl, le_rfl, .inr (.inl rfl)⟩
    · exact .refl w

/-- A step delivers at most one, which it has parsed. -/
theorem step_states (w : World) (e : Event) : (w.step e).states = w.states ∨
    ∃ data s, NetParse.parseStateMessage data = .ok (.state s) ∧
      (w.step e).states = w.states ++ [s] := by
  cases e with
  | message socket data =>
    simp only [World.step, World.onmessage]
    split
    · split
      · exact .inl rfl
      · split
        · exact .inl rfl
        · exact .inl (by simp [World.states, emit, Callback.state])
        · exact .inr ⟨data, _, by assumption, by simp [World.states, emit, Callback.state]⟩
    · exact .inl rfl
  | _ => exact .inl (quiet_step w fun _ _ => Event.noConfusion).states

end World
end NetConnection
