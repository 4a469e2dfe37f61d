import OrbitalViewer.Connection

/-!
# The endpoint of a connection

Until it is closed, the connection is at its endpoint: the socket it has was made
for the host and port that it was given last, and the status it reported last is
true of that socket.
-/

namespace NetConnection

def Callback.status : Callback → Option Status
  | onStatus status => some status
  | _ => none

/-- `ws://${_host}:${_port}/` -/
def Connection.url (c : Connection) : String := "ws://" ++ c.host ++ ":" ++ toString c.port ++ "/"

/-- An event of the browser, not a call. -/
def Event.browser : Event → Bool
  | .close => false
  | .setEndpoint _ _ _ => false
  | _ => true

namespace World

/-- The status reported last. -/
def status (w : World) : Option Status := (w.callbacks.filterMap Callback.status).getLast?

/-- The status is true, and the socket is for the endpoint. -/
structure Live (w : World) : Prop where
  running : w.connection.stopped = false
  aimed : ∀ i, w.connection.socket = some i → w.sockets[i]? = some w.connection.url
  opened : w.status = some .open → w.connection.socket ≠ none ∧ w.connection.backoffIndex = 0
  closed : w.status = some .closed → w.connection.socket = none

variable {w : World}

theorem status_emit (w : World) (status : Status) : (w.emit (.onStatus status)).status = some status := by
  simp [World.status, emit, Callback.status]

theorem status_emit_other (w : World) {c : Callback} (hc : c.status = none) :
    (w.emit c).status = w.status := by
  simp [World.status, emit, hc]

theorem status_congr {w' : World} (h : w'.callbacks = w.callbacks) : w'.status = w.status :=
  congrArg (fun cs : List Callback => (cs.filterMap Callback.status).getLast?) h

theorem scheduleReconnect_keeps (w : World) :
    w.scheduleReconnect.connection.socket = w.connection.socket ∧
      w.scheduleReconnect.connection.stopped = w.connection.stopped ∧
      w.scheduleReconnect.connection.url = w.connection.url ∧
      w.scheduleReconnect.sockets = w.sockets := by
  unfold World.scheduleReconnect
  dsimp only
  split <;> exact ⟨rfl, rfl, rfl, rfl⟩

/-- An attempt to connect, with no socket before it. -/
theorem live_open (hrunning : w.connection.stopped = false) (hnone : w.connection.socket = none)
    (made : Bool) : Live (w.openSocket made) ∧ (w.openSocket made).connection.url = w.connection.url ∧
      (w.openSocket made).callbacks = w.callbacks ++ [.onStatus .connecting] ∧
      w.sockets.length ≤ (w.openSocket made).sockets.length ∧
      ∀ i, (w.openSocket made).connection.socket = some i → w.sockets.length ≤ i := by
  have hstatus : ∀ w' : World, w'.callbacks = w.callbacks ++ [.onStatus .connecting] →
      w'.status = some .connecting := by
    intro w' hw'
    simp [World.status, hw', Callback.status]
  unfold World.openSocket
  rw [if_neg (by simp [hrunning])]
  dsimp only
  cases made with
  | true =>
    rw [if_pos rfl]
    refine ⟨⟨hrunning, ?_, ?_, ?_⟩, rfl, rfl, by simp [emit], fun i hi => (Option.some.inj hi).le⟩
    · intro i hi
      obtain rfl : w.sockets.length = i := Option.some.inj hi
      exact List.getElem?_concat_length
    · intro hopen
      exact absurd ((hstatus _ rfl).symm.trans hopen) (by decide)
    · intro hclosed
      exact absurd ((hstatus _ rfl).symm.trans hclosed) (by decide)
  | false =>
    rw [if_neg (by decide)]
    obtain ⟨hsocket, hstopped, hurl, hsockets⟩ :=
      scheduleReconnect_keeps (w.emit (.onStatus .connecting))
    have hcallbacks := scheduleReconnect_callbacks (w.emit (.onStatus .connecting))
    have hconnecting := hstatus _ hcallbacks
    have hnoSocket : ∀ i, (w.emit (.onStatus .connecting)).scheduleReconnect.connection.socket ≠
        some i := by
      intro i hi
      cases hnone.symm.trans (hsocket.symm.trans hi)
    refine ⟨⟨hstopped.trans hrunning, fun i hi => absurd hi (hnoSocket i), ?_, ?_⟩, hurl, hcallbacks,
      (congrArg List.length hsockets).ge, fun i hi => absurd hi (hnoSocket i)⟩
    · intro hopen
      exact absurd (hconnecting.symm.trans hopen) (by decide)
    · intro hclosed
      exact absurd (hconnecting.symm.trans hclosed) (by decide)

theorem live_setEndpoint (h : Tracked w) (host : String) (port : ℕ) (made : Bool) :
    Live (w.setEndpoint host port made) ∧
      (w.setEndpoint host port made).connection.url = ({ host, port } : Connection).url ∧
      (w.setEndpoint host port made).callbacks = w.callbacks ++ [.onStatus .connecting] ∧
      w.sockets.length ≤ (w.setEndpoint host port made).sockets.length ∧
      ∀ i, (w.setEndpoint host port made).connection.socket = some i → w.sockets.length ≤ i := by
  have htracked : Tracked { w with connection := { w.connection with host, port } } :=
    ⟨h.pending, h.others⟩
  have hkept : ∀ w' : World, w'.clearReconnect.dropSocket.connection.url = w'.connection.url ∧
      w'.clearReconnect.dropSocket.sockets = w'.sockets := by
    intro w'
    unfold World.dropSocket World.clearReconnect
    split <;> split <;> exact ⟨rfl, rfl⟩
  obtain ⟨hurl, hsockets⟩ := hkept { w with connection := { w.connection with host, port } }
  have hopen := fun (dropped : World) (hnone : dropped.connection.socket = none) =>
    live_open (w := { dropped with connection := { dropped.connection with
      backoffIndex := 0, stopped := false } }) rfl hnone made
  obtain ⟨hlive, hopened, hcallbacks, hgrows, hnew⟩ := hopen _ htracked.dropped.no_socket
  have hlength := (congrArg List.length hsockets).ge
  refine ⟨hlive, hopened.trans hurl, hcallbacks.trans ?_, hlength.trans hgrows,
    fun i hi => hlength.trans (hnew i hi)⟩
  exact congrArg (· ++ [.onStatus .connecting])
    ((dropSocket_callbacks _).trans (clearReconnect_callbacks _))

theorem Live.fire (hsound : Sound w) (h : Live w) (timer : ℕ) (made : Bool) :
    Live (w.fire timer made) ∧ (w.fire timer made).connection.url = w.connection.url := by
  unfold World.fire
  split
  · rename_i hany
    have hwaiting : w.connection.reconnectTimer ≠ none := by
      intro hnone
      have hpending := hsound.pending
      rw [hnone] at hpending
      rw [List.map_eq_nil_iff.mp hpending] at hany
      cases hany
    obtain ⟨hlive, hurl, _⟩ := live_open (w := { w with
      connection := { w.connection with reconnectTimer := none }
      timers := w.timers.filter fun t => t.1 ≠ timer }) h.running (hsound.waiting hwaiting).1 made
    exact ⟨hlive, hurl⟩
  · exact ⟨h, rfl⟩

theorem Live.onopen (h : Live w) (socket : ℕ) :
    Live (w.onopen socket) ∧ (w.onopen socket).connection.url = w.connection.url := by
  unfold World.onopen
  split
  · exact ⟨h, rfl⟩
  · rename_i hcurrent
    have hsocket : w.connection.socket = some socket := not_not.mp hcurrent
    have hstatus := status_emit { w with connection := { w.connection with backoffIndex := 0 } } .open
    refine ⟨⟨h.running, h.aimed, fun _ => ⟨?_, rfl⟩, fun hclosed => ?_⟩, rfl⟩
    · show w.connection.socket ≠ none
      rw [hsocket]
      exact Option.some_ne_none socket
    · exact absurd (hstatus.symm.trans hclosed) (by decide)

theorem Live.of_eq {w' : World} (h : Live w) (hconnection : w'.connection.stopped = w.connection.stopped)
    (hsocket : w'.connection.socket = w.connection.socket)
    (hbackoff : w'.connection.backoffIndex = w.connection.backoffIndex)
    (hurl : w'.connection.url = w.connection.url) (hsockets : w'.sockets = w.sockets)
    (hstatus : w'.status = w.status) : Live w' where
  running := hconnection.trans h.running
  aimed i hi := by
    rw [hsockets, hurl]
    exact h.aimed i (hsocket ▸ hi)
  opened hopen := by
    rw [hsocket, hbackoff]
    exact h.opened (hstatus.symm.trans hopen)
  closed hclosed := hsocket.trans (h.closed (hstatus.symm.trans hclosed))

theorem Live.onmessage (h : Live w) (socket : ℕ) (data : List Char) :
    Live (w.onmessage socket data) ∧ (w.onmessage socket data).connection.url = w.connection.url := by
  unfold World.onmessage
  split
  · exact ⟨h, rfl⟩
  · split
    · exact ⟨h.of_eq rfl rfl rfl rfl rfl (status_congr rfl), rfl⟩
    · exact ⟨h.of_eq rfl rfl rfl rfl rfl (status_emit_other w rfl), rfl⟩
    · exact ⟨h.of_eq rfl rfl rfl rfl rfl (status_emit_other w rfl), rfl⟩

theorem Live.onclose (h : Live w) (socket : ℕ) :
    Live (w.onclose socket) ∧ (w.onclose socket).connection.url = w.connection.url := by
  unfold World.onclose
  dsimp only
  split
  · exact ⟨h.of_eq rfl rfl rfl rfl rfl (status_congr rfl), rfl⟩
  · obtain ⟨hsocket, hstopped, hurl, _⟩ := scheduleReconnect_keeps
      (({ w with closed := w.closed ++ [socket], connection := { w.connection with socket := none } } :
        World).emit (.onStatus .closed))
    have hstatus := status_congr (scheduleReconnect_callbacks
      (({ w with closed := w.closed ++ [socket], connection := { w.connection with socket := none } } :
        World).emit (.onStatus .closed)))
    refine ⟨⟨hstopped.trans h.running, ?_, ?_, fun _ => hsocket⟩, hurl⟩
    · intro i hi
      cases hsocket.symm.trans hi
    · intro hopen
      rw [hstatus, status_emit] at hopen
      cases hopen

theorem Live.step (hsound : Sound w) (h : Live w) {e : Event} (he : e.browser = true) :
    Live (w.step e) ∧ (w.step e).connection.url = w.connection.url := by
  cases e with
  | close => cases he
  | setEndpoint host port made => cases he
  | timer timer made => exact h.fire hsound timer made
  | opened socket =>
    simp only [World.step]
    split
    · exact h.onopen socket
    · exact ⟨h, rfl⟩
  | message socket data =>
    simp only [World.step]
    split
    · exact h.onmessage socket data
    · exact ⟨h, rfl⟩
  | closed socket =>
    simp only [World.step]
    split
    · exact h.onclose socket
    · exact ⟨h, rfl⟩

end World
end NetConnection
