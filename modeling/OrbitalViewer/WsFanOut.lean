import OrbitalViewer.WsServer

/-!
# What every client gets

`Sound` is what holds of the server between any two completions. The set holds
the open sessions, and an open session was offered the hello and every broadcast
since it joined. What a session does touches no other one.
-/

namespace Olv.WsServer
open Ieee (F64)

/-- A session as the server has it. -/
structure Serves (s : Server) (id : Nat) (hello : Text) (joined : Nat) (w : World Text) : Prop where
  sound : World.Sound hello w
  kept : World.Kept w
  greeting : ∃ now, hello = buildHelloMessage now s.broadcastHz
  registered : id ∈ s.sessions ↔ w.session.closed = false
  joined_le : joined ≤ s.broadcasts.length
  offered : w.enqueued <+: hello :: s.broadcasts.drop joined
  current : id ∈ s.sessions → w.enqueued = hello :: s.broadcasts.drop joined

structure Sound (s : Server) : Prop where
  serves : ∀ {id hello joined w}, s.connections id = .live hello joined w → Serves s id hello joined w
  live : ∀ id ∈ s.sessions, ∃ hello joined w, s.connections id = .live hello joined w
  nodup : s.sessions.Nodup
  fresh : ∀ id, s.created ≤ id → s.connections id = .absent
  numbered : s.broadcastSeq = s.broadcasts.length
  waiting : s.waiting ≤ 1 ∧ (s.stopped = false → s.waiting = 1)
  accepting : s.accepting ≤ 1 ∧ (s.stopped = false → s.accepting = 1)

variable {s s' : Server} {id joined : Nat} {hello : Text} {w w' : World Text} {e : Event Text}

/-! ## The set -/

theorem register_quiet {id place : Nat} {asked : List (Effect Text)}
    (h : ∀ f ∈ asked, f.quiet = true) (sessions : List Nat) :
    asked.foldl (register id place) sessions = sessions := by
  induction asked generalizing sessions with
  | nil => rfl
  | cons f asked ih =>
    have hf : register id place sessions f = sessions := by
      have hquiet := h f (.head asked)
      cases f <;> first | rfl | cases hquiet
    rw [List.foldl_cons, hf]
    exact ih (fun f hf => h f (.tail _ hf)) sessions

theorem settle_self (s : Server) (id place : Nat) : s.settle id place (s.connections id) = s := by
  have hnone : (s.connections id).effects.drop (s.connections id).effects.length = [] :=
    List.drop_length
  rw [Server.settle, hnone, Function.update_eq_self]
  rfl

/-- A callback of a live session. -/
theorem callback_live (hid : s.connections id = .live hello joined w) (hstep : w.step e = some w') :
    s.callback id e = some (s.settle id 0 (.live hello joined w')) := by
  rw [Server.callback, hid, Connection.step, hstep]
  rfl

theorem settle_asks {asked : List (Effect Text)}
    (hasked : w.effects = (s.connections id).effects ++ asked) (place : Nat) :
    s.settle id place (.live hello joined w) =
      { s with
        connections := Function.update s.connections id (.live hello joined w)
        sessions := asked.foldl (register id place) s.sessions } := by
  have hdrop : (Connection.live hello joined w).effects.drop (s.connections id).effects.length =
      asked := by
    show w.effects.drop _ = asked
    rw [hasked, List.drop_left]
  rw [Server.settle, hdrop]

/-! ## One connection -/

/-- One connection changes, and the set with it. -/
theorem Sound.put (h : Sound s) {c : Connection} {sessions : List Nat} {created : Nat}
    (hothers : ∀ i ≠ id, i ∈ sessions ↔ i ∈ s.sessions) (hnodup : sessions.Nodup)
    (hlive : id ∈ sessions → ∃ hello joined w, c = .live hello joined w)
    (hserves : ∀ hello joined w, c = .live hello joined w →
      Serves { s with sessions } id hello joined w)
    (hcreated : s.created ≤ created) (hid : id < created) :
    Sound { s with connections := Function.update s.connections id c, sessions, created } where
  serves {i hello joined w} hi := by
    have hsame (hi : Serves { s with sessions } i hello joined w) :
        Serves { s with connections := Function.update s.connections id c, sessions, created }
          i hello joined w :=
      ⟨hi.sound, hi.kept, hi.greeting, hi.registered, hi.joined_le, hi.offered, hi.current⟩
    dsimp only at hi
    by_cases hne : i = id
    · subst hne
      rw [Function.update_self] at hi
      exact hsame (hserves hello joined w hi)
    · rw [Function.update_of_ne hne] at hi
      have hother := h.serves hi
      exact hsame ⟨hother.sound, hother.kept, hother.greeting,
        (hothers i hne).trans hother.registered, hother.joined_le, hother.offered,
        fun hi => hother.current ((hothers i hne).mp hi)⟩
  live i hi := by
    dsimp only at hi ⊢
    by_cases hne : i = id
    · subst hne
      rw [Function.update_self]
      exact hlive hi
    · rw [Function.update_of_ne hne]
      exact h.live i ((hothers i hne).mp hi)
  nodup := hnodup
  fresh i hi := by
    dsimp only at hi ⊢
    rw [Function.update_of_ne (by omega)]
    exact h.fresh i (by omega)
  numbered := h.numbered
  waiting := h.waiting
  accepting := h.accepting

theorem Sound.lt_created (h : Sound s) (hid : s.connections id ≠ .absent) : id < s.created :=
  not_le.mp fun hle => hid (h.fresh id hle)

theorem Sound.not_mem (h : Sound s) (hid : ∀ hello joined w, s.connections id ≠ .live hello joined w) :
    id ∉ s.sessions := by
  intro hmem
  obtain ⟨hello, joined, w, hlive⟩ := h.live id hmem
  exact hid hello joined w hlive

/-- The server after a callback that the session did not get from it. -/
theorem Sound.settle (h : Sound s) (hid : s.connections id = .live hello joined w)
    (he : (∃ ok, e = .wrote ok) ∨ ∃ ok, e = .read ok) (hstep : w.step e = some w') :
    Sound (s.settle id 0 (.live hello joined w')) := by
  have hserves := h.serves hid
  obtain ⟨next, hnext, hsound, hstays⟩ := hserves.sound.step e
  obtain rfl := Option.some.inj (hnext.symm.trans hstep)
  have hkept := hserves.kept.step hserves.sound hstep
  have henqueued : next.enqueued = w.enqueued := by
    rcases World.step_enqueued hstep with heq | ⟨_, frame, rfl, _⟩
    · exact heq
    · rcases he with ⟨ok, hok⟩ | ⟨ok, hok⟩ <;> cases hok
  obtain ⟨asked, hasked, hcases⟩ := World.step_asks hstep
  -- the session is taken out of the set exactly when it was closed now
  obtain ⟨sessions, hsessions, hmem, hnodup⟩ : ∃ sessions,
      asked.foldl (register id 0) s.sessions = sessions ∧
      (∀ i, i ∈ sessions ↔ i ∈ s.sessions ∧ (i = id → next.session.closed = false)) ∧
      sessions.Nodup := by
    rcases hcases with ⟨hquiet, hclosed | ⟨rfl, _⟩⟩ | ⟨rfl, _, hclosed⟩
    · refine ⟨_, register_quiet hquiet _, fun i => ⟨fun hi => ⟨hi, ?_⟩, And.left⟩, h.nodup⟩
      rintro rfl
      exact hclosed.trans (hserves.registered.mp hi)
    · rcases he with ⟨ok, hok⟩ | ⟨ok, hok⟩ <;> cases hok
    · refine ⟨s.sessions.erase id, rfl, fun i => ?_, h.nodup.erase id⟩
      rw [h.nodup.mem_erase_iff, hclosed]
      simp [and_comm]
  have hregistered : id ∈ sessions ↔ next.session.closed = false := by
    refine (hmem id).trans ⟨fun hi => hi.2 rfl, fun hopen => ⟨?_, fun _ => hopen⟩⟩
    refine hserves.registered.mpr ?_
    cases hc : w.session.closed with
    | false => rfl
    | true => exact absurd ((hstays hc).symm.trans hopen) (by decide)
  rw [settle_asks (by rw [hid]; exact hasked) 0, hsessions]
  refine h.put (fun i hi => (hmem i).trans ⟨And.left, fun hmem => ⟨hmem, fun heq => absurd heq hi⟩⟩)
    hnodup (fun _ => ⟨hello, joined, next, rfl⟩) ?_ le_rfl (h.lt_created (by rw [hid]; simp))
  rintro _ _ _ ⟨⟩
  exact ⟨hsound, hkept, hserves.greeting, hregistered, hserves.joined_le,
    henqueued ▸ hserves.offered, fun hi => henqueued ▸ hserves.current ((hmem id).mp hi).1⟩

/-- A write or a read of any connection completes. -/
theorem Sound.callback (h : Sound s) (id : Nat)
    (he : (∃ ok, e = .wrote ok) ∨ ∃ ok, e = .read ok) :
    ∃ s', s.callback id e = some s' ∧ Sound s' := by
  have hidle (hnot : (s.connections id).step e = some (s.connections id)) :
      ∃ s', s.callback id e = some s' ∧ Sound s' := by
    refine ⟨s, ?_, h⟩
    rw [Server.callback, hnot, Option.map_some, settle_self]
  cases hid : s.connections id with
  | live hello joined w =>
    obtain ⟨w', hstep, _⟩ := (h.serves hid).sound.step e
    exact ⟨_, callback_live hid hstep, h.settle hid he hstep⟩
  | absent => exact hidle (by rw [hid]; rfl)
  | handshaking => exact hidle (by rw [hid]; rfl)
  | dropped => exact hidle (by rw [hid]; rfl)

/-! ## A handshake -/

theorem accepted_eq (hello : Text) : World.accepted hello = some {
    session := { outbox := [hello], writing := true }
    inFlight := [hello]
    enqueued := [hello]
    effects := [.insertSession, .asyncWrite hello, .asyncRead] } := by
  have hlimit := World.enforce_within (s := ({ outbox := [hello] } : Session Text))
    (by simp [kMaxQueuedFrames])
  have hsend : ({} : Session Text).send hello =
      some ({ outbox := [hello], writing := true }, [.asyncWrite hello]) := by
    rw [Session.send, if_neg (by simp)]
    simp only [List.nil_append, hlimit]
    simp [Session.doWrite]
  simp [World.accepted, Session.onAccept, hsend, World.perform, Effect.started, List.filterMap]

theorem mem_insert {place i : Nat} {sessions : List Nat} :
    i ∈ sessions.take place ++ id :: sessions.drop place ↔ i = id ∨ i ∈ sessions := by
  have hsplit : i ∈ sessions ↔ i ∈ sessions.take place ∨ i ∈ sessions.drop place := by
    rw [← List.mem_append, List.take_append_drop]
  rw [List.mem_append, List.mem_cons, hsplit]
  exact or_left_comm

/-- The session starts with the hello, and is registered. -/
theorem Sound.onAccept (h : Sound s) (hid : s.connections id = .handshaking) (ok : Bool) (now : Int)
    (place : Nat) : ∃ s', s.onAccept id ok now place = some s' ∧ Sound s' := by
  have hlt : id < s.created := h.lt_created (by rw [hid]; simp)
  have hnot : id ∉ s.sessions := h.not_mem (by rw [hid]; simp)
  cases ok with
  | false =>
    refine ⟨_, rfl, h.put (fun _ _ => Iff.rfl) h.nodup (fun hmem => absurd hmem hnot) ?_ le_rfl hlt⟩
    rintro _ _ _ ⟨⟩
  | true =>
    obtain ⟨w, hw, hsound⟩ := World.accepted_sound (buildHelloMessage now s.broadcastHz)
    obtain rfl := Option.some.inj (hw.symm.trans (accepted_eq _))
    have hmem (i : Nat) := @mem_insert id place i s.sessions
    have hasked (hello : Text) : [.insertSession, .asyncWrite hello, .asyncRead] =
        (s.connections id).effects ++ [.insertSession, .asyncWrite hello, .asyncRead] := by
      rw [hid]
      rfl
    refine ⟨_, congrArg (Option.map _) hw, ?_⟩
    dsimp only
    rw [settle_asks (hasked _) place]
    refine h.put (fun i hi => (hmem i).trans (or_iff_right hi)) ?_ (fun _ => ⟨_, _, _, rfl⟩) ?_
      le_rfl hlt
    · show (s.sessions.take place ++ id :: s.sessions.drop place).Nodup
      rw [List.nodup_middle, List.take_append_drop]
      exact List.nodup_cons.mpr ⟨hnot, h.nodup⟩
    · rintro _ _ _ ⟨⟩
      refine ⟨hsound, ⟨fun hw => absurd hw (by simp), fun _ => rfl⟩, ⟨now, rfl⟩,
        (hmem id).trans ⟨fun _ => rfl, fun _ => .inl rfl⟩, le_rfl, ?_, fun _ => ?_⟩
      · rw [List.drop_length]
      · rw [List.drop_length]

/-! ## All sessions at once -/

/-- Sending and closing ask nothing of the set. -/
theorem step_quiet {c c' : Connection} (he : (∃ msg, e = .send msg) ∨ e = .close)
    (hstep : c.step e = some c') :
    ∃ asked, c'.effects = c.effects ++ asked ∧ ∀ f ∈ asked, f.quiet = true := by
  have hidle (h : some c = some c') :
      ∃ asked, c'.effects = c.effects ++ asked ∧ ∀ f ∈ asked, f.quiet = true := by
    obtain rfl := Option.some.inj h
    exact ⟨[], (List.append_nil _).symm, fun f hf => absurd hf List.not_mem_nil⟩
  cases c with
  | live hello joined w =>
    obtain ⟨w', hw, rfl⟩ := Option.map_eq_some_iff.mp hstep
    rcases he with ⟨msg, rfl⟩ | rfl
    · obtain ⟨r, hr, rfl⟩ := Option.map_eq_some_iff.mp hw
      exact ⟨r.2, rfl, (Session.send_quiet hr).2⟩
    · obtain rfl := Option.some.inj hw
      refine ⟨w.session.close.2, rfl, fun f hf => ?_⟩
      unfold Session.close at hf
      split at hf
      · exact absurd hf List.not_mem_nil
      · rw [List.mem_singleton.mp hf]
        rfl
  | absent => exact hidle hstep
  | handshaking => exact hidle hstep
  | dropped => exact hidle hstep

/-- A round of such callbacks steps the connections and leaves all else. -/
theorem round_eq (he : (∃ msg, e = .send msg) ∨ e = .close) (ids : List Nat) (s : Server) :
    ids.foldlM (fun s id => s.callback id e) s =
      (Family.each (Connection.step e) ids s.connections).map fun connections =>
        { s with connections } := by
  induction ids generalizing s with
  | nil => rfl
  | cons id ids ih =>
    have hone : s.callback id e = (Family.stepAt (Connection.step e) s.connections id).map
        fun connections => { s with connections } := by
      rw [Server.callback, Family.stepAt, Option.map_map]
      refine Option.map_congr fun c hc => ?_
      obtain ⟨asked, hasked, hquiet⟩ := step_quiet he (Option.mem_def.mp hc)
      rw [Server.settle, hasked, List.drop_left, register_quiet hquiet]
      rfl
    rw [List.foldlM_cons, hone, Family.each, List.foldlM_cons]
    cases Family.stepAt (Connection.step e) s.connections id with
    | none => rfl
    | some connections => exact ih _

/-- **A round reaches every session once**, whatever the order of the set. -/
theorem Sound.round (h : Sound s) (e : Event Text) :
    ∃ connections, Family.each (Connection.step e) s.sessions s.connections = some connections ∧
      (∀ id ∈ s.sessions, ∃ hello joined w w', s.connections id = .live hello joined w ∧
        w.step e = some w' ∧ connections id = .live hello joined w') ∧
      ∀ id ∉ s.sessions, connections id = s.connections id := by
  have hsteps (id : Nat) (hid : id ∈ s.sessions) : ∃ hello joined w w',
      s.connections id = .live hello joined w ∧ w.step e = some w' := by
    obtain ⟨hello, joined, w, hlive⟩ := h.live id hid
    obtain ⟨w', hw, _⟩ := (h.serves hlive).sound.step e
    exact ⟨hello, joined, w, w', hlive, hw⟩
  obtain ⟨connections, heach, hin, hout⟩ := @Family.each_eq _ _ _ (Connection.step e) _
    s.connections h.nodup fun id hid => by
      obtain ⟨hello, joined, w, w', hlive, hw⟩ := hsteps id hid
      exact ⟨.live hello joined w', by rw [hlive, Connection.step, hw]; rfl⟩
  refine ⟨connections, heach, fun id hid => ?_, hout⟩
  obtain ⟨hello, joined, w, w', hlive, hw⟩ := hsteps id hid
  have hnext := hin id hid
  rw [hlive, Connection.step, hw] at hnext
  exact ⟨hello, joined, w, w', hlive, hw, (Option.some.inj hnext).symm⟩

theorem Sound.round_fresh (h : Sound s) {connections : Nat → Connection}
    (hout : ∀ id ∉ s.sessions, connections id = s.connections id) (id : Nat)
    (hid : s.created ≤ id) : connections id = .absent := by
  have hnot : id ∉ s.sessions := fun hmem => by
    obtain ⟨hello, joined, w, hlive⟩ := h.live id hmem
    exact absurd (hlive.symm.trans (h.fresh id hid)) (by simp)
  exact (hout id hnot).trans (h.fresh id hid)

/-- The server after a broadcast, before the timer is armed again. -/
def Server.told (msg : Text) (connections : Nat → Connection) (s : Server) : Server :=
  { s with
    broadcastSeq := s.broadcastSeq + 1
    broadcasts := s.broadcasts ++ [msg]
    connections }

/-- The broadcast is offered to the open sessions and to no other. -/
theorem Sound.told (h : Sound s) (msg : Text) :
    ∃ connections, Family.each (Connection.step (.send msg)) s.sessions s.connections =
        some connections ∧ Sound (s.told msg connections) := by
  obtain ⟨connections, heach, hin, hout⟩ := h.round (.send msg)
  refine ⟨connections, heach, ?_⟩
  have hdrop {joined : Nat} (hle : joined ≤ s.broadcasts.length) :
      (s.broadcasts ++ [msg]).drop joined = s.broadcasts.drop joined ++ [msg] :=
    List.drop_append_of_le_length hle
  refine ⟨fun {id hello joined w} hid => ?_, fun id hid => ?_, h.nodup, h.round_fresh hout, ?_,
    h.waiting, h.accepting⟩
  · by_cases hmem : id ∈ s.sessions
    · obtain ⟨hello', joined', before, after, hlive, hstep, hafter⟩ := hin id hmem
      cases hid.symm.trans hafter
      have hserves := h.serves hlive
      have hopen := hserves.registered.mp hmem
      obtain ⟨next, hnext, hsound, _⟩ := hserves.sound.step (.send msg)
      obtain rfl := Option.some.inj (hnext.symm.trans hstep)
      obtain ⟨sent, hsent, _, hsopen, _, _, henqueued⟩ := hserves.sound.send hopen msg
      obtain rfl := Option.some.inj (hsent.symm.trans hstep)
      have hall : sent.enqueued = hello :: (s.broadcasts ++ [msg]).drop joined := by
        rw [henqueued, hserves.current hmem, hdrop hserves.joined_le]
        rfl
      refine ⟨hsound, hserves.kept.step hserves.sound hstep, hserves.greeting,
        ⟨fun _ => hsopen, fun _ => hmem⟩, ?_, ?_, fun _ => hall⟩
      · exact hserves.joined_le.trans (by simp [Server.told])
      · exact hall ▸ List.prefix_refl _
    · have hserves := h.serves ((hout id hmem).symm.trans hid)
      refine ⟨hserves.sound, hserves.kept, hserves.greeting, hserves.registered, ?_, ?_,
        fun hin => absurd hin hmem⟩
      · exact hserves.joined_le.trans (by simp [Server.told])
      · refine hserves.offered.trans ?_
        show _ <+: hello :: (s.broadcasts ++ [msg]).drop joined
        rw [hdrop hserves.joined_le]
        exact List.prefix_append (hello :: s.broadcasts.drop joined) [msg]
  · obtain ⟨hello, joined, _, w', _, _, hlive⟩ := hin id hid
    exact ⟨hello, joined, w', hlive⟩
  · simp [Server.told, h.numbered]

theorem Server.tick_eq (h : s.stopped = false) (snap : Snapshot) (now : Int) :
    s.broadcastTick snap now =
      (Family.each (Connection.step (.send (s.stateMessage snap now))) s.sessions s.connections).map
        fun connections => (s.told (s.stateMessage snap now) connections).armTimer := by
  rw [broadcastTick, if_neg (by simp [h])]
  dsimp only
  rw [round_eq (.inl ⟨_, rfl⟩)]
  cases Family.each (Connection.step (.send (s.stateMessage snap now))) s.sessions s.connections with
  | none => rfl
  | some connections => rfl

theorem step_close (hstep : w.step .close = some w') : w'.session.closed = true := by
  obtain rfl := Option.some.inj hstep
  cases hc : w.session.closed with
  | true => simp [World.perform, Session.close, hc]
  | false => simp [World.perform, Session.close, hc]

/-- The sessions that were registered are closed. -/
theorem Sound.stop (h : Sound s) : ∃ s', s.stop = some s' ∧ Sound s' := by
  cases hstopped : s.stopped with
  | true => exact ⟨s, by simp [Server.stop, hstopped], h⟩
  | false =>
    obtain ⟨connections, heach, hin, hout⟩ := h.round .close
    have hstop : s.stop = some { s with stopped := true, connections, sessions := [] } := by
      rw [Server.stop, if_neg (by simp [hstopped]), round_eq (.inr rfl), heach]
      rfl
    refine ⟨_, hstop, fun {id hello joined w} hid => ?_, fun id hid => absurd hid List.not_mem_nil,
      List.nodup_nil, h.round_fresh hout, h.numbered, ⟨h.waiting.1, fun hopen => ?_⟩,
      ⟨h.accepting.1, fun hopen => ?_⟩⟩
    · by_cases hmem : id ∈ s.sessions
      · obtain ⟨hello', joined', before, after, hlive, hstep, hafter⟩ := hin id hmem
        cases hid.symm.trans hafter
        have hserves := h.serves hlive
        obtain ⟨next, hnext, hsound, _⟩ := hserves.sound.step .close
        obtain rfl := Option.some.inj (hnext.symm.trans hstep)
        have henqueued : next.enqueued = before.enqueued := by
          rcases World.step_enqueued hstep with heq | ⟨_, frame, hsend, _⟩
          · exact heq
          · cases hsend
        refine ⟨hsound, hserves.kept.step hserves.sound hstep, hserves.greeting, ?_,
          hserves.joined_le, henqueued ▸ hserves.offered, fun hin => absurd hin List.not_mem_nil⟩
        rw [step_close hstep]
        simp
      · have hserves := h.serves ((hout id hmem).symm.trans hid)
        have hclosed : ¬ w.session.closed = false := fun hopen => hmem (hserves.registered.mpr hopen)
        exact ⟨hserves.sound, hserves.kept, hserves.greeting,
          ⟨fun hin => absurd hin List.not_mem_nil, fun hopen => absurd hopen hclosed⟩,
          hserves.joined_le, hserves.offered, fun hin => absurd hin List.not_mem_nil⟩
    · cases hopen
    · cases hopen

/-! ## Runs -/

theorem Sound.counters (h : Sound s) {accepting waiting : Nat}
    (haccepting : accepting ≤ 1 ∧ (s.stopped = false → accepting = 1))
    (hwaiting : waiting ≤ 1 ∧ (s.stopped = false → waiting = 1)) :
    Sound { s with accepting, waiting } :=
  ⟨fun hid => ⟨(h.serves hid).sound, (h.serves hid).kept, (h.serves hid).greeting,
      (h.serves hid).registered, (h.serves hid).joined_le, (h.serves hid).offered,
      (h.serves hid).current⟩,
    h.live, h.nodup, h.fresh, h.numbered, hwaiting, haccepting⟩

/-- The timer is armed again, unless the server was stopped. -/
theorem Sound.expired (h : Sound s) (snap : Snapshot) (now : Int) :
    ∃ s', s.step (.expired snap now) = some s' ∧ Sound s' ∧
      s'.broadcasts = s.broadcasts ++ if s.stopped then [] else [s.stateMessage snap now] := by
  cases hstopped : s.stopped with
  | false =>
    obtain ⟨connections, heach, hsound⟩ := h.told (s.stateMessage snap now)
    have hone : s.waiting = 1 := h.waiting.2 hstopped
    refine ⟨s.told (s.stateMessage snap now) connections, ?_, hsound, rfl⟩
    rw [Server.step, if_neg (by omega), Server.tick_eq (s := { s with waiting := s.waiting - 1 })
      hstopped]
    have hsame : ({ s with waiting := s.waiting - 1 } : Server).stateMessage snap now =
        s.stateMessage snap now := rfl
    rw [hsame, heach, Option.map_some, Server.armTimer, if_neg (by simp [Server.told, hstopped])]
    simp [Server.told, hone]
  | true =>
    rw [Server.step]
    by_cases hidle : s.waiting = 0
    · exact ⟨s, if_pos hidle, h, by simp⟩
    · refine ⟨{ s with waiting := s.waiting - 1 }, ?_, h.counters h.accepting ⟨?_, ?_⟩, by simp⟩
      · rw [if_neg hidle]
        exact if_pos hstopped
      · have := h.waiting.1
        omega
      · intro hopen
        exact absurd (hopen.symm.trans hstopped) (by decide)

/-- The next accept is started, unless the server was stopped. -/
theorem Sound.onSocket (h : Sound s) (socket : Bool) (hpending : s.accepting ≠ 0) :
    Sound (s.onSocket socket) := by
  have hone : s.accepting = 1 := by
    have := h.accepting.1
    omega
  obtain ⟨taken, htaken, hstopped, heq⟩ : ∃ taken, Sound taken ∧ taken.stopped = s.stopped ∧
      s.onSocket socket = { taken with accepting := if s.stopped then 0 else 1 } := by
    cases socket with
    | false =>
      refine ⟨s, h, rfl, ?_⟩
      cases hstopped : s.stopped <;> simp [Server.onSocket, Server.doAccept, hstopped, hone]
    | true =>
      refine ⟨{ s with
        created := s.created + 1
        connections := Function.update s.connections s.created .handshaking }, ?_, rfl, ?_⟩
      · refine h.put (fun _ _ => Iff.rfl) h.nodup (fun hmem => ?_) ?_ (Nat.le_succ _)
          (Nat.lt_succ_self s.created)
        · exact absurd hmem (h.not_mem (by rw [h.fresh _ le_rfl]; simp))
        · rintro _ _ _ ⟨⟩
      · cases hstopped : s.stopped <;> simp [Server.onSocket, Server.doAccept, hstopped, hone]
  rw [heq]
  refine htaken.counters ⟨by split <;> omega, fun hopen => ?_⟩ htaken.waiting
  rw [← hstopped, hopen]
  rfl

/-- **One completion** goes wrong in no session, and the server stays sound. -/
theorem Sound.step (h : Sound s) (c : Server.Completion) : ∃ s', s.step c = some s' ∧ Sound s' := by
  cases c with
  | accepted socket =>
    refine ⟨_, rfl, ?_⟩
    split
    · exact h
    · exact h.onSocket socket (by assumption)
  | acceptAborted =>
    refine ⟨_, rfl, ?_⟩
    split
    · exact h
    · rename_i hnot
      obtain ⟨_, hstopped⟩ := not_or.mp hnot
      refine h.counters ⟨?_, fun hopen => absurd hopen (by simpa using hstopped)⟩ h.waiting
      have := h.accepting.1
      omega
  | handshake id ok now place =>
    rw [Server.step]
    cases hid : s.connections id with
    | handshaking => exact h.onAccept hid ok now place
    | absent => exact ⟨s, rfl, h⟩
    | dropped => exact ⟨s, rfl, h⟩
    | live hello joined w => exact ⟨s, rfl, h⟩
  | wrote id ok => exact h.callback id (.inl ⟨ok, rfl⟩)
  | read id ok => exact h.callback id (.inr ⟨ok, rfl⟩)
  | expired snap now =>
    obtain ⟨s', hstep, hsound, _⟩ := h.expired snap now
    exact ⟨s', hstep, hsound⟩
  | timerCancelled =>
    refine ⟨_, rfl, ?_⟩
    split
    · exact h
    · rename_i hnot
      obtain ⟨_, hstopped⟩ := not_or.mp hnot
      refine h.counters h.accepting ⟨?_, fun hopen => absurd hopen (by simpa using hstopped)⟩
      have := h.waiting.1
      omega
  | stop => exact h.stop

theorem start_sound (broadcastHz : F64) : Sound (Server.start broadcastHz) :=
  ⟨fun hid => absurd hid (by simp [Server.start, Server.armTimer, Server.doAccept]),
    fun _ hid => absurd hid List.not_mem_nil, List.nodup_nil, fun _ _ => rfl, rfl,
    ⟨le_rfl, fun _ => rfl⟩, ⟨le_rfl, fun _ => rfl⟩⟩

/-- **A run.** -/
theorem Sound.run (h : Sound s) (completions : List Server.Completion) :
    ∃ s', completions.foldlM Server.step s = some s' ∧ Sound s' := by
  induction completions generalizing s with
  | nil => exact ⟨s, rfl, h⟩
  | cons c completions ih =>
    obtain ⟨next, hstep, hnext⟩ := h.step c
    obtain ⟨s', hrun, hs'⟩ := ih hnext
    refine ⟨s', ?_, hs'⟩
    rw [List.foldlM_cons, hstep]
    exact hrun

end Olv.WsServer
