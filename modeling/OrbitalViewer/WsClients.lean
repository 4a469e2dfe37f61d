import OrbitalViewer.WsFanOut

/-!
# The clients of a run

What the invariant of the server says of whole runs: what each client gets, that
a client sees nothing of the others, and what is left to happen after `stop`.
-/

namespace Olv.WsServer
open Ieee (F64)
open Server (Completion)

variable {s s' : Server} {c : Completion}

/-! ## What a completion leaves alone -/

/-- What a completion adds to the broadcasts. -/
def Server.adds (s : Server) : Completion → List Text
  | .expired snap now => if s.waiting = 0 ∨ s.stopped then [] else [s.stateMessage snap now]
  | _ => []

theorem callback_frame {id : Nat} {e : Event Text} (hstep : s.callback id e = some s') :
    s'.broadcastHz = s.broadcastHz ∧ s'.stopped = s.stopped ∧ s'.broadcasts = s.broadcasts ∧
      s'.created = s.created ∧ s'.accepting = s.accepting := by
  obtain ⟨c, _, rfl⟩ := Option.map_eq_some_iff.mp hstep
  exact ⟨rfl, rfl, rfl, rfl, rfl⟩

/-- The history grows by `adds`, and only `stop` stops the server. -/
theorem step_frame (hstep : s.step c = some s') :
    s'.broadcastHz = s.broadcastHz ∧ (s'.stopped = true ↔ s.stopped = true ∨ c = .stop) ∧
      s'.broadcasts = s.broadcasts ++ s.adds c := by
  have hsame (h : s'.broadcastHz = s.broadcastHz ∧ s'.stopped = s.stopped ∧
      s'.broadcasts = s.broadcasts) (hadds : s.adds c = []) (hc : c = .stop → s.stopped = true) :
      s'.broadcastHz = s.broadcastHz ∧ (s'.stopped = true ↔ s.stopped = true ∨ c = .stop) ∧
        s'.broadcasts = s.broadcasts ++ s.adds c := by
    refine ⟨h.1, ?_, by rw [hadds, List.append_nil, h.2.2]⟩
    rw [h.2.1]
    exact ⟨.inl, fun hs => hs.elim id hc⟩
  cases c with
  | accepted socket =>
    obtain rfl := Option.some.inj hstep
    refine hsame ?_ rfl (by simp)
    split
    · exact ⟨rfl, rfl, rfl⟩
    · cases socket <;> cases hs : s.stopped <;> simp [Server.onSocket, Server.doAccept, hs]
  | acceptAborted =>
    obtain rfl := Option.some.inj hstep
    refine hsame ?_ rfl (by simp)
    split <;> exact ⟨rfl, rfl, rfl⟩
  | handshake id ok now place =>
    refine hsame ?_ rfl (by simp)
    rw [Server.step] at hstep
    cases hid : s.connections id with
    | handshaking =>
      rw [hid] at hstep
      cases ok with
      | false => exact Option.some.inj hstep ▸ ⟨rfl, rfl, rfl⟩
      | true =>
        obtain ⟨w, _, rfl⟩ := Option.map_eq_some_iff.mp hstep
        exact ⟨rfl, rfl, rfl⟩
    | absent =>
      rw [hid] at hstep
      exact Option.some.inj hstep ▸ ⟨rfl, rfl, rfl⟩
    | dropped =>
      rw [hid] at hstep
      exact Option.some.inj hstep ▸ ⟨rfl, rfl, rfl⟩
    | live hello joined w =>
      rw [hid] at hstep
      exact Option.some.inj hstep ▸ ⟨rfl, rfl, rfl⟩
  | wrote id ok =>
    obtain ⟨hhz, hstopped, hbroadcasts, _⟩ := callback_frame hstep
    exact hsame ⟨hhz, hstopped, hbroadcasts⟩ rfl (by simp)
  | read id ok =>
    obtain ⟨hhz, hstopped, hbroadcasts, _⟩ := callback_frame hstep
    exact hsame ⟨hhz, hstopped, hbroadcasts⟩ rfl (by simp)
  | expired snap now =>
    rw [Server.step] at hstep
    by_cases hidle : s.waiting = 0
    · rw [if_pos hidle] at hstep
      exact hsame (Option.some.inj hstep ▸ ⟨rfl, rfl, rfl⟩) (if_pos (.inl hidle)) (by simp)
    · rw [if_neg hidle] at hstep
      by_cases hstopped : s.stopped = true
      · rw [Server.broadcastTick, if_pos hstopped] at hstep
        exact hsame (Option.some.inj hstep ▸ ⟨rfl, rfl, rfl⟩) (if_pos (.inr hstopped)) (by simp)
      · have hopen : s.stopped = false := by simpa using hstopped
        have hadds : s.adds (.expired snap now) = [s.stateMessage snap now] :=
          if_neg (by simp [hidle, hopen])
        rw [Server.tick_eq (s := { s with waiting := s.waiting - 1 }) hopen] at hstep
        obtain ⟨connections, _, rfl⟩ := Option.map_eq_some_iff.mp hstep
        rw [hadds, Server.armTimer, if_neg (by simp [Server.told, hopen])]
        refine ⟨rfl, ⟨fun hs => absurd hs (by simp [Server.told, hopen]), fun hs => ?_⟩, rfl⟩
        rcases hs with hs | hs
        · exact absurd hs hstopped
        · cases hs
  | timerCancelled =>
    obtain rfl := Option.some.inj hstep
    refine hsame ?_ rfl (by simp)
    split <;> exact ⟨rfl, rfl, rfl⟩
  | stop =>
    rw [Server.step] at hstep
    by_cases hstopped : s.stopped = true
    · rw [Server.stop, if_pos hstopped] at hstep
      exact hsame (Option.some.inj hstep ▸ ⟨rfl, rfl, rfl⟩) rfl fun _ => hstopped
    · rw [Server.stop, if_neg hstopped, round_eq (.inr rfl)] at hstep
      obtain ⟨t, ht, rest⟩ := Option.bind_eq_some_iff.mp hstep
      obtain ⟨connections, _, rfl⟩ := Option.map_eq_some_iff.mp ht
      obtain rfl := Option.some.inj rest
      exact ⟨rfl, ⟨fun _ => .inr rfl, fun _ => rfl⟩, (List.append_nil _).symm⟩

theorem run_frame {s s' : Server} {completions : List Completion}
    (hrun : completions.foldlM Server.step s = some s') :
    s'.broadcastHz = s.broadcastHz ∧
      (s'.stopped = true ↔ s.stopped = true ∨ .stop ∈ completions) := by
  induction completions generalizing s with
  | nil => exact Option.some.inj hrun ▸ ⟨rfl, by simp⟩
  | cons c completions ih =>
    rw [List.foldlM_cons] at hrun
    obtain ⟨next, hstep, hrest⟩ := Option.bind_eq_some_iff.mp hrun
    obtain ⟨hhz, hstopped, _⟩ := step_frame hstep
    obtain ⟨hhz', hstopped'⟩ := ih hrest
    refine ⟨hhz'.trans hhz, hstopped'.trans ?_⟩
    rw [hstopped, List.mem_cons, or_assoc, @eq_comm _ c]

/-- **What a client gets**, whatever completes in whatever order. Nothing goes
wrong in any session. A client was written the hello first and then broadcasts
made since it joined, in their order and none twice; with at most one write
outstanding and the outbox bounded. The set holds the open sessions, and what
was offered to one of them is written or queued until an overflow is logged. -/
theorem fan_out (broadcastHz : F64) (completions : List Completion) :
    ∃ s, Server.run broadcastHz completions = some s ∧ s.broadcastSeq = s.broadcasts.length ∧
      s.sessions.Nodup ∧
      (∀ id ∈ s.sessions, ∃ hello joined w, s.connections id = .live hello joined w) ∧
      ∀ id hello joined w, s.connections id = .live hello joined w →
        (∃ now, hello = buildHelloMessage now broadcastHz) ∧
        w.written.Sublist (hello :: s.broadcasts.drop joined) ∧
        (∀ frame ∈ w.written.head?, frame = hello) ∧
        w.inFlight.length ≤ 1 ∧ w.session.outbox.length ≤ kMaxQueuedFrames ∧
        (id ∈ s.sessions ↔ w.session.closed = false) ∧
        (id ∈ s.sessions → .warnOverflow ∉ w.effects →
          w.written ++ w.session.outbox = hello :: s.broadcasts.drop joined) := by
  obtain ⟨s, hrun, h⟩ := (start_sound broadcastHz).run completions
  refine ⟨s, hrun, h.numbered, h.nodup, h.live, fun id hello joined w hid => ?_⟩
  have hserves := h.serves hid
  have hwritten : w.written.Sublist w.enqueued :=
    (List.sublist_append_left _ _).trans hserves.sound.sublist
  refine ⟨?_, hwritten.trans hserves.offered.sublist, fun frame hframe => ?_, ?_,
    hserves.sound.length_le, hserves.registered, fun hmem hkept => ?_⟩
  · obtain ⟨now, hnow⟩ := hserves.greeting
    exact ⟨now, hnow.trans (congrArg (buildHelloMessage now) (run_frame hrun).1)⟩
  · rcases hserves.sound.first with hhead | ⟨hnil, _⟩
    · exact Option.some.inj ((Option.mem_def.mp hframe).symm.trans hhead)
    · simp [hnil] at hframe
  · rw [hserves.sound.inFlight_eq]
    split
    · exact List.length_take_le 1 _
    · exact Nat.zero_le _
  · rw [hserves.kept.kept hkept, hserves.current hmem]

/-! ## One client among the others -/

/-- What a session sees of a completion. -/
def Server.sees (s : Server) (id : Nat) : Completion → List (Event Text)
  | .wrote i ok => if i = id then [.wrote ok] else []
  | .read i ok => if i = id then [.read ok] else []
  | .expired snap now => if id ∈ s.sessions then (s.adds (.expired snap now)).map .send else []
  | .stop => if s.stopped ∨ id ∉ s.sessions then [] else [.close]
  | _ => []

/-- What a session sees of a run. -/
def Server.view (id : Nat) (s : Server) : List Completion → List (Event Text)
  | [] => []
  | c :: completions => s.sees id c ++ (s.step c).elim [] fun s' => s'.view id completions

/-- What a completion makes of a connection: a live one takes what it sees, and
only its handshake makes one live. -/
inductive Becomes (s : Server) (c : Completion) (id : Nat) (s' : Server) : Prop where
  | lives {hello : Text} {joined : Nat} {w w' : World Text}
      (before : s.connections id = .live hello joined w)
      (after : s'.connections id = .live hello joined w')
      (steps : (s.sees id c).foldlM World.step w = some w')
  | joins {now : Int} {place : Nat} {w : World Text} (handshake : c = .handshake id true now place)
      (before : s.connections id = .handshaking)
      (greeted : World.accepted (buildHelloMessage now s.broadcastHz) = some w)
      (after : s'.connections id =
        .live (buildHelloMessage now s.broadcastHz) s.broadcasts.length w)
  | apart (before : ∀ hello joined w, s.connections id ≠ .live hello joined w)
      (after : ∀ hello joined w, s'.connections id ≠ .live hello joined w)

theorem Becomes.unchanged {id : Nat} (hsame : s'.connections id = s.connections id)
    (hsees : s.sees id c = []) : Becomes s c id s' := by
  by_cases hlive : ∃ hello joined w, s.connections id = .live hello joined w
  · obtain ⟨hello, joined, w, hid⟩ := hlive
    exact .lives hid (hsame.trans hid) (by rw [hsees]; rfl)
  · have hnot (hello : Text) (joined : Nat) (w : World Text) :
        s.connections id ≠ .live hello joined w := fun hid => hlive ⟨hello, joined, w, hid⟩
    exact .apart hnot fun hello joined w hid => hnot hello joined w (hsame.symm.trans hid)

/-- A callback of one session. -/
theorem Becomes.callback {i id : Nat} {e : Event Text} (hsees : s.sees id c = if i = id then [e] else [])
    (hstep : s.callback i e = some s') : Becomes s c id s' := by
  obtain ⟨next, hnext, rfl⟩ := Option.map_eq_some_iff.mp hstep
  by_cases hi : i = id
  · subst hi
    rw [if_pos rfl] at hsees
    have hafter : (s.settle i 0 next).connections i = next := Function.update_self ..
    cases hid : s.connections i with
    | live hello joined w =>
      rw [hid] at hnext
      obtain ⟨w', hw, rfl⟩ := Option.map_eq_some_iff.mp hnext
      exact .lives hid hafter (by rw [hsees, List.foldlM_cons, hw]; rfl)
    | absent =>
      rw [hid] at hnext
      obtain rfl := Option.some.inj hnext
      exact .apart (by simp [hid]) (by simp [hafter])
    | handshaking =>
      rw [hid] at hnext
      obtain rfl := Option.some.inj hnext
      exact .apart (by simp [hid]) (by simp [hafter])
    | dropped =>
      rw [hid] at hnext
      obtain rfl := Option.some.inj hnext
      exact .apart (by simp [hid]) (by simp [hafter])
  · exact .unchanged (Function.update_of_ne (Ne.symm hi) ..) (hsees.trans (if_neg hi))

/-- A round of callbacks. -/
theorem Becomes.round (h : Sound s) {id : Nat} {e : Event Text} {connections : Nat → Connection}
    (heach : Family.each (Connection.step e) s.sessions s.connections = some connections)
    (hafter : s'.connections = connections) (hsees : s.sees id c = if id ∈ s.sessions then [e] else []) :
    Becomes s c id s' := by
  obtain ⟨connections', heach', hin, hout⟩ := h.round e
  obtain rfl := Option.some.inj (heach'.symm.trans heach)
  by_cases hid : id ∈ s.sessions
  · rw [if_pos hid] at hsees
    obtain ⟨hello, joined, w, w', hlive, hstep, hlive'⟩ := hin id hid
    exact .lives hlive (hafter ▸ hlive') (by rw [hsees, List.foldlM_cons, hstep]; rfl)
  · exact .unchanged (hafter ▸ hout id hid) (hsees.trans (if_neg hid))

theorem Sound.becomes (h : Sound s) (hstep : s.step c = some s') (id : Nat) : Becomes s c id s' := by
  cases c with
  | accepted socket =>
    obtain rfl := Option.some.inj hstep
    split
    · exact .unchanged rfl rfl
    · cases socket with
      | false =>
        refine .unchanged ?_ rfl
        cases hs : s.stopped <;> simp [Server.onSocket, Server.doAccept, hs]
      | true =>
        have hconnections : (s.onSocket true).connections =
            Function.update s.connections s.created .handshaking := by
          cases hs : s.stopped <;> simp [Server.onSocket, Server.doAccept, hs]
        by_cases hid : id = s.created
        · subst hid
          refine .apart (by simp [h.fresh _ le_rfl]) ?_
          rw [hconnections, Function.update_self]
          simp
        · exact .unchanged (by rw [hconnections, Function.update_of_ne hid]) rfl
  | acceptAborted =>
    obtain rfl := Option.some.inj hstep
    split <;> exact .unchanged rfl rfl
  | handshake i ok now place =>
    rw [Server.step] at hstep
    cases hi : s.connections i with
    | handshaking =>
      rw [hi] at hstep
      cases ok with
      | false =>
        obtain rfl := Option.some.inj hstep
        by_cases hid : id = i
        · subst hid
          exact .apart (by simp [hi]) (by simp)
        · exact .unchanged (Function.update_of_ne hid ..) rfl
      | true =>
        obtain ⟨w, hw, rfl⟩ := Option.map_eq_some_iff.mp hstep
        by_cases hid : id = i
        · subst hid
          exact .joins rfl hi hw (Function.update_self ..)
        · exact .unchanged (Function.update_of_ne hid ..) rfl
    | absent =>
      rw [hi] at hstep
      exact Option.some.inj hstep ▸ .unchanged rfl rfl
    | dropped =>
      rw [hi] at hstep
      exact Option.some.inj hstep ▸ .unchanged rfl rfl
    | live hello joined w =>
      rw [hi] at hstep
      exact Option.some.inj hstep ▸ .unchanged rfl rfl
  | wrote i ok => exact .callback rfl hstep
  | read i ok => exact .callback rfl hstep
  | expired snap now =>
    rw [Server.step] at hstep
    by_cases hidle : s.waiting = 0
    · rw [if_pos hidle] at hstep
      refine Option.some.inj hstep ▸ .unchanged rfl ?_
      simp [Server.sees, Server.adds, hidle]
    · rw [if_neg hidle] at hstep
      by_cases hstopped : s.stopped = true
      · rw [Server.broadcastTick, if_pos hstopped] at hstep
        refine Option.some.inj hstep ▸ .unchanged rfl ?_
        simp [Server.sees, Server.adds, hstopped]
      · have hopen : s.stopped = false := by simpa using hstopped
        rw [Server.tick_eq (s := { s with waiting := s.waiting - 1 }) hopen] at hstep
        obtain ⟨connections, heach, rfl⟩ := Option.map_eq_some_iff.mp hstep
        refine .round h heach ?_ ?_
        · rw [Server.armTimer, if_neg (by simp [Server.told, hopen])]
          rfl
        · simp only [Server.sees, Server.adds, hidle, hopen, Bool.false_eq_true, or_self, if_false]
          rfl
  | timerCancelled =>
    obtain rfl := Option.some.inj hstep
    split <;> exact .unchanged rfl rfl
  | stop =>
    rw [Server.step] at hstep
    by_cases hstopped : s.stopped = true
    · rw [Server.stop, if_pos hstopped] at hstep
      exact Option.some.inj hstep ▸ .unchanged rfl (if_pos (.inl hstopped))
    · rw [Server.stop, if_neg hstopped, round_eq (.inr rfl)] at hstep
      obtain ⟨t, ht, rest⟩ := Option.bind_eq_some_iff.mp hstep
      obtain ⟨connections, heach, rfl⟩ := Option.map_eq_some_iff.mp ht
      obtain rfl := Option.some.inj rest
      refine .round h heach rfl ?_
      by_cases hid : id ∈ s.sessions
      · rw [if_pos hid]
        exact if_neg (by simp [hstopped, hid])
      · rw [if_neg hid]
        exact if_pos (.inr hid)

theorem view_append {completions : List Completion} (hrun : completions.foldlM Server.step s = some s')
    (id : Nat) (c : Completion) :
    s.view id (completions ++ [c]) = s.view id completions ++ s'.sees id c := by
  induction completions generalizing s with
  | nil =>
    obtain rfl := Option.some.inj hrun
    cases hstep : s.step c <;> simp [Server.view, hstep]
  | cons d completions ih =>
    rw [List.foldlM_cons] at hrun
    obtain ⟨next, hstep, hrest⟩ := Option.bind_eq_some_iff.mp hrun
    rw [List.cons_append, Server.view, Server.view, hstep, Option.elim_some, Option.elim_some,
      ih hrest, List.append_assoc]

theorem run_append {completions : List Completion} {broadcastHz : F64}
    (hrun : Server.run broadcastHz completions = some s) (after : List Completion) :
    Server.run broadcastHz (completions ++ after) = after.foldlM Server.step s := by
  rw [Server.run, List.foldlM_append, show completions.foldlM Server.step _ = _ from hrun]
  rfl

/-- **A client sees nothing of the others.** Each session is the session that runs
alone from its handshake, on its own completions, the broadcasts and `stop`. -/
theorem isolated (broadcastHz : F64) (completions : List Completion) :
    ∃ s, Server.run broadcastHz completions = some s ∧
      ∀ id hello joined w, s.connections id = .live hello joined w →
        ∃ before now place after joining,
          completions = before ++ [.handshake id true now place] ++ after ∧
          Server.run broadcastHz (before ++ [.handshake id true now place]) = some joining ∧
          hello = buildHelloMessage now broadcastHz ∧ joined = joining.broadcasts.length ∧
          World.run hello (joining.view id after) = some w := by
  induction completions using List.reverseRecOn with
  | nil =>
    refine ⟨_, rfl, fun id hello joined w hid => ?_⟩
    exact absurd hid (by simp [Server.start, Server.armTimer, Server.doAccept])
  | append_singleton completions c ih =>
    obtain ⟨s, hrun, ih⟩ := ih
    have hsound : Sound s := by
      obtain ⟨t, ht, hsound⟩ := (start_sound broadcastHz).run completions
      exact Option.some.inj (ht.symm.trans hrun) ▸ hsound
    obtain ⟨s', hstep, _⟩ := hsound.step c
    have hrun' : Server.run broadcastHz (completions ++ [c]) = some s' := by
      rw [run_append hrun, List.foldlM_cons, hstep]
      rfl
    refine ⟨s', hrun', fun id hello joined w hid => ?_⟩
    cases hsound.becomes hstep id with
    | @lives hello' joined' before after hbefore hafter hsteps =>
      cases hid.symm.trans hafter
      obtain ⟨early, now, place, late, joining, hsplit, hjoining, hhello, hjoined, halone⟩ :=
        ih id hello joined before hbefore
      refine ⟨early, now, place, late ++ [c], joining, ?_, hjoining, hhello, hjoined, ?_⟩
      · rw [hsplit, List.append_assoc]
      · have hlate : late.foldlM Server.step joining = some s := by
          rw [← run_append hjoining, ← hsplit, hrun]
        obtain ⟨w₀, hw₀, hlater⟩ := Option.bind_eq_some_iff.mp halone
        rw [view_append hlate, World.run, hw₀, Option.bind_some, List.foldlM_append, hlater]
        exact hsteps
    | @joins now place w' hc hbefore hgreeted hafter =>
      cases hid.symm.trans hafter
      have hhz : s.broadcastHz = broadcastHz := (run_frame hrun).1
      subst hc
      refine ⟨completions, now, place, [], s', (List.append_nil _).symm, hrun', by rw [hhz], ?_, ?_⟩
      · rw [(step_frame hstep).2.2]
        simp [Server.adds]
      · rw [World.run, hgreeted]
        rfl
    | apart _ hnot => exact absurd hid (hnot hello joined w)

/-! ## After `stop` -/

/-- What is left to a connection of a server that was stopped: a session gets no
frame any more, and one whose handshake was late gets the hello alone. -/
inductive Ends (c c' : Connection) : Prop where
  | lasts {hello : Text} {joined : Nat} {w w' : World Text}
      (before : c = .live hello joined w) (after : c' = .live hello joined w')
      (closed : w.session.closed = true → w'.session.closed = true)
      (enqueued : w'.enqueued = w.enqueued)
  | late {hello : Text} {joined : Nat} {w : World Text}
      (before : ∀ hello joined w, c ≠ .live hello joined w) (after : c' = .live hello joined w)
      (enqueued : w.enqueued = [hello])
  | apart (before : ∀ hello joined w, c ≠ .live hello joined w)
      (after : ∀ hello joined w, c' ≠ .live hello joined w)

theorem Ends.refl (c : Connection) : Ends c c := by
  by_cases hlive : ∃ hello joined w, c = .live hello joined w
  · obtain ⟨hello, joined, w, rfl⟩ := hlive
    exact .lasts rfl rfl id rfl
  · have hnot (hello : Text) (joined : Nat) (w : World Text) : c ≠ .live hello joined w :=
      fun hc => hlive ⟨hello, joined, w, hc⟩
    exact .apart hnot hnot

theorem Ends.trans {a b c : Connection} (hab : Ends a b) (hbc : Ends b c) : Ends a c := by
  cases hbc with
  | apart hb hc =>
    cases hab with
    | lasts _ hafter => exact absurd hafter (hb _ _ _)
    | late _ hafter => exact absurd hafter (hb _ _ _)
    | apart ha _ => exact .apart ha hc
  | late hb hc henqueued =>
    cases hab with
    | lasts _ hafter => exact absurd hafter (hb _ _ _)
    | late _ hafter => exact absurd hafter (hb _ _ _)
    | apart ha _ => exact .late ha hc henqueued
  | lasts hb hc hclosed henqueued =>
    cases hab with
    | lasts ha hafter hclosed' henqueued' =>
      cases hafter.symm.trans hb
      exact .lasts ha hc (fun h => hclosed (hclosed' h)) (henqueued.trans henqueued')
    | late ha hafter henqueued' =>
      cases hafter.symm.trans hb
      exact .late ha hc (henqueued.trans henqueued')
    | apart ha hafter => exact absurd hb (hafter _ _ _)

/-- A stopped server sends nothing. -/
theorem sees_stopped (hstopped : s.stopped = true) (id : Nat) (c : Completion) :
    s.sees id c = [] ∨ ∃ e, s.sees id c = [e] ∧ ∀ frame, e ≠ .send frame := by
  have hone (i : Nat) (e : Event Text) (he : ∀ frame, e ≠ .send frame) :
      (if i = id then [e] else []) = [] ∨
        ∃ e', (if i = id then [e] else []) = [e'] ∧ ∀ frame, e' ≠ .send frame := by
    by_cases hi : i = id
    · exact .inr ⟨e, if_pos hi, he⟩
    · exact .inl (if_neg hi)
  cases c with
  | wrote i ok => exact hone i (.wrote ok) (by simp)
  | read i ok => exact hone i (.read ok) (by simp)
  | expired snap now => exact .inl (by simp [Server.sees, Server.adds, hstopped])
  | stop => exact .inl (if_pos (.inl hstopped))
  | accepted socket => exact .inl rfl
  | acceptAborted => exact .inl rfl
  | handshake i ok now place => exact .inl rfl
  | timerCancelled => exact .inl rfl

theorem Sound.ends (h : Sound s) (hstopped : s.stopped = true) (hstep : s.step c = some s')
    (id : Nat) : Ends (s.connections id) (s'.connections id) := by
  cases h.becomes hstep id with
  | apart hbefore hafter => exact .apart hbefore hafter
  | @joins now place w hc hbefore hgreeted hafter =>
    obtain rfl := Option.some.inj (hgreeted.symm.trans (accepted_eq _))
    exact .late (by simp [hbefore]) hafter rfl
  | @lives hello joined w w' hbefore hafter hsteps =>
    rcases sees_stopped hstopped id c with hnone | ⟨e, hone, he⟩
    · rw [hnone] at hsteps
      obtain rfl := Option.some.inj hsteps
      exact .lasts hbefore hafter (fun hclosed => hclosed) rfl
    · rw [hone, List.foldlM_cons] at hsteps
      obtain ⟨next, hnext, hrest⟩ := Option.bind_eq_some_iff.mp hsteps
      obtain rfl := Option.some.inj hrest
      obtain ⟨t, ht, _, hstays⟩ := (h.serves hbefore).sound.step e
      obtain rfl := Option.some.inj (ht.symm.trans hnext)
      refine .lasts hbefore hafter hstays ?_
      rcases World.step_enqueued hnext with heq | ⟨_, frame, hsend, _⟩
      · exact heq
      · exact absurd hsend (he frame)

/-- What is outstanding runs out. -/
theorem pending_step (hstopped : s.stopped = true) (hstep : s.step c = some s') :
    s'.created + s'.accepting ≤ s.created + s.accepting ∧ s'.waiting ≤ s.waiting := by
  have hcallback {id : Nat} {e : Event Text} (h : s.callback id e = some s') :
      s'.created + s'.accepting ≤ s.created + s.accepting ∧ s'.waiting ≤ s.waiting := by
    obtain ⟨c, _, rfl⟩ := Option.map_eq_some_iff.mp h
    exact ⟨le_rfl, le_rfl⟩
  cases c with
  | accepted socket =>
    obtain rfl := Option.some.inj hstep
    split
    · exact ⟨le_rfl, le_rfl⟩
    · cases socket
      · simp only [Server.onSocket, hstopped, if_true, Bool.false_eq_true, if_false]
        omega
      · simp only [Server.onSocket, hstopped, if_true]
        omega
  | acceptAborted =>
    obtain rfl := Option.some.inj hstep
    split
    · exact ⟨le_rfl, le_rfl⟩
    · dsimp only
      omega
  | handshake id ok now place =>
    rw [Server.step] at hstep
    cases hid : s.connections id with
    | handshaking =>
      rw [hid] at hstep
      cases ok with
      | false => exact Option.some.inj hstep ▸ ⟨le_rfl, le_rfl⟩
      | true =>
        obtain ⟨w, _, rfl⟩ := Option.map_eq_some_iff.mp hstep
        exact ⟨le_rfl, le_rfl⟩
    | absent =>
      rw [hid] at hstep
      exact Option.some.inj hstep ▸ ⟨le_rfl, le_rfl⟩
    | dropped =>
      rw [hid] at hstep
      exact Option.some.inj hstep ▸ ⟨le_rfl, le_rfl⟩
    | live hello joined w =>
      rw [hid] at hstep
      exact Option.some.inj hstep ▸ ⟨le_rfl, le_rfl⟩
  | wrote id ok => exact hcallback hstep
  | read id ok => exact hcallback hstep
  | expired snap now =>
    rw [Server.step] at hstep
    split at hstep
    · exact Option.some.inj hstep ▸ ⟨le_rfl, le_rfl⟩
    · rw [Server.broadcastTick, if_pos hstopped] at hstep
      exact Option.some.inj hstep ▸ ⟨le_rfl, Nat.sub_le _ 1⟩
  | timerCancelled =>
    obtain rfl := Option.some.inj hstep
    split
    · exact ⟨le_rfl, le_rfl⟩
    · exact ⟨le_rfl, Nat.sub_le _ 1⟩
  | stop =>
    rw [Server.step, Server.stop, if_pos hstopped] at hstep
    exact Option.some.inj hstep ▸ ⟨le_rfl, le_rfl⟩

theorem Sound.run_stopped (h : Sound s) (hstopped : s.stopped = true) (completions : List Completion) :
    ∃ s', completions.foldlM Server.step s = some s' ∧ s'.broadcasts = s.broadcasts ∧
      s'.created + s'.accepting ≤ s.created + s.accepting ∧ s'.waiting ≤ s.waiting ∧
      ∀ id, Ends (s.connections id) (s'.connections id) := by
  induction completions generalizing s with
  | nil => exact ⟨s, rfl, rfl, le_rfl, le_rfl, fun id => .refl _⟩
  | cons c completions ih =>
    obtain ⟨next, hstep, hsound⟩ := h.step c
    obtain ⟨_, hstays, hbroadcasts⟩ := step_frame hstep
    have hadds : s.adds c = [] := by
      cases c <;> simp [Server.adds, hstopped]
    obtain ⟨haccepts, hwaits⟩ := pending_step hstopped hstep
    obtain ⟨s', hrun, hsame, haccepts', hwaits', hends⟩ := ih hsound (hstays.mpr (.inl hstopped))
    refine ⟨s', ?_, hsame.trans ?_, haccepts'.trans haccepts, hwaits'.trans hwaits,
      fun id => (h.ends hstopped hstep id).trans (hends id)⟩
    · rw [List.foldlM_cons, hstep]
      exact hrun
    · rw [hbroadcasts, hadds, List.append_nil]

/-- **After `stop`** there is no broadcast, whatever still completes. The sessions
that were open are closed and get nothing more. At most the accept that was
outstanding takes a socket, and a client whose handshake completes that late is
sent the hello and nothing else. -/
theorem stopped_for_good (broadcastHz : F64) (before after : List Completion) :
    ∃ s s', Server.run broadcastHz (before ++ [.stop]) = some s ∧
      Server.run broadcastHz (before ++ [.stop] ++ after) = some s' ∧
      s'.broadcasts = s.broadcasts ∧ s'.created + s'.accepting ≤ s.created + 1 ∧
      s'.waiting ≤ 1 ∧ (∀ id, Ends (s.connections id) (s'.connections id)) ∧
      (.stop ∉ before → s.sessions = [] ∧ ∀ id hello joined w,
        s.connections id = .live hello joined w → w.session.closed = true) := by
  obtain ⟨t, hbefore, ht⟩ := (start_sound broadcastHz).run before
  obtain ⟨s, hstep, hs⟩ := ht.step .stop
  have hrun : Server.run broadcastHz (before ++ [.stop]) = some s := by
    rw [run_append hbefore, List.foldlM_cons, hstep]
    rfl
  have hstopped : s.stopped = true := (step_frame hstep).2.1.mpr (.inr rfl)
  obtain ⟨s', hafter, hsame, haccepts, hwaits, hends⟩ := hs.run_stopped hstopped after
  refine ⟨s, s', hrun, (run_append hrun after).trans hafter, hsame,
    haccepts.trans (Nat.add_le_add_left hs.accepting.1 _), hwaits.trans hs.waiting.1, hends,
    fun hfirst => ?_⟩
  have hopen : ¬ t.stopped = true := fun hopen =>
    ((run_frame hbefore).2.mp hopen).elim (fun h => absurd h (by simp [Server.start, Server.armTimer, Server.doAccept])) hfirst
  have hempty : s.sessions = [] := by
    rw [Server.step, Server.stop, if_neg hopen, round_eq (.inr rfl)] at hstep
    obtain ⟨u, _, hu⟩ := Option.bind_eq_some_iff.mp hstep
    exact Option.some.inj hu ▸ rfl
  refine ⟨hempty, fun id hello joined w hid => ?_⟩
  by_contra hclosed
  have hmem := (hs.serves hid).registered.mpr (by simpa using hclosed)
  rw [hempty] at hmem
  exact List.not_mem_nil hmem

end Olv.WsServer
