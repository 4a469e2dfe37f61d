import OrbitalViewer.DisInputSource

/-!
# A rejected datagram is invisible

Two facts about a source (`RejectsCleanly`): what it does does not depend on the
counters of received and dropped datagrams, and a datagram it does not accept
changes nothing else. From them, by induction on the run, deleting rejected
datagrams changes no outcome and no snapshot but for those counters.
-/

namespace Olv

/-! ## The store without its counters of received and dropped datagrams -/

def Stats.uncounted (s : Stats) : Stats :=
  { s with udpReceived := 0, bytesReceived := 0, udpDroppedMalformed := 0, udpDroppedStale := 0 }

def StateStore.uncounted (s : StateStore) : StateStore := { s with stats := s.stats.uncounted }

def Snapshot.uncounted (s : Snapshot) : Snapshot := { s with stats := s.stats.uncounted }

namespace StateStore
variable {s s' : StateStore}

theorem uncounted_countDropped (k : DropKind) (s : StateStore) :
    (s.countDropped k).uncounted = s.uncounted := by
  cases k <;> rfl

theorem apply_uncounted (pkt : Proto.StatePacket) (wall mono : Int) (s : StateStore) :
    (s.uncounted.apply pkt wall mono).1 = (s.apply pkt wall mono).1 ∧
      (s.uncounted.apply pkt wall mono).2.uncounted = (s.apply pkt wall mono).2.uncounted := by
  have hstale : s.uncounted.staleSequence pkt.sequence = s.staleSequence pkt.sequence := rfl
  simp only [apply, hstale]
  split <;> exact ⟨rfl, rfl⟩

theorem apply_same (h : s.uncounted = s'.uncounted) (pkt : Proto.StatePacket) (wall mono : Int) :
    (s.apply pkt wall mono).1 = (s'.apply pkt wall mono).1 ∧
      (s.apply pkt wall mono).2.uncounted = (s'.apply pkt wall mono).2.uncounted := by
  have hs := apply_uncounted pkt wall mono s
  have hs' := apply_uncounted pkt wall mono s'
  rw [h] at hs
  exact ⟨hs.1.symm.trans hs'.1, hs.2.symm.trans hs'.2⟩

/-- A packet that is not applied is only counted. -/
theorem apply_stale {pkt : Proto.StatePacket} {wall mono : Int}
    (h : (s.apply pkt wall mono).1 = .kStaleSequence) :
    (s.apply pkt wall mono).2.uncounted = s.uncounted := by
  unfold apply at h ⊢
  split
  · rfl
  · rename_i hfresh
    rw [if_neg hfresh] at h
    cases h

theorem applyTrack_same (h : s.uncounted = s'.uncounted) (u : TrackUpdate) (wall mono : Int) :
    (s.applyTrack u wall mono).uncounted = (s'.applyTrack u wall mono).uncounted := by
  have hs (s : StateStore) : (s.uncounted.applyTrack u wall mono).uncounted =
      (s.applyTrack u wall mono).uncounted := rfl
  exact (hs s).symm.trans (h ▸ hs s')

theorem snapshot_same (h : s.uncounted = s'.uncounted) (mono : Int) :
    (s.snapshot mono).1.uncounted = (s'.snapshot mono).1.uncounted ∧
      (s.snapshot mono).2.uncounted = (s'.snapshot mono).2.uncounted := by
  have hs (s : StateStore) : (s.uncounted.snapshot mono).1.uncounted = (s.snapshot mono).1.uncounted ∧
      (s.uncounted.snapshot mono).2.uncounted = (s.snapshot mono).2.uncounted := ⟨rfl, rfl⟩
  exact ⟨(hs s).1.symm.trans (h ▸ (hs s').1), (hs s).2.symm.trans (h ▸ (hs s').2)⟩

end StateStore

/-! ## The three sources -/

structure RejectsCleanly {M : Type} (process : Datagram → M → StateStore → Processed M) : Prop where
  same (d : Datagram) (m : M) {s s' : StateStore} (h : s.uncounted = s'.uncounted) :
    (process d m s).outcome = (process d m s').outcome ∧
    (process d m s).memory = (process d m s').memory ∧
    (process d m s).store.uncounted = (process d m s').store.uncounted
  rejected (d : Datagram) (m : M) (s : StateStore) (h : (process d m s).outcome ≠ .accepted) :
    (process d m s).memory = m ∧ (process d m s).store.uncounted = s.uncounted

open StateStore

theorem refused_uncounted {M : Type} (o : Outcome) (log : List LogLine) (drop : Option DropKind)
    (m : M) (n : Nat) (s : StateStore) :
    (refused o log drop m (s.countReceived n)).store.uncounted = s.uncounted := by
  cases drop with
  | none => rfl
  | some kind => exact uncounted_countDropped kind _

theorem refused_same {M : Type} {s s' : StateStore} (h : s.uncounted = s'.uncounted) (o : Outcome)
    (log : List LogLine) (drop : Option DropKind) (m : M) (n : Nat) :
    (refused o log drop m (s.countReceived n)).store.uncounted =
      (refused o log drop m (s'.countReceived n)).store.uncounted := by
  rw [refused_uncounted, refused_uncounted, h]

theorem olv1_rejectsCleanly :
    RejectsCleanly fun d (_ : Unit) store => Olv1InputSource.handleDatagram d store where
  same d m s s' h := by
    have hcount : (s.countReceived d.bytes.length).uncounted =
        (s'.countReceived d.bytes.length).uncounted := h
    rcases Olv1InputSource.handleDatagram_cases d with ⟨_, reason, log, heq⟩ | ⟨_, heq⟩
    · rw [heq, heq]
      exact ⟨rfl, rfl, refused_same h _ _ _ _ _⟩
    · obtain ⟨log, hs⟩ := heq s
      obtain ⟨log', hs'⟩ := heq s'
      obtain ⟨hres, hstore⟩ := apply_same hcount (Proto.packetAt d.bytes) d.wall d.mono
      rw [hs, hs']
      exact ⟨by dsimp only; rw [hres], rfl, hstore⟩
  rejected d m s h := by
    rcases Olv1InputSource.handleDatagram_cases d with ⟨_, reason, log, heq⟩ | ⟨_, heq⟩
    · rw [heq]
      exact ⟨rfl, refused_uncounted _ _ _ _ _ _⟩
    · obtain ⟨log, hs⟩ := heq s
      rw [hs] at h ⊢
      refine ⟨rfl, ?_⟩
      by_cases hstale : ((s.countReceived d.bytes.length).apply (Proto.packetAt d.bytes) d.wall
          d.mono).1 = .kStaleSequence
      · exact apply_stale hstale
      · exact absurd (if_neg hstale) h

theorem olv2_rejectsCleanly : RejectsCleanly Olv2InputSource.processDatagram where
  same d m s s' h := by
    have hcount : (s.countReceived d.bytes.length).uncounted =
        (s'.countReceived d.bytes.length).uncounted := h
    rcases Olv2InputSource.processDatagram_cases d m with
      ⟨_, o, log, _, heq⟩ | ⟨pkt, log, _, heq⟩
    · rw [heq, heq]
      exact ⟨rfl, rfl, refused_same h _ _ _ _ _⟩
    · rw [heq, heq]
      exact ⟨rfl, rfl, applyTrack_same hcount _ _ _⟩
  rejected d m s h := by
    rcases Olv2InputSource.processDatagram_cases d m with
      ⟨_, o, log, _, heq⟩ | ⟨pkt, log, _, heq⟩
    · rw [heq]
      exact ⟨rfl, refused_uncounted _ _ _ _ _ _⟩
    · rw [heq] at h
      exact absurd rfl h

theorem dis_rejectsCleanly (unmarshal : List Wire.Byte → Option DisInputSource.EntityStatePdu)
    (cfg : DisInputSource.Config) :
    RejectsCleanly (DisInputSource.processDatagram unmarshal cfg) where
  same d m s s' h := by
    have hcount : (s.countReceived d.bytes.length).uncounted =
        (s'.countReceived d.bytes.length).uncounted := h
    rcases DisInputSource.processDatagram_cases unmarshal cfg d m with
      ⟨_, o, log, _, heq⟩ | ⟨pdu, _, heq⟩
    · rw [heq, heq]
      exact ⟨rfl, rfl, refused_same h _ _ _ _ _⟩
    · rw [heq, heq]
      exact ⟨rfl, rfl, (apply_same hcount _ _ _).2⟩
  rejected d m s h := by
    rcases DisInputSource.processDatagram_cases unmarshal cfg d m with
      ⟨_, o, log, _, heq⟩ | ⟨pdu, _, heq⟩
    · rw [heq]
      exact ⟨rfl, refused_uncounted _ _ _ _ _ _⟩
    · rw [heq] at h
      exact absurd rfl h

theorem makeInputSource_rejectsCleanly
    (unmarshal : List Wire.Byte → Option DisInputSource.EntityStatePdu) (cfg : InputConfig) :
    RejectsCleanly (makeInputSource unmarshal cfg).processDatagram := by
  unfold makeInputSource
  cases cfg.inputMode with
  | kOlv1 => exact olv1_rejectsCleanly
  | kDis => exact dis_rejectsCleanly unmarshal cfg.dis
  | kOlv2 => exact olv2_rejectsCleanly

/-! ## Deleting rejected datagrams from a run -/

def Observation.rejected : Observation → Bool
  | .outcome o => o ≠ .accepted
  | .snapshot _ => false

def Observation.uncounted : Observation → Observation
  | .outcome o => .outcome o
  | .snapshot s => .snapshot s.uncounted

namespace InputSource
variable {src : InputSource}

/-- The events of a run to keep; every other is a datagram that was rejected. -/
def Deletes (s : src.State) : List (Event × Bool) → Prop
  | [] => True
  | (e, keep) :: events =>
    (keep = false → (src.step e s).1.rejected = true) ∧ Deletes (src.step e s).2 events

/-- What the whole run shows at the events to keep. -/
def observeKept (s : src.State) : List (Event × Bool) → List Observation
  | [] => []
  | (e, keep) :: events =>
    if keep then (src.step e s).1 :: observeKept (src.step e s).2 events
    else observeKept (src.step e s).2 events

def allEvents (events : List (Event × Bool)) : List Event := events.map Prod.fst

def keptEvents (events : List (Event × Bool)) : List Event :=
  (events.filter Prod.snd).map Prod.fst

structure Same (s s' : src.State) : Prop where
  memory : s.memory = s'.memory
  store : s.store.uncounted = s'.store.uncounted

theorem step_same (hsrc : RejectsCleanly src.processDatagram) {s s' : src.State} (h : Same s s') (e : Event) :
    (src.step e s).1.uncounted = (src.step e s').1.uncounted ∧
      Same (src.step e s).2 (src.step e s').2 := by
  cases e with
  | datagram d =>
    obtain ⟨ho, hm, hs⟩ := hsrc.same d s.memory h.store
    simp only [step, ← h.memory]
    exact ⟨congrArg Observation.outcome ho, hm, hs⟩
  | snapshot mono =>
    obtain ⟨hshot, hstore⟩ := snapshot_same h.store mono
    exact ⟨congrArg Observation.snapshot hshot, h.memory, hstore⟩

theorem step_rejected (hsrc : RejectsCleanly src.processDatagram) {s s' : src.State} (h : Same s s') {e : Event}
    (hr : (src.step e s).1.rejected = true) : Same (src.step e s).2 s' := by
  cases e with
  | datagram d =>
    obtain ⟨hm, hs⟩ := hsrc.rejected d s.memory s.store (of_decide_eq_true hr)
    exact ⟨hm.trans h.memory, hs.trans h.store⟩
  | snapshot mono => cases hr

theorem run_same (hsrc : RejectsCleanly src.processDatagram) {s s' : src.State} (h : Same s s')
    (events : List (Event × Bool)) (hd : Deletes s events) :
    (observeKept s events).map Observation.uncounted =
      (src.observe s' (keptEvents events)).map Observation.uncounted ∧
    Same (src.run s (allEvents events)) (src.run s' (keptEvents events)) := by
  induction events generalizing s s' with
  | nil => exact ⟨rfl, h⟩
  | cons e events ih =>
    obtain ⟨e, keep⟩ := e
    cases keep with
    | true =>
      obtain ⟨hobs, hsame⟩ := step_same hsrc h e
      obtain ⟨hrest, hfinal⟩ := ih hsame hd.2
      exact ⟨congrArg₂ List.cons hobs hrest, hfinal⟩
    | false => exact ih (step_rejected hsrc h (hd.1 rfl)) hd.2

end InputSource

/-- **A rejected datagram is invisible.** Deleting any of them from a run, in
any mode, leaves every other outcome, every snapshot but for the counters of
received and dropped datagrams, and the source's own memory as they were. -/
theorem rejected_invisible (unmarshal : List Wire.Byte → Option DisInputSource.EntityStatePdu)
    (cfg : InputConfig) (expiry : Int) (events : List (Event × Bool))
    (hd : InputSource.Deletes ((makeInputSource unmarshal cfg).start expiry) events) :
    let src := makeInputSource unmarshal cfg
    let s := src.start expiry
    (InputSource.observeKept s events).map Observation.uncounted =
      (src.observe s (InputSource.keptEvents events)).map Observation.uncounted ∧
    (src.run s (InputSource.allEvents events)).memory =
      (src.run s (InputSource.keptEvents events)).memory ∧
    (src.run s (InputSource.allEvents events)).store.uncounted =
      (src.run s (InputSource.keptEvents events)).store.uncounted := by
  obtain ⟨hobs, hsame⟩ := InputSource.run_same (makeInputSource_rejectsCleanly unmarshal cfg)
    (InputSource.Same.mk rfl rfl) events hd
  exact ⟨hobs, hsame.memory, hsame.store⟩

/-- An empty datagram, deleted, and a snapshot. -/
def emptyDatagramRun : List (Event × Bool) :=
  [(.datagram { bytes := [] }, false), (.snapshot 0, true)]

theorem rejected_invisible_sample :
    let src := makeInputSource (fun _ => none) { inputMode := .kOlv2 }
    (InputSource.observeKept (src.start 15) emptyDatagramRun).map Observation.uncounted =
      (src.observe (src.start 15) [.snapshot 0]).map Observation.uncounted :=
  (rejected_invisible (fun _ => none) { inputMode := .kOlv2 } 15 emptyDatagramRun
    ⟨fun _ => by decide, (fun h => nomatch h), trivial⟩).1

end Olv
