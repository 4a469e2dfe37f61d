import OrbitalViewer.DisInputSource
import OrbitalViewer.StateStoreHistory

/-!
# The receive thread and the broadcast thread

A datagram costs the receive thread two critical sections of the store:
`countReceived`, and at most one call more once it is decoded. Snapshots fall
before, between and after them. `World` is the state of both threads; its
history of calls is what the store has been through (`run_calls`).
-/

namespace Olv
open StateStore (Call)

def settle (call : Option Call) (s : StateStore) : StateStore := call.elim s fun c => c.step s

/-- The calls that decide what became of a datagram. -/
def StateStore.Call.decides : Call → Bool
  | .countDropped _ | .apply .. | .applyTrack .. => true
  | .countReceived _ | .snapshot _ => false

/-- A source's processing cut where it lets go of the store. Neither part depends
on what the store holds. -/
structure CriticalSections (src : InputSource) where
  outcome : Datagram → src.Memory → Option Call
  remember : Datagram → src.Memory → src.Memory
  decides : ∀ d m, ∀ c ∈ outcome d m, c.decides = true
  processDatagram_eq : ∀ d m store,
    (src.processDatagram d m store).memory = remember d m ∧
    (src.processDatagram d m store).store = settle (outcome d m) (store.countReceived d.bytes.length)

/-! ## The three sources -/

theorem refused_settle {M : Type} (o : Outcome) (log : List LogLine) (drop : Option DropKind) (m : M)
    (received : StateStore) :
    (refused o log drop m received).store = settle (drop.map Call.countDropped) received := by
  cases drop <;> rfl

theorem dropped_decides {drop : Option DropKind} :
    ∀ c ∈ drop.map Call.countDropped, c.decides = true := by
  cases drop <;> simp [Call.decides]

def olv1Sections : CriticalSections olv1InputSource where
  outcome d _ :=
    some (if Proto.verdict d.bytes = .kNone then .apply (Proto.packetAt d.bytes) d.wall d.mono
      else .countDropped .kMalformed)
  remember _ m := m
  decides d m c hc := by
    obtain rfl := Option.some.inj hc
    split <;> rfl
  processDatagram_eq d m store := by
    refine ⟨rfl, ?_⟩
    rcases Olv1InputSource.handleDatagram_cases d with ⟨hv, reason, log, heq⟩ | ⟨hv, heq⟩
    · rw [if_neg hv]
      exact congrArg Processed.store (heq store)
    · obtain ⟨log, hs⟩ := heq store
      rw [if_pos hv]
      exact congrArg Processed.store hs

namespace Olv2InputSource

def outcome (d : Datagram) (m : Memory) : Call :=
  match admitted d m with
  | some pkt => .applyTrack (updateOf pkt) d.wall d.mono
  | none => .countDropped (dropKind d)

def remember (d : Datagram) (m : Memory) : Memory :=
  match admitted d m with
  | some pkt =>
    { lastT := m.lastT.insert pkt.trackId (newest pkt).t, lastSatId := some pkt.satId }
  | none => m

end Olv2InputSource

def olv2Sections : CriticalSections olv2InputSource where
  outcome d m := some (Olv2InputSource.outcome d m)
  remember := Olv2InputSource.remember
  decides d m c hc := by
    obtain rfl := Option.some.inj hc
    unfold Olv2InputSource.outcome
    split <;> rfl
  processDatagram_eq d m store := by
    unfold Olv2InputSource.outcome Olv2InputSource.remember
    rcases Olv2InputSource.processDatagram_cases d m with ⟨hadm, o, log, _, heq⟩ | ⟨pkt, log, hadm, heq⟩
    · rw [hadm]
      exact ⟨congrArg Processed.memory (heq store), congrArg Processed.store (heq store)⟩
    · rw [hadm]
      exact ⟨congrArg Processed.memory (heq store), congrArg Processed.store (heq store)⟩

namespace DisInputSource
variable (unmarshal : List Wire.Byte → Option EntityStatePdu) (cfg : Config)

def outcome (d : Datagram) (m : Memory) : Option Call :=
  match admitted unmarshal cfg d.bytes m with
  | some pdu => some (.apply (packetFor cfg pdu m) d.wall d.mono)
  | none => (dropKind unmarshal cfg d.bytes).map Call.countDropped

def remember (d : Datagram) (m : Memory) : Memory :=
  match admitted unmarshal cfg d.bytes m with
  | some pdu =>
    memoryAfter cfg pdu { m with lastTs := m.lastTs.insert (packed pdu) (stampOf d.bytes) }
  | none => m

end DisInputSource

def disSections (unmarshal : List Wire.Byte → Option DisInputSource.EntityStatePdu)
    (cfg : DisInputSource.Config) : CriticalSections (disInputSource unmarshal cfg) where
  outcome := DisInputSource.outcome unmarshal cfg
  remember := DisInputSource.remember unmarshal cfg
  decides d m c hc := by
    unfold DisInputSource.outcome at hc
    split at hc
    · exact Option.some.inj hc ▸ rfl
    · exact dropped_decides c hc
  processDatagram_eq d m store := by
    unfold DisInputSource.outcome DisInputSource.remember
    rcases DisInputSource.processDatagram_cases unmarshal cfg d m with
      ⟨hadm, o, log, _, heq⟩ | ⟨pdu, hadm, heq⟩
    · rw [hadm]
      exact ⟨congrArg Processed.memory (heq store),
        (congrArg Processed.store (heq store)).trans (refused_settle ..)⟩
    · obtain ⟨log, hpdu⟩ := DisInputSource.acceptPdu_eq cfg pdu d
        { m with
          lastTs := m.lastTs.insert (DisInputSource.packed pdu) (DisInputSource.stampOf d.bytes) }
      have hall := (heq store).trans (hpdu _)
      rw [hadm]
      exact ⟨congrArg Processed.memory hall, congrArg Processed.store hall⟩

def makeSections (unmarshal : List Wire.Byte → Option DisInputSource.EntityStatePdu) :
    (cfg : InputConfig) → CriticalSections (makeInputSource unmarshal cfg)
  | ⟨.kOlv1, _⟩ => olv1Sections
  | ⟨.kDis, dis⟩ => disSections unmarshal dis
  | ⟨.kOlv2, _⟩ => olv2Sections

/-! ## Both threads -/

/-- The receive thread is between two datagrams, or past `countReceived` of one.
`settled` and `calls` are history: nothing reads them. -/
structure World (src : InputSource) where
  pending : Option Datagram := none
  memory : src.Memory
  store : StateStore
  settled : List Datagram := []
  calls : List Call := []

inductive Action where
  | receive (d : Datagram)
  | settle
  | snapshot (mono : Int)

namespace World
variable {src : InputSource} (sections : CriticalSections src)

variable (src) in
def start (expiry : Int) : World src := { memory := src.init, store := { objectExpiry := expiry } }

/-- An action that is not enabled does nothing. -/
def step (a : Action) (w : World src) : World src :=
  match a, w.pending with
  | .receive d, none =>
    { w with
      pending := some d
      store := w.store.countReceived d.bytes.length
      calls := w.calls ++ [.countReceived d.bytes.length] }
  | .settle, some d =>
    { pending := none
      memory := sections.remember d w.memory
      store := settle (sections.outcome d w.memory) w.store
      settled := w.settled ++ [d]
      calls := w.calls ++ (sections.outcome d w.memory).toList }
  | .snapshot mono, _ =>
    { w with
      store := (w.store.snapshot mono).2
      calls := w.calls ++ [.snapshot mono] }
  | _, _ => w

def run (w : World src) (actions : List Action) : World src :=
  actions.foldl (fun w a => w.step sections a) w

theorem step_cases (a : Action) (w : World src) :
    w.step sections a = w ∨
    (∃ d, a = .receive d ∧ w.pending = none ∧ w.step sections a =
      { w with
        pending := some d
        store := w.store.countReceived d.bytes.length
        calls := w.calls ++ [.countReceived d.bytes.length] }) ∨
    (∃ d, a = .settle ∧ w.pending = some d ∧ w.step sections a =
      { pending := none
        memory := sections.remember d w.memory
        store := Olv.settle (sections.outcome d w.memory) w.store
        settled := w.settled ++ [d]
        calls := w.calls ++ (sections.outcome d w.memory).toList }) ∨
    ∃ mono, a = .snapshot mono ∧ w.step sections a =
      { w with
        store := (w.store.snapshot mono).2
        calls := w.calls ++ [.snapshot mono] } := by
  cases a with
  | receive d =>
    cases h : w.pending with
    | none => exact .inr (.inl ⟨d, rfl, rfl, by simp only [step, h]⟩)
    | some d' => exact .inl (by simp only [step, h])
  | settle =>
    cases h : w.pending with
    | none => exact .inl (by simp only [step, h])
    | some d => exact .inr (.inr (.inl ⟨d, rfl, rfl, by simp only [step, h]⟩))
  | snapshot mono => exact .inr (.inr (.inr ⟨mono, rfl, by simp only [step]⟩))

/-- Two sections without a snapshot between them are one datagram processed. -/
theorem step_datagram (w : World src) (d : Datagram) (h : w.pending = none) :
    let w' := (w.step sections (.receive d)).step sections .settle
    (⟨w'.memory, w'.store⟩ : src.State) = (src.step (.datagram d) ⟨w.memory, w.store⟩).2 := by
  obtain ⟨hmemory, hstore⟩ := sections.processDatagram_eq d w.memory w.store
  simp only [step, h, InputSource.step, hmemory, hstore]

variable {sections}

/-- What every step keeps, every run keeps. -/
theorem run_invariant {P : World src → Prop} (hstep : ∀ w a, P w → P (w.step sections a))
    {w : World src} (h : P w) (actions : List Action) : P (w.run sections actions) := by
  induction actions generalizing w with
  | nil => exact h
  | cons a actions ih => exact ih (hstep w a h)

/-- One datagram after the other, with no snapshot in between. -/
def whole (ds : List Datagram) : List Action := ds.flatMap fun d => [.receive d, .settle]

theorem run_whole (w : World src) (ds : List Datagram) (h : w.pending = none) :
    let w' := w.run sections (whole ds)
    (⟨w'.memory, w'.store⟩ : src.State) = src.run ⟨w.memory, w.store⟩ (ds.map .datagram) := by
  induction ds generalizing w with
  | nil => rfl
  | cons d ds ih =>
    have hone := step_datagram sections w d h
    have hrest := ih ((w.step sections (.receive d)).step sections .settle) (by simp only [step, h])
    dsimp only at hone hrest
    rw [hone] at hrest
    exact hrest

theorem settled_whole (w : World src) (ds : List Datagram) (h : w.pending = none) :
    (w.run sections (whole ds)).settled = w.settled ++ ds := by
  induction ds generalizing w with
  | nil => exact (List.append_nil _).symm
  | cons d ds ih =>
    have hrest := ih ((w.step sections (.receive d)).step sections .settle) (by simp only [step, h])
    have hone : ((w.step sections (.receive d)).step sections .settle).settled = w.settled ++ [d] := by
      simp only [step, h]
    rw [hone, List.append_assoc] at hrest
    exact hrest

/-- The calls of the receive thread for whole datagrams. -/
def sectionCalls (sections : CriticalSections src) (m : src.Memory) : List Datagram → List Call
  | [] => []
  | d :: ds => .countReceived d.bytes.length :: (sections.outcome d m).toList ++
      sectionCalls sections (sections.remember d m) ds

/-- What the source remembers after whole datagrams. -/
def remembered (sections : CriticalSections src) (m : src.Memory) (ds : List Datagram) : src.Memory :=
  ds.foldl (fun m d => sections.remember d m) m

theorem sectionCalls_append (m : src.Memory) (ds : List Datagram) (d : Datagram) :
    sectionCalls sections m (ds ++ [d]) = sectionCalls sections m ds ++
      .countReceived d.bytes.length ::
        (sections.outcome d (remembered sections m ds)).toList := by
  induction ds generalizing m with
  | nil => simp [sectionCalls, remembered]
  | cons e ds ih =>
    simp only [List.cons_append, sectionCalls, ih, remembered, List.foldl_cons, List.append_assoc]

/-- What the history says about the state. -/
structure Recorded (sections : CriticalSections src) (expiry : Int) (w : World src) : Prop where
  store : w.store = StateStore.run { objectExpiry := expiry } w.calls
  memory : w.memory = remembered sections src.init w.settled
  updates : StateStore.updates w.calls = sectionCalls sections src.init w.settled ++
    w.pending.toList.map fun d => .countReceived d.bytes.length

theorem outcome_updates (d : Datagram) (m : src.Memory) :
    StateStore.updates (sections.outcome d m).toList = (sections.outcome d m).toList := by
  apply List.filter_eq_self.mpr
  intro c hc
  have hdecides := sections.decides d m c (Option.mem_toList.mp hc)
  cases c with
  | snapshot mono => cases hdecides
  | _ => rfl

/-- **The history of a run** accounts for its store and memory. -/
theorem run_recorded (expiry : Int) (actions : List Action) :
    Recorded sections expiry ((start src expiry).run sections actions) := by
  refine run_invariant (fun w a h => ?_) ⟨rfl, rfl, rfl⟩ actions
  have hrun (cs : List Call) : StateStore.run { objectExpiry := expiry } (w.calls ++ cs) =
      StateStore.run w.store cs := by
    rw [h.store, StateStore.run_append]
  rcases step_cases sections a w with heq | ⟨d, _, hp, heq⟩ | ⟨d, _, hp, heq⟩ | ⟨mono, _, heq⟩
  · rw [heq]
    exact h
  · refine heq ▸ ⟨by rw [hrun]; rfl, h.memory, ?_⟩
    have hu := h.updates
    rw [hp, Option.toList_none, List.map_nil, List.append_nil] at hu
    rw [StateStore.updates_append, hu]
    rfl
  · refine heq ▸ ⟨?_, ?_, ?_⟩
    · rw [hrun]
      cases sections.outcome d w.memory <;> rfl
    · rw [remembered, List.foldl_append, h.memory]
      rfl
    · rw [StateStore.updates_append, h.updates, outcome_updates, sectionCalls_append, ← h.memory, hp]
      simp
  · refine heq ▸ ⟨by rw [hrun]; rfl, h.memory, ?_⟩
    rw [StateStore.updates_append, ← h.updates]
    exact List.append_nil _

/-- What every step of a run keeps. -/
theorem recorded_invariant {P : World src → Prop} {expiry : Int} (h : P (start src expiry))
    (hstep : ∀ w a, Recorded sections expiry w → P w → P (w.step sections a))
    (actions : List Action) : P ((start src expiry).run sections actions) := by
  induction actions using List.reverseRecOn with
  | nil => exact h
  | append_singleton actions a ih =>
    rw [run, List.foldl_append]
    exact hstep _ a (run_recorded expiry actions) ih

end World
end Olv
