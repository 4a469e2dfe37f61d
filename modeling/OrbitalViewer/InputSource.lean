import OrbitalViewer.StateStore

/-!
# Input sources

What the three intake strategies of `input_source.hpp` have in common: a memory
of their own, and one step for each datagram that counts it, decides its
outcome and updates the store. `observe` runs a source over datagrams with
snapshots taken in between.
-/

namespace Olv
open Wire (Byte)

inductive LogLevel where
  | kDebug | kInfo | kWarn | kError
  deriving DecidableEq, Repr

structure LogLine where
  level : LogLevel
  component : String
  message : String
  deriving DecidableEq, Repr

/-- What became of a datagram. -/
inductive Outcome where
  | malformed (reason : String)
  | stale
  | filtered
  | ignored
  | accepted
  deriving DecidableEq, Repr

/-- A datagram, the text of its sender, and the two clocks when it is applied. -/
structure Datagram where
  bytes : List Byte
  sender : String := ""
  wall : Int := 0
  mono : Int := 0

structure Processed (Memory : Type) where
  outcome : Outcome
  log : List LogLine
  memory : Memory
  store : StateStore

/-- A datagram that was only counted, as received and perhaps as dropped. -/
def refused {Memory : Type} (o : Outcome) (log : List LogLine) (drop : Option DropKind)
    (m : Memory) (received : StateStore) : Processed Memory :=
  ⟨o, log, m, drop.elim received fun kind => received.countDropped kind⟩

structure InputSource where
  Memory : Type
  init : Memory
  processDatagram : Datagram → Memory → StateStore → Processed Memory

/-! ## Runs -/

inductive Event where
  | datagram (d : Datagram)
  | snapshot (mono : Int)

inductive Observation where
  | outcome (o : Outcome)
  | snapshot (s : Snapshot)

namespace InputSource
variable (src : InputSource)

structure State where
  memory : src.Memory
  store : StateStore

/-- A source at start, over an empty store. -/
def start (expiry : Int) : src.State := ⟨src.init, { objectExpiry := expiry }⟩

def step (e : Event) (s : src.State) : Observation × src.State :=
  match e with
  | .datagram d =>
    let r := src.processDatagram d s.memory s.store
    (.outcome r.outcome, ⟨r.memory, r.store⟩)
  | .snapshot mono =>
    let r := s.store.snapshot mono
    (.snapshot r.1, ⟨s.memory, r.2⟩)

def run (s : src.State) (events : List Event) : src.State :=
  events.foldl (fun s e => (src.step e s).2) s

/-- What the run shows, one observation an event. -/
def observe (s : src.State) : List Event → List Observation
  | [] => []
  | e :: events => (src.step e s).1 :: observe (src.step e s).2 events

/-- Every event of the run meets `C` where it happens. -/
def Along (C : src.State → Event → Prop) (s : src.State) : List Event → Prop
  | [] => True
  | e :: events => C s e ∧ Along C (src.step e s).2 events

variable {src}

/-- What every such step keeps holds in every state of the run. -/
theorem run_along {C : src.State → Event → Prop} {P : src.State → Prop}
    (hstep : ∀ s e, C s e → P s → P (src.step e s).2) {s : src.State} {events : List Event}
    (hC : src.Along C s events) (h : P s) (n : Nat) : P (src.run s (events.take n)) := by
  induction events generalizing s n with
  | nil =>
    rw [List.take_nil]
    exact h
  | cons e events ih =>
    cases n with
    | zero => exact h
    | succ n => exact ih hC.2 (hstep s e hC.1 h) n

/-- What every step keeps, every run keeps. -/
theorem run_store {P : StateStore → Prop}
    (hstep : ∀ (s : src.State) e, P s.store → P (src.step e s).2.store) {s : src.State}
    (h : P s.store) (events : List Event) : P (src.run s events).store := by
  induction events generalizing s with
  | nil => exact h
  | cons e events ih => exact ih (hstep s e h)

end InputSource
end Olv
