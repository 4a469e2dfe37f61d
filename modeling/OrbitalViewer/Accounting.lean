import OrbitalViewer.ReceiveThread

/-!
# Datagrams are accounted for

Each datagram raises the received counter in its first critical section and at
most one outcome counter in its second, so that at every instant the counters
differ by the datagrams ignored and the one in progress (`Balanced`).
-/

namespace Olv
open StateStore (Call)

/-- The counters of what became of datagrams: accepted, malformed, stale. -/
def Stats.outcomes (s : Stats) : Nat × Nat × Nat :=
  (s.udpAccepted, s.udpDroppedMalformed, s.udpDroppedStale)

def Stats.settled (s : Stats) : Nat := s.udpAccepted + s.udpDroppedMalformed + s.udpDroppedStale

/-- One outcome counter, and no other, is raised by one. -/
def RaisesOne (before after : Nat × Nat × Nat) : Prop :=
  after = before + (1, 0, 0) ∨ after = before + (0, 1, 0) ∨ after = before + (0, 0, 1)

namespace StateStore

theorem decides_stats {c : Call} (h : c.decides = true) (s : StateStore) :
    RaisesOne s.stats.outcomes (c.step s).stats.outcomes ∧
    (c.step s).stats.settled = s.stats.settled + 1 ∧
    (c.step s).stats.udpReceived = s.stats.udpReceived ∧
    (c.step s).stats.bytesReceived = s.stats.bytesReceived := by
  cases c with
  | countReceived bytes => cases h
  | snapshot mono => cases h
  | countDropped kind =>
    cases kind with
    | kMalformed => exact ⟨.inr (.inl rfl), by simp only [Stats.settled, Call.step, countDropped]; omega, rfl, rfl⟩
    | kStale => exact ⟨.inr (.inr rfl), rfl, rfl, rfl⟩
  | apply pkt wall mono =>
    cases hs : s.staleSequence pkt.sequence with
    | true =>
      rw [Call.step, apply_refused hs]
      exact ⟨.inr (.inr rfl), rfl, rfl, rfl⟩
    | false =>
      rw [Call.step, apply_fresh hs]
      exact ⟨.inl rfl, by simp only [Stats.settled]; omega, rfl, rfl⟩
  | applyTrack u wall mono =>
    exact ⟨.inl rfl, by simp only [Stats.settled, Call.step, applyTrack]; omega, rfl, rfl⟩

/-- A snapshot shows the counters as they are, and a rate. -/
theorem snapshot_stats (mono : Int) (s : StateStore) :
    ∃ rate, (s.snapshot mono).1.stats = { s.stats with udpRateHz := rate } := ⟨_, rfl⟩

end StateStore

namespace World
variable {src : InputSource} {sections : CriticalSections src} {ignores : Datagram → Bool}

/-- The counters against the history of datagrams. -/
structure Balanced (ignores : Datagram → Bool) (w : World src) : Prop where
  received : w.store.stats.udpReceived = w.settled.length + w.pending.toList.length
  settled : w.store.stats.settled + w.settled.countP ignores = w.settled.length
  bytes : w.store.stats.bytesReceived =
    ((w.settled ++ w.pending.toList).map fun d => d.bytes.length).sum

/-- The second critical section raises one outcome counter, or none when the
datagram is ignored; the others raise none. -/
theorem step_outcomes (hignores : ∀ d m, sections.outcome d m = none ↔ ignores d = true)
    (w : World src) :
    (∀ d, w.pending = some d →
      if ignores d then (w.step sections .settle).store.stats.outcomes = w.store.stats.outcomes
      else RaisesOne w.store.stats.outcomes (w.step sections .settle).store.stats.outcomes) ∧
    (∀ d, (w.step sections (.receive d)).store.stats.outcomes = w.store.stats.outcomes) ∧
    ∀ mono, (w.step sections (.snapshot mono)).store.stats.outcomes = w.store.stats.outcomes := by
  refine ⟨fun d hp => ?_, fun d => ?_, fun mono => rfl⟩
  · have hiff := hignores d w.memory
    simp only [step, hp]
    cases hc : sections.outcome d w.memory with
    | none =>
      rw [if_pos (hiff.mp hc)]
      rfl
    | some c =>
      rw [if_neg fun hi => Option.some_ne_none c (hc.symm.trans (hiff.mpr hi))]
      exact (StateStore.decides_stats (sections.decides d w.memory c hc) w.store).1
  · unfold step
    cases w.pending <;> rfl

theorem step_balanced (hignores : ∀ d m, sections.outcome d m = none ↔ ignores d = true)
    (w : World src) (a : Action) (h : Balanced ignores w) : Balanced ignores (w.step sections a) := by
  rcases step_cases sections a w with heq | ⟨d, _, hp, heq⟩ | ⟨d, _, hp, heq⟩ | ⟨mono, _, heq⟩
  · rw [heq]
    exact h
  · obtain ⟨hreceived, hsettled, hbytes⟩ := h
    rw [hp] at hreceived hbytes
    refine heq ▸ ⟨congrArg (· + 1) hreceived, hsettled, ?_⟩
    simp only [Option.toList_none, List.append_nil, StateStore.countReceived] at hbytes ⊢
    simp [hbytes]
  · obtain ⟨hreceived, hsettled, hbytes⟩ := h
    rw [hp] at hreceived hbytes
    have hiff := hignores d w.memory
    cases hc : sections.outcome d w.memory with
    | none =>
      have hcount : (w.settled ++ [d]).countP ignores = w.settled.countP ignores + 1 := by
        simp [hiff.mp hc]
      refine heq ▸ ⟨?_, ?_, ?_⟩
      · simpa [hc, Olv.settle] using hreceived
      · simp only [hc, Olv.settle, Option.elim_none, hcount, List.length_append, List.length_singleton]
        omega
      · simpa [hc, Olv.settle] using hbytes
    | some c =>
      obtain ⟨_, hone, hr, hb⟩ := StateStore.decides_stats (sections.decides d w.memory c hc) w.store
      have hkeeps : ignores d = false :=
        Bool.eq_false_iff.mpr fun hi => Option.some_ne_none c (hc.symm.trans (hiff.mpr hi))
      have hcount : (w.settled ++ [d]).countP ignores = w.settled.countP ignores := by
        simp [hkeeps]
      refine heq ▸ ⟨?_, ?_, ?_⟩
      · simpa [hc, Olv.settle, hr] using hreceived
      · simp only [hc, Olv.settle, Option.elim_some, hone, hcount, List.length_append,
          List.length_singleton]
        omega
      · simpa [hc, Olv.settle, hb] using hbytes
  · exact heq ▸ ⟨h.received, h.settled, h.bytes⟩

theorem run_balanced (hignores : ∀ d m, sections.outcome d m = none ↔ ignores d = true)
    (expiry : Int) (actions : List Action) :
    Balanced ignores ((start src expiry).run sections actions) :=
  run_invariant (step_balanced hignores) ⟨rfl, rfl, rfl⟩ actions

/-- What a snapshot of a balanced world shows. -/
theorem Balanced.snapshot {w : World src} (h : Balanced ignores w) (mono : Int) :
    (w.store.snapshot mono).1.stats.udpReceived = (w.store.snapshot mono).1.stats.settled +
      w.settled.countP ignores + (if w.pending.isSome then 1 else 0) ∧
    (w.store.snapshot mono).1.stats.bytesReceived =
      ((w.settled ++ w.pending.toList).map fun d => d.bytes.length).sum := by
  obtain ⟨hreceived, hsettled, hbytes⟩ := h
  obtain ⟨rate, hstats⟩ := StateStore.snapshot_stats mono w.store
  have hbusy : w.pending.toList.length = if w.pending.isSome then 1 else 0 := by
    cases w.pending <;> rfl
  rw [hstats, ← hbusy]
  refine ⟨?_, hbytes⟩
  have hsame : Stats.settled { w.store.stats with udpRateHz := rate } = w.store.stats.settled := rfl
  rw [hsame]
  exact hreceived.trans (by omega)

end World

/-! ## What each source ignores -/

/-- Only DIS leaves valid traffic uncounted. -/
def ignores (cfg : InputConfig) (d : Datagram) : Bool :=
  match cfg.inputMode with
  | .kDis => DisInputSource.ignored cfg.dis d.bytes
  | _ => false

theorem DisInputSource.outcome_none_iff (unmarshal : List Wire.Byte → Option EntityStatePdu)
    (cfg : Config) (d : Datagram) (m : Memory) :
    outcome unmarshal cfg d m = none ↔ ignored cfg d.bytes = true := by
  have hadmitted {pdu : EntityStatePdu} (h : admitted unmarshal cfg d.bytes m = some pdu) :
      ignored cfg d.bytes = false := by
    unfold admitted at h
    split at h
    · rename_i hheader
      exact ignored_passes cfg hheader
    · cases h
  unfold outcome
  cases h : admitted unmarshal cfg d.bytes m with
  | some pdu => simp [hadmitted h]
  | none =>
    simp only [dropKind, Option.map_eq_none_iff]
    split
    · rename_i hi
      exact iff_of_true rfl hi
    · rename_i hi
      refine iff_of_false ?_ hi
      split <;> exact Option.some_ne_none _

theorem outcome_none_iff (unmarshal : List Wire.Byte → Option DisInputSource.EntityStatePdu)
    (cfg : InputConfig) (d : Datagram) (m : (makeInputSource unmarshal cfg).Memory) :
    (makeSections unmarshal cfg).outcome d m = none ↔ ignores cfg d = true := by
  obtain ⟨mode, dis⟩ := cfg
  cases mode with
  | kOlv1 => exact iff_of_false (Option.some_ne_none _) Bool.false_ne_true
  | kDis => exact DisInputSource.outcome_none_iff unmarshal dis d m
  | kOlv2 => exact iff_of_false (Option.some_ne_none _) Bool.false_ne_true

/-- **Datagram accounting balances at every instant.** What a snapshot shows, in
any mode and however snapshots fall among the critical sections. -/
theorem accounting_balances (unmarshal : List Wire.Byte → Option DisInputSource.EntityStatePdu)
    (cfg : InputConfig) (expiry : Int) (actions : List Action) (mono : Int) :
    let sections := makeSections unmarshal cfg
    let w := (World.start (makeInputSource unmarshal cfg) expiry).run sections actions
    let stats := (w.store.snapshot mono).1.stats
    stats.udpReceived =
      stats.settled + w.settled.countP (ignores cfg) + (if w.pending.isSome then 1 else 0) ∧
    (cfg.inputMode ≠ .kDis → stats.settled ≤ stats.udpReceived ∧
      stats.udpReceived ≤ stats.settled + 1 ∧
      (w.pending = none → stats.udpReceived = stats.settled)) ∧
    stats.bytesReceived = ((w.settled ++ w.pending.toList).map fun d => d.bytes.length).sum ∧
    (∀ d, w.pending = some d →
      if ignores cfg d then
        (w.step sections .settle).store.stats.outcomes = w.store.stats.outcomes
      else RaisesOne w.store.stats.outcomes (w.step sections .settle).store.stats.outcomes) ∧
    (∀ d, (w.step sections (.receive d)).store.stats.outcomes = w.store.stats.outcomes) ∧
    ∀ mono, (w.step sections (.snapshot mono)).store.stats.outcomes = w.store.stats.outcomes := by
  have hignores := outcome_none_iff unmarshal cfg
  have hbalanced := World.run_balanced hignores expiry actions
  obtain ⟨hbalance, hbytes⟩ := hbalanced.snapshot mono
  refine ⟨hbalance, fun hmode => ?_, hbytes, World.step_outcomes hignores _⟩
  have hnone (ds : List Datagram) : ds.countP (ignores cfg) = 0 := by
    apply List.countP_eq_zero.mpr
    intro d _
    unfold ignores
    cases hm : cfg.inputMode with
    | kDis => exact absurd hm hmode
    | _ => exact Bool.false_ne_true
  rw [hnone] at hbalance
  refine ⟨?_, ?_, fun hidle => ?_⟩
  · omega
  · split at hbalance <;> omega
  · rw [hidle] at hbalance
    exact hbalance

end Olv
