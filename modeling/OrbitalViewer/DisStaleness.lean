import OrbitalViewer.DisInputSource
import OrbitalViewer.Lib.LastWrite

/-!
# Staleness on the hourly clock

A DIS time stamp is the low 31 bits of a true tick count, so it wraps every hour.
`isStale` judges it against the last stamp it let through of the same entity. Of
a stream in order it drops nothing (`in_order_accepted`). A packet that is late
across a wrap is taken for a newer one; `accepts_newest_iff` says that this is
the only way an older packet gets through.
-/

namespace Olv.DisInputSource
open Prefixes (Each)

/-- A PDU as the network delivers it: its entity and its true tick count. -/
structure Pdu where
  entity : U64
  time : Nat

namespace Pdu

/-- The stamp on the wire, without the absolute/relative flag. -/
def ts (p : Pdu) : U32 := BitVec.ofNat 32 (p.time % 2 ^ 31)

/-- How often the stamp has wrapped. -/
def hour (p : Pdu) : Nat := p.time / 2 ^ 31

theorem ts_toNat (p : Pdu) : p.ts.toNat = p.time % 2 ^ 31 := by
  rw [ts, BitVec.toNat_ofNat]
  omega

end Pdu

abbrev LastTs := AList (fun _ : U64 => U32)

/-- What the source remembers, and the PDUs it has let through. -/
structure Judged where
  lastTs : LastTs := ∅
  accepted : List Pdu := []

def judge (s : Judged) (p : Pdu) : Judged where
  lastTs := (isStale p.entity p.ts s.lastTs).2
  accepted := if (isStale p.entity p.ts s.lastTs).1 then s.accepted else s.accepted ++ [p]

/-- The source after a delivery, from its start. -/
def judged (run : List Pdu) : Judged := run.foldl judge {}

/-- `isStale` lets `p` through after `before`. -/
def Accepts (before : List Pdu) (p : Pdu) : Prop :=
  (isStale p.entity p.ts (judged before).lastTs).1 = false

instance (before : List Pdu) (p : Pdu) : Decidable (Accepts before p) :=
  inferInstanceAs (Decidable (_ = false))

theorem judged_append (before : List Pdu) (p : Pdu) :
    judged (before ++ [p]) = judge (judged before) p := List.foldl_append

/-- The comparison, in natural numbers. -/
theorem stale_eq_false_iff {m : LastTs} {e : U64} {ts last : U32} (h : m.lookup e = some last) :
    (isStale e ts m).1 = false ↔
      ts.toNat = 0 ∨ last.toNat ≤ ts.toNat ∨ ts.toNat + 2 ^ 30 ≤ last.toNat := by
  have hzero : ts = 0 ↔ ts.toNat = 0 := BitVec.toNat_inj.symm
  have hge : ts ≥ last ↔ last.toNat ≤ ts.toNat := BitVec.le_def
  simp only [isStale, h, hzero, hge]
  by_cases h0 : ts.toNat = 0
  · simp [h0]
  by_cases hle : last.toNat ≤ ts.toNat
  · simp [h0, hle]
  have hwrap : last - ts ≥ (1 : U32) <<< 30 ↔ ts.toNat + 2 ^ 30 ≤ last.toNat := by
    have hhalf : ((1 : U32) <<< 30).toNat = 2 ^ 30 := rfl
    rw [ge_iff_le, BitVec.le_def, hhalf, BitVec.toNat_sub_of_le (BitVec.le_def.mpr (by omega))]
    omega
  simp only [h0, hle, hwrap, if_false, false_or]
  split <;> simp_all

theorem stale_of_none {m : LastTs} {e : U64} (ts : U32) (h : m.lookup e = none) :
    (isStale e ts m).1 = false := by
  simp [isStale, h]

/-- The memory after a PDU that was let through. -/
theorem lookup_accepted {m : LastTs} {p : Pdu} (h : (isStale p.entity p.ts m).1 = false) (e : U64) :
    (isStale p.entity p.ts m).2.lookup e = if p.entity = e then some p.ts else m.lookup e := by
  rw [isStale_eq, h]
  by_cases he : p.entity = e
  · subst he
    simp
  · simp [he, AList.lookup_insert_ne (Ne.symm he)]

theorem lookup_stale {m : LastTs} {p : Pdu} (h : (isStale p.entity p.ts m).1 = true) :
    (isStale p.entity p.ts m).2 = m := by
  rw [isStale_eq, h, if_pos rfl]

/-! ## A stream in order -/

/-- The PDU of `e` delivered last. -/
def latest (run : List Pdu) (e : U64) : Option Pdu := (run.filter fun p => p.entity = e).getLast?

/-- The ticks of each entity do not decrease, and grow by at most half the range
of the stamp. -/
def InOrder (run : List Pdu) : Prop :=
  Each (fun before p => ∀ q ∈ latest before p.entity, q.time ≤ p.time ∧ p.time ≤ q.time + 2 ^ 30) run

theorem latest_append (run : List Pdu) (p : Pdu) (e : U64) :
    latest (run ++ [p]) e = if p.entity = e then some p else latest run e := by
  by_cases he : p.entity = e <;> simp [latest, he]

/-- The source remembers the latest stamp of every entity. -/
def Remembers (run : List Pdu) : Prop :=
  ∀ e, (judged run).lastTs.lookup e = (latest run e).map Pdu.ts

/-- **One PDU in order**: half a range further on at most, whether the stamp
wraps, comes out as 0 or not. -/
theorem Remembers.accepts {before : List Pdu} (h : Remembers before) {p : Pdu}
    (hp : ∀ q ∈ latest before p.entity, q.time ≤ p.time ∧ p.time ≤ q.time + 2 ^ 30) :
    Accepts before p := by
  have hlookup := h p.entity
  cases hq : latest before p.entity with
  | none =>
    rw [hq] at hlookup
    exact stale_of_none p.ts hlookup
  | some q =>
    obtain ⟨hle, hgrow⟩ := hp q hq
    rw [hq] at hlookup
    apply (stale_eq_false_iff hlookup).mpr
    rw [p.ts_toNat, q.ts_toNat]
    omega

theorem Remembers.append {before : List Pdu} (h : Remembers before) {p : Pdu}
    (hp : Accepts before p) : Remembers (before ++ [p]) := by
  intro e
  rw [judged_append, latest_append]
  refine (lookup_accepted hp e).trans ?_
  by_cases he : p.entity = e
  · simp [he]
  · simpa [he] using h e

theorem remembers_run {run : List Pdu} (h : InOrder run) : Remembers run := by
  induction run using List.reverseRecOn with
  | nil => exact fun _ => rfl
  | append_singleton run p ih =>
    have hbefore := ih h.before
    exact hbefore.append (hbefore.accepts h.last)

/-- **A stream in order is let through whole**, however often the clock wraps and
however the entities interleave, and the source remembers the latest stamp of
each. -/
theorem in_order_accepted (run : List Pdu) (h : InOrder run) :
    Each (fun before p => (isStale p.entity p.ts (judged before).lastTs).1 = false) run ∧
    ∀ e, (judged run).lastTs.lookup e = (latest run e).map Pdu.ts := by
  refine ⟨?_, remembers_run h⟩
  rintro before p later rfl
  exact (remembers_run h.before).accepts (h before p later rfl)

/-- Two entities, the first across a wrap that comes out as stamp 0. -/
def orderedRun : List Pdu := [⟨7, 2 ^ 31 - 5⟩, ⟨8, 12⟩, ⟨7, 2 ^ 31⟩, ⟨7, 2 ^ 31 + 2 ^ 30⟩]

theorem orderedRun_inOrder : InOrder orderedRun :=
  (((Each.nil.append (by decide)).append (by decide)).append (by decide)).append (by decide)

theorem orderedRun_accepted : (judged orderedRun).lastTs.lookup 7 = some (1 <<< 30) :=
  (in_order_accepted orderedRun orderedRun_inOrder).2 7

/-! ## A stream out of order -/

def newest (run : List Pdu) (e : U64) : Option Nat :=
  (((judged run).accepted.filter fun p => p.entity = e).map Pdu.time).max?

/-- No PDU is half the range of the stamp away from the newest one accepted of its
entity, and none carries the stamp 0. -/
structure InWindow (run : List Pdu) : Prop where
  near : Each (fun before p => ∀ t ∈ newest before p.entity,
    p.time < t + 2 ^ 30 ∧ t < p.time + 2 ^ 30) run
  stamped : ∀ p ∈ run, p.ts ≠ 0

/-- What is let through is never older than what was. -/
def NeverOlder (run : List Pdu) : Prop :=
  Each (fun before p => Accepts before p → ∀ t ∈ newest before p.entity, t ≤ p.time) run

/-- No PDU is overtaken by one of its entity that was stamped after a wrap. -/
def HoursOrdered (run : List Pdu) : Prop :=
  run.Pairwise fun p q => p.entity = q.entity → p.hour ≤ q.hour

theorem InWindow.before {run later : List Pdu} (h : InWindow (run ++ later)) : InWindow run :=
  ⟨h.near.before, fun p hp => h.stamped p (List.mem_append_left later hp)⟩

theorem newest_refused {before : List Pdu} {p : Pdu} (h : ¬ Accepts before p) (e : U64) :
    newest (before ++ [p]) e = newest before e := by
  have hstale : (isStale p.entity p.ts (judged before).lastTs).1 = true := by simpa [Accepts] using h
  simp [newest, judged_append, judge, hstale]

/-- An accepted PDU that is not older becomes the newest of its entity. -/
theorem newest_accepted {before : List Pdu} {p : Pdu} (h : Accepts before p)
    (hle : ∀ t ∈ newest before p.entity, t ≤ p.time) (e : U64) :
    newest (before ++ [p]) e = if p.entity = e then some p.time else newest before e := by
  have hfresh : (isStale p.entity p.ts (judged before).lastTs).1 = false := h
  have haccepted : (judged (before ++ [p])).accepted = (judged before).accepted ++ [p] := by
    simp [judged_append, judge, hfresh]
  by_cases he : p.entity = e
  · subst he
    simp only [newest, haccepted, List.filter_append, List.map_append, if_true]
    apply List.max?_eq_some_iff.mpr
    refine ⟨by simp, fun t ht => ?_⟩
    rcases List.mem_append.mp ht with ht | ht
    · obtain ⟨top, htop⟩ := Option.isSome_iff_exists.mp
        (List.isSome_max?_of_mem ht)
      exact ((List.max?_eq_some_iff.mp htop).2 t ht).trans (hle top htop)
    · simp at ht
      omega
  · simp [newest, haccepted, he]

/-- The source remembers the stamp of the newest accepted PDU, which nothing
delivered before is newer than. -/
structure Follows (run : List Pdu) : Prop where
  lookup_eq : ∀ e, (judged run).lastTs.lookup e =
    (newest run e).map fun t => (Pdu.mk e t).ts
  covers : ∀ p ∈ run, ∃ t ∈ newest run p.entity, p.time ≤ t

/-- **One PDU in the window**: let through when it is not older than the newest,
or was stamped in an hour before it. -/
theorem Follows.accepts_iff {before : List Pdu} (h : Follows before) {p : Pdu} (hts : p.ts ≠ 0)
    (hnear : ∀ t ∈ newest before p.entity, p.time < t + 2 ^ 30 ∧ t < p.time + 2 ^ 30) :
    Accepts before p ↔ ∀ t ∈ newest before p.entity, t ≤ p.time ∨ p.hour < t / 2 ^ 31 := by
  have hlookup := h.lookup_eq p.entity
  cases ht : newest before p.entity with
  | none =>
    rw [ht] at hlookup
    simp only [Option.mem_def, reduceCtorEq, false_implies, implies_true, iff_true]
    exact stale_of_none p.ts hlookup
  | some t =>
    obtain ⟨hafter, hbefore⟩ := hnear t ht
    rw [ht] at hlookup
    have hpos : p.ts.toNat ≠ 0 := fun h0 => hts (BitVec.eq_of_toNat_eq h0)
    rw [p.ts_toNat] at hpos
    rw [Accepts, stale_eq_false_iff hlookup]
    simp only [Pdu.ts_toNat, Pdu.hour, Option.mem_def, Option.some.injEq, forall_eq']
    omega

theorem Follows.append {before : List Pdu} (h : Follows before) {p : Pdu}
    (hrefused : ¬ Accepts before p → ∃ t ∈ newest before p.entity, p.time ≤ t)
    (hle : Accepts before p → ∀ t ∈ newest before p.entity, t ≤ p.time) :
    Follows (before ++ [p]) := by
  by_cases hp : Accepts before p
  · have hnewest := newest_accepted hp (hle hp)
    constructor
    · intro e
      rw [judged_append, hnewest]
      refine (lookup_accepted hp e).trans ?_
      by_cases he : p.entity = e
      · simp [he, Pdu.ts]
      · simpa [he] using h.lookup_eq e
    · intro q hq
      rw [hnewest]
      rcases List.mem_append.mp hq with hq | hq
      · obtain ⟨t, ht, hqt⟩ := h.covers q hq
        by_cases he : p.entity = q.entity
        · exact ⟨p.time, by simp [he], hqt.trans (hle hp t (he ▸ ht))⟩
        · exact ⟨t, by simpa [he] using ht, hqt⟩
      · obtain rfl := List.mem_singleton.mp hq
        exact ⟨q.time, by simp, le_refl _⟩
  · have hstale : (isStale p.entity p.ts (judged before).lastTs).1 = true := by
      simpa [Accepts] using hp
    constructor
    · intro e
      rw [newest_refused hp, judged_append]
      exact (congrArg (AList.lookup e) (lookup_stale hstale)).trans (h.lookup_eq e)
    · intro q hq
      rw [newest_refused hp]
      rcases List.mem_append.mp hq with hq | hq
      · exact h.covers q hq
      · rw [List.mem_singleton.mp hq]
        exact hrefused hp

theorem Follows.refused {before : List Pdu} (h : Follows before) {p : Pdu} (hts : p.ts ≠ 0)
    (hnear : ∀ t ∈ newest before p.entity, p.time < t + 2 ^ 30 ∧ t < p.time + 2 ^ 30)
    (hp : ¬ Accepts before p) : ∃ t ∈ newest before p.entity, p.time ≤ t := by
  rw [h.accepts_iff hts hnear] at hp
  push Not at hp
  obtain ⟨t, ht, hlt, _⟩ := hp
  exact ⟨t, ht, hlt.le⟩

/-- As long as nothing older was let through, the source follows the newest, and
nothing was overtaken across a wrap. -/
theorem NeverOlder.follows {run : List Pdu} (h : NeverOlder run) (hwindow : InWindow run) :
    Follows run ∧ HoursOrdered run := by
  induction run using List.reverseRecOn with
  | nil => exact ⟨⟨fun _ => rfl, by simp⟩, List.Pairwise.nil⟩
  | append_singleton run p ih =>
    obtain ⟨hfollows, hhours⟩ := ih (Each.before h) hwindow.before
    have hts : p.ts ≠ 0 := hwindow.stamped p (by simp)
    have hnear := hwindow.near.last
    have hle := Each.last h
    refine ⟨hfollows.append (hfollows.refused hts hnear) hle, ?_⟩
    apply List.pairwise_append.mpr
    refine ⟨hhours, List.pairwise_singleton _ _, fun q hq r hr he => ?_⟩
    obtain rfl := List.mem_singleton.mp hr
    obtain ⟨t, ht, hqt⟩ := hfollows.covers q hq
    have hhour : t / 2 ^ 31 ≤ r.hour := by
      by_contra hlt
      have hthrough : Accepts run r := (hfollows.accepts_iff hts hnear).mpr fun t' ht' => by
        obtain rfl : t = t' := Option.some.inj ((he ▸ ht).symm.trans ht')
        exact .inr (not_le.mp hlt)
      have := hle hthrough t (he ▸ ht)
      exact hlt (Nat.div_le_div_right this)
    exact (Nat.div_le_div_right hqt).trans hhour

theorem accepted_subset (run : List Pdu) : (judged run).accepted ⊆ run := by
  induction run using List.reverseRecOn with
  | nil => exact List.Subset.refl _
  | append_singleton run q ih =>
    have hfront : (judged run).accepted ⊆ run ++ [q] := List.Subset.trans ih (by simp)
    rw [judged_append]
    simp only [judge]
    split
    · exact hfront
    · exact List.append_subset.mpr ⟨hfront, by simp⟩

theorem mem_of_newest {run : List Pdu} {e : U64} {t : Nat} (ht : t ∈ newest run e) :
    ⟨e, t⟩ ∈ run := by
  obtain ⟨p, hp, rfl⟩ := List.mem_map.mp (List.max?_eq_some_iff.mp ht).1
  obtain ⟨haccepted, he⟩ := List.mem_filter.mp hp
  obtain rfl : p.entity = e := of_decide_eq_true he
  exact accepted_subset run haccepted

theorem HoursOrdered.neverOlder {run : List Pdu} (h : HoursOrdered run) (hwindow : InWindow run) :
    Follows run ∧ NeverOlder run := by
  induction run using List.reverseRecOn with
  | nil => exact ⟨⟨fun _ => rfl, by simp⟩, Each.nil⟩
  | append_singleton run p ih =>
    obtain ⟨hbefore, _, hlast⟩ := List.pairwise_append.mp h
    obtain ⟨hfollows, hnever⟩ := ih hbefore hwindow.before
    have hts : p.ts ≠ 0 := hwindow.stamped p (by simp)
    have hnear := hwindow.near.last
    have hle : Accepts run p → ∀ t ∈ newest run p.entity, t ≤ p.time := by
      intro hp t ht
      have hhour : t / 2 ^ 31 ≤ p.hour := hlast _ (mem_of_newest ht) p (by simp) rfl
      exact ((hfollows.accepts_iff hts hnear).mp hp t ht).resolve_right (not_lt.mpr hhour)
    exact ⟨hfollows.append (hfollows.refused hts hnear) hle, hnever.append hle⟩

/-- **An older PDU gets through exactly when one is late across a wrap**: in the
window, what the source lets through of an entity never goes back in time if and
only if no PDU of it is delivered after one of a later hour. -/
theorem accepts_newest_iff (run : List Pdu) (h : InWindow run) : NeverOlder run ↔ HoursOrdered run :=
  ⟨fun hnever => (hnever.follows h).2, fun hhours => (hhours.neverOlder h).2⟩

/-- The second PDU is 20 ticks older, but from before a wrap. -/
def overtakenRun : List Pdu := [⟨7, 2 ^ 31 + 10⟩, ⟨7, 2 ^ 31 - 10⟩]

theorem overtakenRun_inWindow : InWindow overtakenRun :=
  ⟨(Each.nil.append (by decide)).append (by decide), by decide⟩

theorem overtakenRun_goes_back : InWindow overtakenRun ∧ ¬ NeverOlder overtakenRun :=
  ⟨overtakenRun_inWindow, fun h =>
    absurd (h [⟨7, 2 ^ 31 + 10⟩] ⟨7, 2 ^ 31 - 10⟩ [] rfl) (by decide)⟩

theorem overtakenRun_hours : NeverOlder overtakenRun ↔ HoursOrdered overtakenRun :=
  accepts_newest_iff overtakenRun overtakenRun_inWindow

/-! ## The source -/

variable (unmarshal : List Wire.Byte → Option EntityStatePdu) (cfg : Config)

/-- The entity and the stamp of a datagram that comes to the staleness test. -/
def tested (d : List Wire.Byte) : Option (U64 × U32) :=
  if headerPasses cfg d then (unmarshal d).map fun pdu => (packed pdu, stampOf d) else none

theorem processDatagram_lastTs (d : Datagram) (m : Memory) (store : StateStore) :
    (processDatagram unmarshal cfg d m store).memory.lastTs =
      (tested unmarshal cfg d.bytes).elim m.lastTs fun w => (isStale w.1 w.2 m.lastTs).2 := by
  rcases processDatagram_cases unmarshal cfg d m with ⟨hnone, _, _, _, hrun⟩ | ⟨pdu, hsome, hrun⟩
  · rw [hrun, refused]
    unfold admitted at hnone
    unfold tested
    split
    · rename_i hpasses
      rw [if_pos hpasses] at hnone
      cases hpdu : unmarshal d.bytes with
      | none => rfl
      | some pdu =>
        rw [hpdu] at hnone
        have hstale : (isStale (packed pdu) (stampOf d.bytes) m.lastTs).1 = true := by
          simpa [Option.filter_some] using hnone
        have heq := isStale_eq (packed pdu) (stampOf d.bytes) m.lastTs
        rw [hstale, if_pos rfl] at heq
        simp [heq]
    · rfl
  · unfold admitted at hsome
    split at hsome
    · rename_i hpasses
      obtain ⟨hpdu, hfresh⟩ := Option.filter_eq_some_iff.mp hsome
      obtain ⟨log, haccept⟩ := acceptPdu_eq cfg pdu d
        { m with lastTs := m.lastTs.insert (packed pdu) (stampOf d.bytes) }
      have heq := isStale_eq (packed pdu) (stampOf d.bytes) m.lastTs
      rw [if_neg (by simpa using hfresh)] at heq
      rw [hrun, haccept, tested, if_pos hpasses, hpdu, Option.map_some, Option.elim_some, heq]
      rfl
    · cases hsome

/-- What an event brings to the staleness test. -/
def Event.tested : Event → Option (U64 × U32)
  | .datagram d => DisInputSource.tested unmarshal cfg d.bytes
  | .snapshot _ => none

/-- **The source's memory of stamps** is that of its staleness test, run over the
datagrams that come to it. -/
theorem run_lastTs (expiry : Int) (events : List Event) (run : List Pdu)
    (h : events.filterMap (Event.tested unmarshal cfg) = run.map fun p => (p.entity, p.ts)) :
    ((disInputSource unmarshal cfg).run ((disInputSource unmarshal cfg).start expiry) events).memory.lastTs =
      (judged run).lastTs := by
  suffices hfrom : ∀ (s : (disInputSource unmarshal cfg).State) (t : Judged),
      s.memory.lastTs = t.lastTs →
      ((disInputSource unmarshal cfg).run s events).memory.lastTs = (run.foldl judge t).lastTs from
    hfrom _ {} rfl
  induction events generalizing run with
  | nil =>
    intro s t hst
    obtain rfl : run = [] := List.map_eq_nil_iff.mp h.symm
    exact hst
  | cons e events ih =>
    intro s t hst
    cases e with
    | snapshot mono => exact ih run h ((disInputSource unmarshal cfg).step (.snapshot mono) s).2 t hst
    | datagram d =>
      have hstep := processDatagram_lastTs unmarshal cfg d s.memory s.store
      cases htested : tested unmarshal cfg d.bytes with
      | none =>
        rw [htested] at hstep
        rw [List.filterMap_cons_none (by exact htested)] at h
        exact ih run h ((disInputSource unmarshal cfg).step (.datagram d) s).2 t (hstep.trans hst)
      | some w =>
        rw [htested] at hstep
        rw [List.filterMap_cons_some (by exact htested)] at h
        obtain ⟨p, rest, rfl, rfl, hrest⟩ := List.map_eq_cons_iff.mp h.symm
        have hnext : (isStale p.entity p.ts s.memory.lastTs).2 = (judge t p).lastTs := by
          rw [hst]
          rfl
        exact ih rest hrest.symm ((disInputSource unmarshal cfg).step (.datagram d) s).2 (judge t p)
          (hstep.trans hnext)

end Olv.DisInputSource
