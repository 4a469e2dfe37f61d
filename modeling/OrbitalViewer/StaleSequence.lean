import OrbitalViewer.Lib.HighWater
import OrbitalViewer.StateStoreHistory

/-!
# Stale sequences on a lossy network

A sender stamps its packets with consecutive sequence numbers that wrap. The
network drops, duplicates and reorders them. As long as no delivered index is
half the number space away from the highest one accepted, the store's signed
test is the comparison of indices (`Follows`), so the store lets through the
rising indices and holds what the highest of them carried.
-/

namespace Olv.StateStore
open Proto (StatePacket)
open LastWrite (last)

/-- What a sender puts into its packets, but for the sequence, and the sequence
of the first. -/
structure Sender where
  start : U32
  body : Nat → StatePacket

namespace Sender

def packet (sender : Sender) (k : Nat) : StatePacket :=
  { sender.body k with sequence := Serial.stamp sender.start k }

/-- The row the `k`-th packet gives an object; a later record wins. -/
def row (sender : Sender) (k : Nat) (id : U32) : Option SnapshotObject :=
  last ((sender.body k).objects.map fun r => (r.id, recordRow r)) id

end Sender

/-- What happens at the store: the network delivers the `k`-th packet, or some
other call is made. -/
inductive Arrival where
  | packet (k : Nat) (wall mono : Int)
  | countReceived (bytes : Nat)
  | countDropped (kind : DropKind)
  | snapshot (mono : Int)

variable (sender : Sender)

def Arrival.call : Arrival → Call
  | packet k wall mono => .apply (sender.packet k) wall mono
  | countReceived bytes => .countReceived bytes
  | countDropped kind => .countDropped kind
  | snapshot mono => .snapshot mono

def Arrival.index : Arrival → Option Nat
  | packet k _ _ => some k
  | _ => none

/-- The store after the arrivals, from an empty one. -/
def after (expiry : Int) (arrivals : List Arrival) : StateStore :=
  run { objectExpiry := expiry } (arrivals.map (Arrival.call sender))

/-- The index `apply` accepts, with its time stamp. -/
def Arrival.applied (a : Arrival) (s : StateStore) : List (Nat × Int) :=
  match a with
  | packet k wall mono =>
    if (s.apply (sender.packet k) wall mono).1 = .kApplied then [(k, mono)] else []
  | _ => []

def appliedFrom (s : StateStore) : List Arrival → List (Nat × Int)
  | [] => []
  | a :: arrivals => a.applied sender s ++ appliedFrom ((a.call sender).step s) arrivals

/-- The indices accepted in a run from an empty store, in order. -/
def accepted (expiry : Int) (arrivals : List Arrival) : List Nat :=
  (appliedFrom sender { objectExpiry := expiry } arrivals).map Prod.fst

/-- Every delivered index is less than 2^31 away from the largest accepted before. -/
def InWindow (expiry : Int) (arrivals : List Arrival) : Prop :=
  ∀ before k wall mono later, arrivals = before ++ .packet k wall mono :: later →
    ∀ t, IsGreatest {t | t ∈ accepted sender expiry before} t → k < t + 2 ^ 31 ∧ t < k + 2 ^ 31

variable {sender} {expiry : Int}

/-! ## One arrival -/

/-- The store's memory of the highest accepted index. -/
structure Follows (sender : Sender) (s : StateStore) (high : Option Nat) : Prop where
  have_seq : s.haveSeq = high.isSome
  last_seq : ∀ t ∈ high, s.lastSeq = Serial.stamp sender.start t
  satellite : s.satellite = high.map fun t => packetSatellite (sender.packet t)

theorem Follows.stale_iff {s : StateStore} {high : Option Nat} (h : Follows sender s high) {k : Nat}
    (hwindow : ∀ t ∈ high, k < t + 2 ^ 31 ∧ t < k + 2 ^ 31) :
    s.staleSequence (sender.packet k).sequence = false ↔ ∀ t ∈ high, t < k := by
  cases high with
  | none => simp [staleSequence, h.have_seq]
  | some t =>
    obtain ⟨hk, ht⟩ := hwindow t rfl
    have hdiff : ((sender.packet k).sequence - s.lastSeq).toInt = (k : Int) - t := by
      rw [h.last_seq t rfl]
      exact Serial.toInt_stamp_sub sender.start (by decide) hk ht
    simp only [staleSequence, h.have_seq, hdiff, Option.isSome_some, Bool.true_and,
      decide_eq_false_iff_not, Option.mem_def, Option.some.injEq, forall_eq']
    omega

/-! ## Runs -/

/-- The indices that rise above everything before them. -/
def rising (indices : List Nat) : List Nat :=
  HighWater.passed (fun _ => ()) id id (fun _ => none) indices

theorem rising_pairwise (indices : List Nat) : (rising indices).Pairwise (· < ·) :=
  (HighWater.passed_pairwise _ fun _ _ => le_refl _).imp fun h => h rfl

theorem rising_append (indices : List Nat) (k : Nat) :
    rising (indices ++ [k]) = rising indices ++ if ∀ t ∈ rising indices, t < k then [k] else [] := by
  have hfresh : HighWater.Fresh (fun _ => ()) id
      (HighWater.marks (fun _ => ()) id id (fun _ => none) indices) k ↔ _ :=
    HighWater.fresh_iff (fun _ _ => le_refl _) k
  simp only [forall_const] at hfresh
  rw [rising, HighWater.passed_append]
  congr 1
  simp only [HighWater.passed, hfresh]
  rfl

theorem isGreatest_iff {indices : List Nat} (h : indices.Pairwise (· < ·)) {t : Nat} :
    IsGreatest {k | k ∈ indices} t ↔ indices.getLast? = some t := by
  rcases List.eq_nil_or_concat' indices with rfl | ⟨front, last, rfl⟩
  · simp [IsGreatest]
  · have hlast : ∀ k ∈ front, k < last := fun k hk =>
      (List.pairwise_append.mp h).2.2 k hk last List.mem_cons_self
    have hgreatest : IsGreatest {k | k ∈ front ++ [last]} last := by
      refine ⟨by simp, fun k hk => ?_⟩
      rcases List.mem_append.mp hk with hk | hk
      · exact (hlast k hk).le
      · exact (List.mem_singleton.mp hk).le
    rw [List.getLast?_concat, Option.some.injEq]
    exact ⟨fun ht => hgreatest.unique ht, fun ht => ht ▸ hgreatest⟩

variable (sender) in
theorem appliedFrom_append (s : StateStore) (arrivals : List Arrival) (a : Arrival) :
    appliedFrom sender s (arrivals ++ [a]) = appliedFrom sender s arrivals ++
      a.applied sender (run s (arrivals.map (Arrival.call sender))) := by
  induction arrivals generalizing s with
  | nil => simp [appliedFrom, run]
  | cons b arrivals ih =>
    simp only [List.cons_append, appliedFrom, ih, List.append_assoc]
    rfl

theorem after_append (arrivals : List Arrival) (a : Arrival) :
    after sender expiry (arrivals ++ [a]) = (a.call sender).step (after sender expiry arrivals) := by
  simp [after, run]

theorem accepted_append (arrivals : List Arrival) (a : Arrival) :
    accepted sender expiry (arrivals ++ [a]) = accepted sender expiry arrivals ++
      (a.applied sender (after sender expiry arrivals)).map Prod.fst := by
  rw [accepted, appliedFrom_append, List.map_append]
  rfl

theorem InWindow.before {arrivals later : List Arrival}
    (h : InWindow sender expiry (arrivals ++ later)) : InWindow sender expiry arrivals := by
  rintro before k wall mono rest rfl t ht
  exact h before k wall mono (rest ++ later) (by simp) t ht

theorem mem_accepted {arrivals : List Arrival} {t : Nat} (ht : t ∈ accepted sender expiry arrivals) :
    ∃ wall mono, .packet t wall mono ∈ arrivals := by
  induction arrivals using List.reverseRecOn with
  | nil => cases ht
  | append_singleton arrivals a ih =>
    rw [accepted_append] at ht
    rcases List.mem_append.mp ht with ht | ht
    · obtain ⟨wall, mono, hmem⟩ := ih ht
      exact ⟨wall, mono, List.mem_append_left _ hmem⟩
    · cases a with
      | packet k wall mono =>
        simp only [Arrival.applied] at ht
        split at ht
        · obtain rfl : t = k := by simpa using ht
          exact ⟨wall, mono, by simp⟩
        · cases ht
      | _ => cases ht

/-- Among the first 2^31 packets any delivery is in the window. -/
theorem inWindow_of_lt {arrivals : List Arrival}
    (h : ∀ k wall mono, .packet k wall mono ∈ arrivals → k < 2 ^ 31) :
    InWindow sender expiry arrivals := by
  rintro before k wall mono later rfl t ht
  obtain ⟨wall', mono', hmem⟩ := mem_accepted ht.1
  have hk := h k wall mono (by simp)
  have ht := h t wall' mono' (List.mem_append_left _ hmem)
  omega

/-- **The store accepts the rising indices** and remembers the last of them. -/
theorem run_follows {arrivals : List Arrival} (h : InWindow sender expiry arrivals) :
    accepted sender expiry arrivals = rising (arrivals.filterMap Arrival.index) ∧
    Follows sender (after sender expiry arrivals) (accepted sender expiry arrivals).getLast? := by
  induction arrivals using List.reverseRecOn with
  | nil => exact ⟨rfl, rfl, by rintro _ ⟨⟩, rfl⟩
  | append_singleton arrivals a ih =>
    obtain ⟨hacc, hfollows⟩ := ih h.before
    rw [accepted_append, after_append, List.filterMap_append]
    cases a with
    | packet k wall mono =>
      have hsorted : (accepted sender expiry arrivals).Pairwise (· < ·) := hacc ▸ rising_pairwise _
      have hgreatest {t : Nat} := isGreatest_iff hsorted (t := t)
      have hstale := hfollows.stale_iff (k := k) fun t ht =>
        h arrivals k wall mono [] rfl t (hgreatest.mpr ht)
      have hnewer : (∀ t ∈ (accepted sender expiry arrivals).getLast?, t < k) ↔
          ∀ t ∈ accepted sender expiry arrivals, t < k := by
        constructor
        · intro hall t ht
          obtain ⟨top, htop⟩ := Option.isSome_iff_exists.mp
            (List.getLast?_isSome.mpr (List.ne_nil_of_mem ht))
          exact ((hgreatest.mpr htop).2 ht).trans_lt (hall top htop)
        · exact fun hall t ht => hall t (hgreatest.mpr ht).1
      have happlied := (apply_result (sender.packet k) wall mono _).trans (hstale.trans hnewer)
      rw [hacc] at happlied hfollows
      simp only [Arrival.applied, happlied, List.filterMap_cons, Arrival.index, List.filterMap_nil,
        rising_append, hacc, Arrival.call, Call.step]
      by_cases hrise : ∀ t ∈ rising (arrivals.filterMap Arrival.index), t < k
      · have hfresh := (apply_result (sender.packet k) wall mono _).mp (happlied.mpr hrise)
        simp only [if_pos hrise, apply_fresh hfresh, List.map_cons, List.map_nil,
          List.getLast?_concat]
        exact ⟨trivial, rfl, fun t ht => Option.some.inj ht ▸ rfl, rfl⟩
      · have hrefused : (after sender expiry arrivals).staleSequence (sender.packet k).sequence = true := by
          have := mt (apply_result (sender.packet k) wall mono _).mpr (mt happlied.mp hrise)
          simpa using this
        simp only [if_neg hrise, apply_refused hrefused, List.map_nil, List.append_nil]
        exact ⟨trivial, hfollows.have_seq, hfollows.last_seq, hfollows.satellite⟩
    | countDropped kind =>
      simp only [Arrival.applied, List.map_nil, List.append_nil, Arrival.index, List.filterMap_cons,
        List.filterMap_nil]
      cases kind <;> exact ⟨hacc, hfollows.have_seq, hfollows.last_seq, hfollows.satellite⟩
    | _ =>
      simp only [Arrival.applied, List.map_nil, List.append_nil, Arrival.index, List.filterMap_cons,
        List.filterMap_nil]
      exact ⟨hacc, hfollows.have_seq, hfollows.last_seq, hfollows.satellite⟩

/-! ## The object table -/

variable (sender) in
/-- What the accepted packets write. -/
def writes (applied : List (Nat × Int)) : List (U32 × StoredObject) :=
  applied.flatMap fun p => (sender.body p.1).objects.map fun r => (r.id, ⟨recordRow r, p.2⟩)

theorem history_eq (s : StateStore) (arrivals : List Arrival) :
    history s (arrivals.map (Arrival.call sender)) = writes sender (appliedFrom sender s arrivals) := by
  induction arrivals generalizing s with
  | nil => rfl
  | cons a arrivals ih =>
    have hwritten : (a.call sender).written s = writes sender (a.applied sender s) := by
      cases a with
      | packet k wall mono =>
        simp only [Arrival.call, Call.written, Arrival.applied]
        split
        · simp [writes, Sender.packet]
        · rfl
      | _ => rfl
    simp only [List.map_cons, history, appliedFrom, hwritten, ih]
    exact List.flatMap_append.symm

/-- The last write of an object is by the highest index that carried it. -/
theorem last_writes {applied : List (Nat × Int)} (h : (applied.map Prod.fst).Pairwise (· < ·))
    (id : U32) :
    (last (writes sender applied) id = none ∧ ∀ p ∈ applied, sender.row p.1 id = none) ∨
    ∃ t mono row, (t, mono) ∈ applied ∧ sender.row t id = some row ∧
      (∀ p ∈ applied, sender.row p.1 id ≠ none → p.1 ≤ t) ∧
      last (writes sender applied) id = some ⟨row, mono⟩ := by
  induction applied using List.reverseRecOn with
  | nil => exact .inl ⟨rfl, by simp⟩
  | append_singleton applied p ih =>
    rw [List.map_append, List.pairwise_append] at h
    have htop : ∀ q ∈ applied, q.1 < p.1 := fun q hq =>
      h.2.2 q.1 (List.mem_map_of_mem hq) p.1 (by simp)
    have hlast : last (writes sender (applied ++ [p])) id =
        ((sender.row p.1 id).map fun row => ⟨row, p.2⟩).or (last (writes sender applied) id) := by
      rw [writes, List.flatMap_append, LastWrite.last_append, Sender.row, ← LastWrite.last_map]
      simp [writes, Function.comp_def]
    rw [hlast]
    cases hrow : sender.row p.1 id with
    | some row =>
      refine .inr ⟨p.1, p.2, row, by simp, hrow, fun q hq _ => ?_, rfl⟩
      rcases List.mem_append.mp hq with hq | hq
      · exact (htop q hq).le
      · rw [List.mem_singleton.mp hq]
    | none =>
      rcases ih h.1 with ⟨hnone, hall⟩ | ⟨t, mono, row, hmem, hr, hle, hsome⟩
      · refine .inl ⟨hnone, fun q hq => ?_⟩
        rcases List.mem_append.mp hq with hq | hq
        · exact hall q hq
        · rw [List.mem_singleton.mp hq, hrow]
      · refine .inr ⟨t, mono, row, List.mem_append_left _ hmem, hr, fun q hq hne => ?_, hsome⟩
        rcases List.mem_append.mp hq with hq | hq
        · exact hle q hq hne
        · rw [List.mem_singleton.mp hq] at hne
          exact absurd hrow hne

/-- The stored record of an object is that of the highest accepted index that
carried it, unless a snapshot found it expired. -/
theorem table_after {sender : Sender} {expiry : Int} {arrivals : List Arrival}
    (hsorted : (accepted sender expiry arrivals).Pairwise (· < ·)) (id : U32) :
    let carriers : Set Nat := {k | k ∈ accepted sender expiry arrivals ∧ sender.row k id ≠ none}
    (∀ o, table (after sender expiry arrivals).objects id = some o →
      ∃ t, IsGreatest carriers t ∧ sender.row t id = some o.obj) ∧
    (table (after sender expiry arrivals).objects id = none → carriers = ∅ ∨
      ∃ t mono, IsGreatest carriers t ∧
        (t, mono) ∈ appliedFrom sender { objectExpiry := expiry } arrivals ∧
        ∃ m ∈ snapshotStamps (arrivals.map (Arrival.call sender)), m - mono > seconds expiry) := by
  intro carriers
  have htable := table_run expiry (arrivals.map (Arrival.call sender)) id
  rw [lastWrite, history_eq] at htable
  have hfst {p : Nat × Int} (hp : p ∈ appliedFrom sender { objectExpiry := expiry } arrivals) :
      p.1 ∈ accepted sender expiry arrivals := List.mem_map_of_mem hp
  rcases last_writes hsorted id with ⟨hnone, hall⟩ | ⟨t, mono, row, hmem, hrow, hle, hsome⟩
  · rw [hnone] at htable
    have hmissing : table (after sender expiry arrivals).objects id = none :=
      by
      rcases htable with hn | ⟨hn, _⟩
      · exact hn
      · exact hn
    refine ⟨fun o ho => ?_, fun _ => .inl ?_⟩
    · exact absurd (hmissing.symm.trans ho) (Option.some_ne_none o).symm
    · apply Set.eq_empty_of_forall_notMem
      intro k hk
      obtain ⟨p, hp, rfl⟩ := List.mem_map.mp hk.1
      exact hk.2 (hall p hp)
  · have hgreatest : IsGreatest carriers t := by
      refine ⟨⟨hfst hmem, by rw [hrow]; exact Option.some_ne_none row⟩, fun k hk => ?_⟩
      obtain ⟨p, hp, rfl⟩ := List.mem_map.mp hk.1
      exact hle p hp hk.2
    rw [hsome] at htable
    rcases htable with hpresent | ⟨hgone, o, ho, hdead⟩
    · refine ⟨fun o ho => ⟨t, hgreatest, ?_⟩, fun hn => ?_⟩
      · obtain rfl := Option.some.inj (hpresent.symm.trans ho)
        exact hrow
      · exact absurd (hpresent.symm.trans hn) (Option.some_ne_none _)
    · obtain rfl := Option.some.inj ho
      refine ⟨fun o ho => ?_, fun _ => .inr ⟨t, mono, hgreatest, hmem, hdead⟩⟩
      exact absurd (hgone.symm.trans ho) (Option.some_ne_none _).symm

/-- **Staleness is safe across wraparound.** The indices `apply` accepts rise
strictly and miss none that is newer than all before; the satellite is that of
the highest, and an object's record is that of the highest that carried it,
unless a snapshot found it expired. -/
theorem lossy_delivery (sender : Sender) (expiry : Int) (arrivals : List Arrival)
    (h : InWindow sender expiry arrivals) :
    let store := after sender expiry arrivals
    let indices := accepted sender expiry arrivals
    let carriers (id : U32) : Set Nat := {k | k ∈ indices ∧ sender.row k id ≠ none}
    indices.Pairwise (· < ·) ∧
    (∀ before k wall mono later, arrivals = before ++ .packet k wall mono :: later →
      (∀ t ∈ accepted sender expiry before, t < k) →
      ((after sender expiry before).apply (sender.packet k) wall mono).1 = .kApplied) ∧
    (indices = [] → store.satellite = none) ∧
    (∀ t, IsGreatest {k | k ∈ indices} t → store.satellite = some (packetSatellite (sender.packet t))) ∧
    ∀ id, (∀ o, table store.objects id = some o →
        ∃ t, IsGreatest (carriers id) t ∧ sender.row t id = some o.obj) ∧
      (table store.objects id = none → carriers id = ∅ ∨
        ∃ t mono, IsGreatest (carriers id) t ∧
          (t, mono) ∈ appliedFrom sender { objectExpiry := expiry } arrivals ∧
          ∃ m ∈ snapshotStamps (arrivals.map (Arrival.call sender)), m - mono > seconds expiry) := by
  obtain ⟨hrising, hfollows⟩ := run_follows h
  have hsorted : (accepted sender expiry arrivals).Pairwise (· < ·) := hrising ▸ rising_pairwise _
  refine ⟨hsorted, ?newer, ?none, ?highest, table_after hsorted⟩
  case newer =>
    rintro before k wall mono later rfl hall
    obtain ⟨hbefore, hfollows⟩ := run_follows h.before
    have hgreatest {t : Nat} := isGreatest_iff (hbefore ▸ rising_pairwise _ :
      (accepted sender expiry before).Pairwise (· < ·)) (t := t)
    rw [apply_result, hfollows.stale_iff fun t ht => h before k wall mono later rfl t (hgreatest.mpr ht)]
    exact fun t ht => hall t (hgreatest.mpr ht).1
  case none =>
    intro hnil
    rw [hfollows.satellite, hnil]
    rfl
  case highest =>
    intro t ht
    rw [hfollows.satellite, (isGreatest_iff hsorted).mp ht]
    rfl

/-- A sender about to wrap, with one object in every packet. -/
def sampleSender : Sender where
  start := 0xFFFFFFFF
  body _ := { objects := [{ id := 9 }] }

/-- The second packet overtakes the first, and is repeated. -/
def sampleArrivals : List Arrival := [.packet 1 0 0, .packet 0 1 1, .packet 1 2 2]

theorem lossy_delivery_sample :
    accepted sampleSender 15 sampleArrivals = [1] ∧
    (after sampleSender 15 sampleArrivals).satellite =
      some (packetSatellite (sampleSender.packet 1)) := by
  have hindices : accepted sampleSender 15 sampleArrivals = [1] := by decide
  have hwindow : InWindow sampleSender 15 sampleArrivals := by
    apply inWindow_of_lt
    intro k wall mono hk
    have hle : k = 1 ∨ k = 0 := by
      rcases List.mem_cons.mp hk with hk | hk
      · exact .inl (Arrival.packet.inj hk).1
      rcases List.mem_cons.mp hk with hk | hk
      · exact .inr (Arrival.packet.inj hk).1
      · exact .inl (Arrival.packet.inj (List.mem_singleton.mp hk)).1
    omega
  refine ⟨hindices, (lossy_delivery sampleSender 15 sampleArrivals hwindow).2.2.2.1 1 ?_⟩
  rw [hindices]
  exact ⟨by simp, by simp [upperBounds]⟩

end Olv.StateStore
