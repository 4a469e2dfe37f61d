import OrbitalViewer.StateStoreHistory
import OrbitalViewer.Lib.IeeeDivision

/-!
# The rate window

A snapshot throws away the accept times at the front of the queue that have left
the window. What is thrown away never comes back into a later window, and behind
a time inside the window there is none outside, so the length of the queue is the
number of accepted datagrams in the window (`rate_window`).
-/

namespace Olv.StateStore
open Ieee (F64)

/-- The stamp of an update, accepted or not. -/
def Call.updateStamp : Call → Option Int
  | apply _ _ mono => some mono
  | applyTrack _ _ mono => some mono
  | _ => none

def updateStamps (calls : List Call) : List Int := calls.filterMap Call.updateStamp

/-- The stamp a call adds to the accept times. -/
def Call.acceptStamp (c : Call) (s : StateStore) : List Int :=
  match c with
  | apply pkt wall mono => if (s.apply pkt wall mono).1 = .kApplied then [mono] else []
  | applyTrack _ _ mono => [mono]
  | _ => []

/-- The stamps of the accepted datagrams of a run. -/
def acceptStamps (s : StateStore) : List Call → List Int
  | [] => []
  | c :: calls => c.acceptStamp s ++ acceptStamps (c.step s) calls

/-- Outside the trailing window of a snapshot at `m`. -/
def Left (m t : Int) : Prop := m - t > seconds kRateWindow

instance (m t : Int) : Decidable (Left m t) := inferInstanceAs (Decidable (_ > _))

/-- The accepted datagrams in the trailing window of a snapshot at `m`. -/
def inWindow (expiry : Int) (calls : List Call) (m : Int) : List Int :=
  (acceptStamps { objectExpiry := expiry } calls).filter fun t => m - t ≤ seconds kRateWindow

theorem acceptStamp_sublist (c : Call) (s : StateStore) :
    (c.acceptStamp s).Sublist c.updateStamp.toList := by
  cases c with
  | apply pkt wall mono =>
    simp only [Call.acceptStamp, Call.updateStamp, Option.toList_some]
    split
    · exact List.Sublist.refl _
    · exact List.nil_sublist _
  | applyTrack u wall mono => exact List.Sublist.refl _
  | _ => exact List.nil_sublist _

theorem acceptStamps_sublist (s : StateStore) (calls : List Call) :
    (acceptStamps s calls).Sublist (updateStamps calls) := by
  induction calls generalizing s with
  | nil => exact List.nil_sublist _
  | cons c calls ih =>
    have hcons : updateStamps (c :: calls) = c.updateStamp.toList ++ updateStamps calls := by
      cases h : c.updateStamp <;> simp [updateStamps, h]
    rw [hcons]
    exact (acceptStamp_sublist c s).append (ih (c.step s))

/-- One call: it appends the stamp it accepts, and a snapshot drops stamps that
have left its window. -/
theorem step_acceptTimes (c : Call) (s : StateStore) :
    ∃ dropped, s.acceptTimes ++ c.acceptStamp s = dropped ++ (c.step s).acceptTimes ∧
      ∀ t ∈ dropped, ∃ m ∈ c.snapshotStamp, Left m t := by
  cases c with
  | snapshot m =>
    refine ⟨s.acceptTimes.takeWhile fun t => decide (Left m t), ?_, fun t ht => ⟨m, rfl, ?_⟩⟩
    · simp only [Call.acceptStamp, List.append_nil]
      exact List.takeWhile_append_dropWhile.symm
    · have hleft := List.mem_takeWhile_imp ht
      exact of_decide_eq_true hleft
  | apply pkt wall mono =>
    refine ⟨[], ?_, by simp⟩
    cases h : s.staleSequence pkt.sequence with
    | true => simp [Call.acceptStamp, Call.step, apply_refused h, countDropped]
    | false => simp [Call.acceptStamp, Call.step, apply_fresh h]
  | countDropped kind => exact ⟨[], by cases kind <;> simp [Call.acceptStamp, Call.step, countDropped], by simp⟩
  | _ => exact ⟨[], by simp [Call.acceptStamp, Call.step, countReceived, applyTrack], by simp⟩

/-- **A run** keeps all accepted stamps but those that left the window of one of
its snapshots. -/
theorem run_acceptTimes (s : StateStore) (calls : List Call) :
    ∃ dropped, s.acceptTimes ++ acceptStamps s calls = dropped ++ (run s calls).acceptTimes ∧
      ∀ t ∈ dropped, ∃ m ∈ snapshotStamps calls, Left m t := by
  induction calls generalizing s with
  | nil => exact ⟨[], by simp [acceptStamps, run], by simp⟩
  | cons c calls ih =>
    obtain ⟨now, hnow, hleft⟩ := step_acceptTimes c s
    obtain ⟨later, hlater, hleft'⟩ := ih (c.step s)
    refine ⟨now ++ later, ?_, fun t ht => ?_⟩
    · calc s.acceptTimes ++ acceptStamps s (c :: calls)
          = (s.acceptTimes ++ c.acceptStamp s) ++ acceptStamps (c.step s) calls :=
            (List.append_assoc ..).symm
        _ = now ++ ((c.step s).acceptTimes ++ acceptStamps (c.step s) calls) := by
            rw [hnow, List.append_assoc]
        _ = (now ++ later) ++ (run s (c :: calls)).acceptTimes := by
            rw [hlater, List.append_assoc]
            rfl
    · rcases List.mem_append.mp ht with ht | ht
      · obtain ⟨m, hm, hl⟩ := hleft t ht
        exact ⟨m, List.mem_filterMap.mpr ⟨c, List.mem_cons_self, hm⟩, hl⟩
      · obtain ⟨m, hm, hl⟩ := hleft' t ht
        obtain ⟨c', hc', hm⟩ := List.mem_filterMap.mp hm
        exact ⟨m, List.mem_filterMap.mpr ⟨c', List.mem_cons_of_mem c hc', hm⟩, hl⟩

/-- In a sorted queue the stamps that have left the window are the front. -/
theorem dropWhile_left {ts : List Int} (h : ts.Pairwise (· ≤ ·)) (m : Int) :
    (ts.dropWhile fun t => decide (Left m t)) =
      ts.filter fun t => m - t ≤ seconds kRateWindow := by
  induction ts with
  | nil => rfl
  | cons t ts ih =>
    obtain ⟨hle, hts⟩ := List.pairwise_cons.mp h
    by_cases hleft : Left m t
    · have hout : ¬ m - t ≤ seconds kRateWindow := not_le.mpr hleft
      rw [List.dropWhile_cons_of_pos (by simpa using hleft),
        List.filter_cons_of_neg (by simpa using hout), ih hts]
    · have hall : ∀ t' ∈ t :: ts, m - t' ≤ seconds kRateWindow := by
        intro t' ht'
        have hin : m - t ≤ seconds kRateWindow := not_lt.mp hleft
        rcases List.mem_cons.mp ht' with rfl | ht'
        · exact hin
        · have := hle t' ht'
          omega
      have hkeep : ((t :: ts).filter fun t => decide (m - t ≤ seconds kRateWindow)) = t :: ts :=
        List.filter_eq_self.mpr fun t' ht' => decide_eq_true (hall t' ht')
      rw [hkeep, List.dropWhile_cons_of_neg (by simpa using hleft)]

theorem live_eq_inWindow {expiry : Int} {calls : List Call} {m : Int}
    (hupdates : (updateStamps calls).Pairwise (· ≤ ·)) (hsnapshots : SnapshotsOrdered calls m) :
    (run { objectExpiry := expiry } calls).liveAcceptTimes m = inWindow expiry calls m := by
  obtain ⟨dropped, hsplit, hleft⟩ := run_acceptTimes { objectExpiry := expiry } calls
  have hsorted : (acceptStamps { objectExpiry := expiry } calls).Pairwise (· ≤ ·) :=
    hupdates.sublist (acceptStamps_sublist _ calls)
  rw [List.nil_append] at hsplit
  rw [hsplit] at hsorted
  have hgone : (dropped.filter fun t => decide (m - t ≤ seconds kRateWindow)) = [] := by
    apply List.filter_eq_nil_iff.mpr
    intro t ht
    obtain ⟨m', hm', hl⟩ := hleft t ht
    have hle : m' ≤ m :=
      (List.pairwise_append.mp hsnapshots).2.2 m' hm' m (List.mem_singleton.mpr rfl)
    simp only [Left] at hl
    simp only [decide_eq_true_eq, not_le]
    omega
  rw [inWindow, hsplit, List.filter_append, hgone, List.nil_append]
  exact dropWhile_left (List.pairwise_append.mp hsorted).2.1 m

theorem acceptStamp_core {s s' : StateStore} (h : s.core = s'.core) (c : Call) :
    c.acceptStamp s = c.acceptStamp s' := by
  cases c with
  | apply pkt wall mono =>
    simp only [core, Prod.mk.injEq] at h
    have hstale : s.staleSequence pkt.sequence = s'.staleSequence pkt.sequence := by
      simp only [staleSequence, h.1, h.2.1]
    simp only [Call.acceptStamp, apply_result, hstale]
  | _ => rfl

/-- Snapshots do not decide what is accepted. -/
theorem acceptStamps_updates (s s' : StateStore) (h : s.core = s'.core) (calls : List Call) :
    acceptStamps s calls = acceptStamps s' (updates calls) := by
  induction calls generalizing s s' with
  | nil => rfl
  | cons c calls ih =>
    obtain ⟨hcore, _⟩ := core_step h c
    by_cases hc : c.snapshotStamp.isNone = true
    · have hcons : updates (c :: calls) = c :: updates calls := List.filter_cons_of_pos hc
      rw [hcons, acceptStamps, acceptStamps, acceptStamp_core h, ih _ _ hcore]
    · have hcons : updates (c :: calls) = updates calls := List.filter_cons_of_neg hc
      obtain ⟨m, rfl⟩ : ∃ m, c = .snapshot m := by
        cases c with
        | snapshot m => exact ⟨m, rfl⟩
        | _ => exact absurd rfl hc
      rw [hcons]
      exact ih ((Call.snapshot m).step s) s' h

/-- **The reported rate is the trailing-window count**: a fifth of the number of
accepted datagrams of the last five seconds, whatever snapshots were taken before.
The quotient is rounded, but by so little that five times it is the count again,
below the 2^52 stamps no memory holds. -/
theorem rate_window (expiry : Int) (calls : List Call) (m : Int)
    (hupdates : (updateStamps calls).Pairwise (· ≤ ·)) (hsnapshots : SnapshotsOrdered calls m) :
    (snapshotAfter expiry calls m).stats.udpRateHz = rateHz (inWindow expiry calls m) ∧
    ((inWindow expiry calls m).length < 2 ^ 52 →
      (snapshotAfter expiry calls m).stats.udpRateHz.mul (F64.ofNat 5) =
        F64.ofNat (inWindow expiry calls m).length) ∧
    inWindow expiry calls m = inWindow expiry (updates calls) m := by
  have hrate : (snapshotAfter expiry calls m).stats.udpRateHz = rateHz (inWindow expiry calls m) :=
    congrArg rateHz (live_eq_inWindow hupdates hsnapshots)
  refine ⟨hrate, fun hn => ?_, ?_⟩
  · have hsize : (BitVec.ofNat 64 (inWindow expiry calls m).length).toNat =
        (inWindow expiry calls m).length := by
      rw [BitVec.toNat_ofNat]
      exact Nat.mod_eq_of_lt (hn.trans (by decide))
    rw [hrate, rateHz, hsize]
    exact F64.div_five_mul hn
  · rw [inWindow, inWindow, acceptStamps_updates _ _ rfl]

/-- Two updates, a snapshot between them. -/
def rateCalls : List Call :=
  [.apply { sequence := 7 } 0 0, .snapshot (seconds 4), .apply { sequence := 7 } 0 (seconds 5),
    .applyTrack {} 0 (seconds 6)]

/-- At 10 s the first has left the window and the repeated one was refused. -/
theorem rate_window_sample :
    (snapshotAfter 15 rateCalls (seconds 10)).stats.udpRateHz.mul (F64.ofNat 5) = F64.ofNat 1 :=
  (rate_window 15 rateCalls (seconds 10) (by decide) (by unfold SnapshotsOrdered; decide)).2.1
    (by decide)

end Olv.StateStore
