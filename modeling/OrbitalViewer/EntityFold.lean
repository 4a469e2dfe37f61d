import OrbitalViewer.FoldCollisions
import OrbitalViewer.Lib.Fnv

/-!
# Folded ids of one application

The fold is FNV-1a, whose prime is far enough from small fractions of 2^32 to tell the
last two bytes of an id apart, and those are the entity's number. A warning of a
collision is about two claimants of the folded id (`collision_claimants`), so never
about two entities of one application.
-/

namespace Olv.DisInputSource
open Wire (Byte)

/-! ## The fold -/

theorem spreads : Fnv.Spreads (16777619 : U32) := by
  intro d e hd he hdvd
  obtain ⟨k, hk⟩ := hdvd
  have hprime : ((16777619 : U32).toNat : ℤ) = 16777619 := rfl
  rw [hprime] at hk
  rw [abs_lt] at hd he
  -- The prime is 2^24 + 403, and 403 differences do not reach 2^24.
  have hsmall : 403 * d - e = 16777216 * (256 * k - d) := by omega
  have hzero : 256 * k - d = 0 := by omega
  omega

theorem entity_ext {e e' : U16} (hhigh : (e >>> 8).setWidth 8 = (e' >>> 8).setWidth 8)
    (hlow : (e &&& 0xFF).setWidth 8 = (e' &&& 0xFF).setWidth 8) : e = e' := by
  have hmask : ∀ i < 8, (0xFF : U16).getLsbD i = true := by decide
  apply BitVec.eq_of_getLsbD_eq
  intro i hi
  by_cases h8 : i < 8
  · have hbit := congrArg (fun b : Byte => b.getLsbD i) hlow
    simpa only [BitVec.getLsbD_setWidth, BitVec.getLsbD_and, hmask i h8, Bool.and_true, h8,
      decide_true, Bool.true_and] using hbit
  · have hbit := congrArg (fun b : Byte => b.getLsbD (i - 8)) hhigh
    have hback : 8 + (i - 8) = i := by omega
    simpa [BitVec.getLsbD_setWidth, BitVec.getLsbD_ushiftRight, hback, show i - 8 < 8 by omega]
      using hbit

theorem foldEntityId_eq (site app entity : U16) : foldEntityId site app entity =
    Fnv.hash 16777619 2166136261 ([(site >>> 8).setWidth 8, (site &&& 0xFF).setWidth 8,
      (app >>> 8).setWidth 8, (app &&& 0xFF).setWidth 8] ++
        [(entity >>> 8).setWidth 8, (entity &&& 0xFF).setWidth 8]) := rfl

/-- Entities of one application fold apart. -/
theorem foldEntityId_injective (site app : U16) : Function.Injective (foldEntityId site app) := by
  intro e e' h
  rw [foldEntityId_eq, foldEntityId_eq] at h
  obtain ⟨hhigh, hlow⟩ := Fnv.hash_last_two (by decide) (by decide) spreads _ _ h
  exact entity_ext hhigh hlow

theorem EntityId.eq_of_fold {e e' : EntityId} (hsite : e.site = e'.site)
    (happ : e.application = e'.application) (hfold : e.fold = e'.fold) : e = e' := by
  have hentity : e.entity = e'.entity := by
    apply foldEntityId_injective e.site e.application
    rw [EntityId.fold, EntityId.fold, ← hsite, ← happ] at hfold
    exact hfold
  cases e
  cases e'
  exact EntityId.mk.injEq .. ▸ ⟨hsite, happ, hentity⟩

/-! ## Who is warned about -/

variable {unmarshal : List Byte → Option EntityStatePdu} {cfg : Config}

theorem Harmless.ne_collision {line : LogLine} (h : Harmless line) (e prev : EntityId) :
    line ≠ collision e prev := fun heq => h.not_names (.inl heq)

/-- A warning is about the claimant before and the one that comes. -/
theorem Holds.warned {m : Memory} {pdus : List EntityStatePdu} (h : Holds cfg m pdus)
    {pdu : EntityStatePdu} {e prev : EntityId}
    (hmem : collision e prev ∈ (claimFold pdu m.objectFold).1) :
    e = pdu.id ∧ e ≠ prev ∧ prev ∈ claimants cfg e.fold pdus := by
  rw [claimFold_log, h] at hmem
  cases hlast : (claimants cfg (folded pdu) pdus).getLast? with
  | none =>
    rw [hlast] at hmem
    cases hmem
  | some last =>
    rw [hlast] at hmem
    have hunpack : (⟨(unpack48 last.packed).1, (unpack48 last.packed).2.1,
        (unpack48 last.packed).2.2⟩ : EntityId) = last := by
      rw [EntityId.packed, unpack48_pack48]
    simp only [Option.map_some, hunpack] at hmem
    split at hmem
    · next hdiffer =>
      obtain ⟨he, hprev⟩ := collision_injective (List.mem_singleton.mp hmem)
      have hfold : e.fold = folded pdu := by
        rw [he]
        rfl
      rw [hfold, hprev]
      refine ⟨he, fun hsame => hdiffer ?_, List.mem_of_getLast? hlast⟩
      rw [← hsame, he]
      rfl
    · cases hmem

theorem claimants_mono {id : U32} {e : EntityId} {pdus later : List EntityStatePdu}
    (h : e ∈ claimants cfg id pdus) : e ∈ claimants cfg id (pdus ++ later) := by
  unfold claimants at h ⊢
  rw [List.filter_append, List.map_append]
  exact List.mem_append_left _ h

theorem mem_claimants {pdu : EntityStatePdu} {pdus : List EntityStatePdu} (h : pdu ∈ pdus)
    (hsat : isSatellite cfg pdu = false) : pdu.id ∈ claimants cfg pdu.id.fold pdus := by
  refine List.mem_map.mpr ⟨pdu, List.mem_filter.mpr ⟨h, ?_⟩, rfl⟩
  rw [hsat, Bool.not_false, Bool.true_and]
  exact decide_eq_true rfl

/-- A warning about a datagram. -/
theorem Holds.warned_datagram {m : Memory} {pdus : List EntityStatePdu} (h : Holds cfg m pdus)
    {d : Datagram} {store : StateStore} {e prev : EntityId}
    (hmem : collision e prev ∈ (processDatagram unmarshal cfg d m store).log) :
    e ≠ prev ∧ e ∈ claimants cfg e.fold (pdus ++ (admitted unmarshal cfg d.bytes m).toList) ∧
      prev ∈ claimants cfg e.fold (pdus ++ (admitted unmarshal cfg d.bytes m).toList) := by
  rcases processDatagram_cases unmarshal cfg d m with ⟨_, o, log, ho, heq⟩ | ⟨pdu, hsome, heq⟩
  · have hrefused := refused_log unmarshal d m store (by rw [heq]; exact ho) _ hmem
    exact absurd rfl (hrefused.ne_collision e prev)
  · obtain ⟨line, hline, hlog⟩ := acceptPdu_log cfg pdu d
      { m with lastTs := m.lastTs.insert (packed pdu) (stampOf d.bytes) }
      (store.countReceived d.bytes.length)
    rw [heq, hlog] at hmem
    rcases List.mem_append.mp hmem with hwarned | hlast
    · cases hsat : isSatellite cfg pdu with
      | true =>
        rw [hsat] at hwarned
        cases hwarned
      | false =>
        rw [hsat] at hwarned
        obtain ⟨rfl, hne, hprev⟩ := Holds.warned (m := m) h hwarned
        rw [hsome]
        exact ⟨hne, mem_claimants (by simp) hsat, claimants_mono hprev⟩
    · exact absurd (List.mem_singleton.mp hlast).symm (hline.ne_collision e prev)

/-- **A warning of a run** is about two claimants of the folded id. -/
theorem collision_claimants {expiry : Int} {events : List Event} {e prev : EntityId}
    (hmem : collision e prev ∈ (disInputSource unmarshal cfg).log
      ((disInputSource unmarshal cfg).start expiry) events) :
    e ≠ prev ∧ e ∈ claimants cfg e.fold (acceptedOf unmarshal cfg events) ∧
      prev ∈ claimants cfg e.fold (acceptedOf unmarshal cfg events) := by
  induction events using List.reverseRecOn with
  | nil => cases hmem
  | append_singleton events event ih =>
    rw [InputSource.log_append] at hmem
    cases event with
    | datagram d =>
      have hlogged := run_logged unmarshal cfg expiry events
      rw [acceptedOf_datagram]
      rcases List.mem_append.mp hmem with hbefore | hnow
      · obtain ⟨hne, he, hprev⟩ := ih hbefore
        exact ⟨hne, claimants_mono he, claimants_mono hprev⟩
      · rw [InputSource.logOf, hlogged.memory] at hnow
        exact hlogged.holds.warned_datagram hnow
    | snapshot mono =>
      rw [acceptedOf_snapshot]
      exact ih ((List.mem_append.mp hmem).resolve_right (List.not_mem_nil))

/-! ## Who is accepted -/

def Config.satellite (cfg : Config) : EntityId := ⟨cfg.satSite, cfg.satApp, cfg.satEntity⟩

theorem isSatellite_iff {pdu : EntityStatePdu} :
    isSatellite cfg pdu = true ↔ pdu.id = cfg.satellite := by
  simp [isSatellite, EntityStatePdu.id, Config.satellite, and_assoc]

theorem accepted_unmarshal {m : Memory} {ds : List Datagram} {pdu : EntityStatePdu}
    (h : pdu ∈ accepted unmarshal cfg m ds) : ∃ d ∈ ds, unmarshal d.bytes = some pdu := by
  induction ds generalizing m with
  | nil => cases h
  | cons d ds ih =>
    rcases List.mem_append.mp h with hhead | hlater
    · have hadmitted := Option.mem_toList.mp hhead
      unfold admitted at hadmitted
      split at hadmitted
      · exact ⟨d, List.mem_cons_self, (Option.filter_eq_some_iff.mp hadmitted).1⟩
      · cases hadmitted
    · obtain ⟨d', hd', hpdu⟩ := ih hlater
      exact ⟨d', List.mem_cons_of_mem d hd', hpdu⟩

/-- A claimant is read from a datagram and is not the satellite. -/
theorem claimant_cases {id : U32} {e : EntityId} {events : List Event}
    (h : e ∈ claimants cfg id (acceptedOf unmarshal cfg events)) :
    e.fold = id ∧ e ≠ cfg.satellite ∧ ∃ pdu, pdu.id = e ∧
      ∃ d ∈ events.filterMap Event.datagram?, unmarshal d.bytes = some pdu := by
  refine ⟨claimants_fold h, ?_⟩
  obtain ⟨pdu, hpdu, rfl⟩ := List.mem_map.mp h
  obtain ⟨haccepted, hclaims⟩ := List.mem_filter.mp hpdu
  refine ⟨fun hsat => ?_, pdu, rfl, accepted_unmarshal haccepted⟩
  rw [isSatellite_iff.mpr hsat] at hclaims
  cases hclaims

end Olv.DisInputSource
