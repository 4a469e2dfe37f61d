import OrbitalViewer.Bounds
import OrbitalViewer.DisTranslation
import OrbitalViewer.Lib.Decimal

/-!
# Warnings of fold collisions

Entities whose ids fold alike take the folded id from each other, and the source
warns of it. It remembers only who holds the id, so a pair is named once for every
time that one of the two follows the other (`fold_collision_iff`).
-/

namespace Olv

/-! ## The log of a run -/

namespace InputSource
variable (src : InputSource)

def logOf (e : Event) (s : src.State) : List LogLine :=
  match e with
  | .datagram d => (src.processDatagram d s.memory s.store).log
  | .snapshot _ => []

def log (s : src.State) : List Event → List LogLine
  | [] => []
  | e :: events => src.logOf e s ++ log (src.step e s).2 events

variable {src}

theorem log_append (s : src.State) (events : List Event) (e : Event) :
    src.log s (events ++ [e]) = src.log s events ++ src.logOf e (src.run s events) := by
  induction events generalizing s with
  | nil => exact List.append_nil _
  | cons e' events ih =>
    rw [List.cons_append, log, log, ih, List.append_assoc]
    rfl

end InputSource

def Event.datagram? : Event → Option Datagram
  | .datagram d => some d
  | .snapshot _ => none

namespace DisInputSource
open Decimal (digits)

/-! ## Entities -/

/-- `DIS::EntityID`. -/
structure EntityId where
  site : U16
  application : U16
  entity : U16
  deriving DecidableEq

namespace EntityId

def fold (e : EntityId) : U32 := foldEntityId e.site e.application e.entity
def packed (e : EntityId) : U64 := pack48 e.site e.application e.entity
def text (e : EntityId) : String := entityIdString e.site e.application e.entity

end EntityId

def EntityStatePdu.id (pdu : EntityStatePdu) : EntityId := ⟨pdu.site, pdu.application, pdu.entity⟩

/-- The warning when `e` takes the folded id of both from `prev`. -/
def collision (e prev : EntityId) : LogLine :=
  ⟨.kWarn, "dis", "fold collision folded=" ++ toString e.fold.toNat ++ " entity=" ++ e.text ++
    " prev=" ++ prev.text⟩

/-- A fold-collision warning that names the two entities. -/
def Names (a b : EntityId) (line : LogLine) : Prop := line = collision a b ∨ line = collision b a

instance (a b : EntityId) (line : LogLine) : Decidable (Names a b line) :=
  inferInstanceAs (Decidable (_ ∨ _))

theorem unpack48_pack48 (site app entity : U16) :
    unpack48 (pack48 site app entity) = (site, app, entity) := by
  have hmask : ∀ i < 16, (65535 : U64).getLsbD i = true := by decide
  refine Prod.ext ?_ (Prod.ext ?_ ?_)
  all_goals
    apply BitVec.eq_of_getLsbD_eq
    intro i hi
    simp only [unpack48, pack48, BitVec.getLsbD_setWidth, BitVec.getLsbD_and,
      BitVec.getLsbD_ushiftRight, BitVec.getLsbD_or, BitVec.getLsbD_shiftLeft, hmask i hi]
    grind

theorem EntityId.packed_injective {e e' : EntityId} (h : e.packed = e'.packed) : e = e' := by
  have hparts := congrArg unpack48 h
  rw [packed, packed, unpack48_pack48, unpack48_pack48] at hparts
  cases e
  cases e'
  simpa using hparts

/-! ## The text of a warning -/

theorem toList_nat (n : ℕ) : (toString n).toList = digits n := by
  rw [Nat.toString_eq_repr, Nat.toList_repr, digits]

theorem digits_injective {m n : ℕ} (h : digits m = digits n) : m = n := by
  rw [← Decimal.value_digits m, h, Decimal.value_digits]

theorem not_mem_digits {c : Char} (hc : c.isDigit = false) (n : ℕ) : c ∉ digits n := by
  intro hmem
  rw [Decimal.isDigit_digits hmem] at hc
  cases hc

/-- Two texts are the same up to a mark that they do not hold before it. -/
theorem marked_inj {c : Char} {xs ys xs' ys' : List Char} (h : xs ++ c :: xs' = ys ++ c :: ys')
    (hx : c ∉ xs) (hy : c ∉ ys) : xs = ys ∧ xs' = ys' := by
  rcases List.append_eq_append_iff.mp h with ⟨as, rfl, hrest⟩ | ⟨as, rfl, hrest⟩
  · cases as with
    | nil => exact ⟨(List.append_nil xs).symm, (List.cons.inj hrest).2⟩
    | cons d as =>
      obtain ⟨rfl, _⟩ := List.cons.inj hrest
      exact absurd (by simp) hy
  · cases as with
    | nil => exact ⟨List.append_nil ys, (List.cons.inj hrest).2.symm⟩
    | cons d as =>
      obtain ⟨rfl, _⟩ := List.cons.inj hrest
      exact absurd (by simp) hx

def EntityId.chars (e : EntityId) : List Char :=
  digits e.site.toNat ++ ':' :: (digits e.application.toNat ++ ':' :: digits e.entity.toNat)

theorem EntityId.toList_text (e : EntityId) : e.text.toList = e.chars := by
  have hcolon : ":".toList = [':'] := by decide
  simp only [EntityId.text, entityIdString, EntityId.chars, String.toList_append, toList_nat, hcolon,
    List.append_assoc, List.cons_append, List.nil_append]

theorem EntityId.chars_injective {e e' : EntityId} (h : e.chars = e'.chars) : e = e' := by
  have hcolon := not_mem_digits (c := ':') rfl
  obtain ⟨hsite, h⟩ := marked_inj h (hcolon _) (hcolon _)
  obtain ⟨happ, hentity⟩ := marked_inj h (hcolon _) (hcolon _)
  cases e
  cases e'
  simp only [EntityId.mk.injEq]
  exact ⟨BitVec.eq_of_toNat_eq (digits_injective hsite),
    BitVec.eq_of_toNat_eq (digits_injective happ), BitVec.eq_of_toNat_eq (digits_injective hentity)⟩

theorem EntityId.space_not_mem (e : EntityId) : ' ' ∉ e.chars := by
  have hspace := not_mem_digits (c := ' ') rfl
  simp [EntityId.chars, hspace]

theorem toList_collision (e prev : EntityId) : (collision e prev).message.toList =
    'f' :: ("old collision folded=".toList ++ (digits e.fold.toNat ++ ' ' :: ("entity=".toList ++
      (e.chars ++ ' ' :: ("prev=".toList ++ prev.chars))))) := by
  have hfold : "fold collision folded=".toList = 'f' :: "old collision folded=".toList := by decide
  have hentity : " entity=".toList = ' ' :: "entity=".toList := by decide
  have hprev : " prev=".toList = ' ' :: "prev=".toList := by decide
  simp only [collision, String.toList_append, toList_nat, EntityId.toList_text, hfold, hentity, hprev,
    List.append_assoc, List.cons_append]

/-- The text tells which entity took the id from which. -/
theorem collision_injective {a b c d : EntityId} (h : collision a b = collision c d) :
    a = c ∧ b = d := by
  have htext := congrArg String.toList (congrArg LogLine.message h)
  rw [toList_collision, toList_collision] at htext
  have hspace := not_mem_digits (c := ' ') rfl
  have htext := List.append_cancel_left (List.cons.inj htext).2
  obtain ⟨_, htext⟩ := marked_inj htext (hspace _) (hspace _)
  have htext := List.append_cancel_left htext
  obtain ⟨ha, htext⟩ := marked_inj htext a.space_not_mem c.space_not_mem
  exact ⟨EntityId.chars_injective ha, EntityId.chars_injective (List.append_cancel_left htext)⟩

theorem names_collision {a b e prev : EntityId} :
    Names a b (collision e prev) ↔ (prev, e) = (a, b) ∨ (prev, e) = (b, a) := by
  rw [Prod.mk.injEq, Prod.mk.injEq]
  constructor
  · rintro (h | h)
    · exact .inr (collision_injective h).symm
    · exact .inl (collision_injective h).symm
  · rintro (⟨rfl, rfl⟩ | ⟨rfl, rfl⟩)
    · exact .inr rfl
    · exact .inl rfl

/-- A line of another level, or that starts with another word. -/
def Harmless (line : LogLine) : Prop :=
  line.level ≠ .kWarn ∨ line.message.toList.head? = some 'd'

theorem Harmless.not_names {a b : EntityId} {line : LogLine} (h : Harmless line) :
    ¬ Names a b line := by
  have hline : ∀ e prev, line ≠ collision e prev := by
    rintro e prev rfl
    rcases h with h | h
    · exact h rfl
    · rw [toList_collision] at h
      exact absurd (Option.some.inj h) (by decide)
  rintro (h | h)
  · exact hline _ _ h
  · exact hline _ _ h

/-! ## Who holds a folded id -/

variable (unmarshal : List Wire.Byte → Option EntityStatePdu) (cfg : Config)

/-- The entities that PDUs claim a folded id for, in their order. -/
def claimants (id : U32) (pdus : List EntityStatePdu) : List EntityId :=
  (pdus.filter fun pdu => !isSatellite cfg pdu && folded pdu = id).map EntityStatePdu.id

/-- Every element with the one after it. -/
def neighbours {α : Type} (xs : List α) : List (α × α) := xs.zip xs.tail

/-- No two different elements are neighbours twice, in whichever order. -/
def MeetOnce (xs : List EntityId) : Prop :=
  ∀ a b, a ≠ b → (neighbours xs).countP (fun e => e = (a, b) ∨ e = (b, a)) ≤ 1

variable {cfg}

theorem claimants_append (id : U32) (pdus : List EntityStatePdu) (pdu : EntityStatePdu) :
    claimants cfg id (pdus ++ [pdu]) = claimants cfg id pdus ++
      if !isSatellite cfg pdu && folded pdu = id then [pdu.id] else [] := by
  rw [claimants, List.filter_append, List.map_append, List.filter_singleton]
  generalize (!isSatellite cfg pdu && decide (folded pdu = id)) = claims
  cases claims <;> rfl

theorem claimants_fold {id : U32} {pdus : List EntityStatePdu} {e : EntityId}
    (h : e ∈ claimants cfg id pdus) : e.fold = id := by
  obtain ⟨pdu, hpdu, rfl⟩ := List.mem_map.mp h
  have hfold := (List.mem_filter.mp hpdu).2
  rw [Bool.and_eq_true, decide_eq_true_eq] at hfold
  exact hfold.2

theorem neighbours_append {α : Type} (xs : List α) (x : α) :
    neighbours (xs ++ [x]) = neighbours xs ++ (xs.getLast?.map fun last => (last, x)).toList := by
  induction xs with
  | nil => rfl
  | cons y xs ih =>
    cases xs with
    | nil => rfl
    | cons z xs =>
      have hcons : ∀ zs : List α, neighbours (y :: z :: zs) = (y, z) :: neighbours (z :: zs) :=
        fun _ => rfl
      rw [List.cons_append, List.cons_append, hcons, ← List.cons_append, ih, hcons,
        List.cons_append]
      simp [List.getLast?_cons_cons]

/-- The source remembers the last claimant of every folded id. -/
def Holds (cfg : Config) (m : Memory) (pdus : List EntityStatePdu) : Prop :=
  ∀ id, m.objectFold.lookup id = (claimants cfg id pdus).getLast?.map EntityId.packed

theorem claimFold_fold (pdu : EntityStatePdu) (fold : AList (fun _ : U32 => U64)) (id : U32) :
    (claimFold pdu fold).2.lookup id =
      if folded pdu = id then some (packed pdu) else fold.lookup id := by
  unfold claimFold
  have hinsert : (fold.insert (folded pdu) (packed pdu)).lookup id =
      if folded pdu = id then some (packed pdu) else fold.lookup id := by
    by_cases hid : folded pdu = id
    · subst hid
      rw [AList.lookup_insert, if_pos rfl]
    · rw [AList.lookup_insert_ne fun h => hid h.symm, if_neg hid]
  cases hprev : fold.lookup (folded pdu) with
  | none => exact hinsert
  | some prev =>
    by_cases hsame : prev ≠ packed pdu
    · simp only [if_pos hsame]
      exact hinsert
    · simp only [if_neg hsame]
      by_cases hid : folded pdu = id
      · rw [if_pos hid, ← hid, hprev, not_not.mp hsame]
      · rw [if_neg hid]

theorem Holds.accept {m : Memory} {pdus : List EntityStatePdu} (h : Holds cfg m pdus)
    (pdu : EntityStatePdu) : Holds cfg (memoryAfter cfg pdu m) (pdus ++ [pdu]) := by
  intro id
  rw [claimants_append]
  simp only [memoryAfter, foldAfter]
  cases hsat : isSatellite cfg pdu with
  | true =>
    simp only [Bool.not_true, Bool.false_and, Bool.false_eq_true, if_false, if_true, List.append_nil]
    exact h id
  | false =>
    simp only [Bool.not_false, Bool.true_and, decide_eq_true_eq, Bool.false_eq_true, if_false]
    rw [claimFold_fold]
    by_cases hid : folded pdu = id
    · rw [if_pos hid, if_pos hid, List.getLast?_concat]
      rfl
    · rw [if_neg hid, if_neg hid, List.append_nil]
      exact h id

/-! ## What is logged -/

theorem refused_log (d : Datagram) (m : Memory) (store : StateStore)
    (h : (processDatagram unmarshal cfg d m store).outcome ≠ .accepted) :
    ∀ line ∈ (processDatagram unmarshal cfg d m store).log, Harmless line := by
  have hone : ∀ {line : LogLine}, Harmless line → ∀ l ∈ [line], Harmless l :=
    fun hline l hl => List.mem_singleton.mp hl ▸ hline
  unfold processDatagram at h ⊢
  dsimp only at h ⊢
  split_ifs at h ⊢
  · exact hone (.inr (by simp [String.toList_append]))
  · exact hone (.inr (by simp [String.toList_append]))
  · exact hone (.inl fun hlevel => nomatch hlevel)
  · exact hone (.inl fun hlevel => nomatch hlevel)
  · split at h
    · exact hone (.inr (by simp [String.toList_append]))
    · split_ifs at h ⊢
      · exact hone (.inl fun hlevel => nomatch hlevel)
      · exact absurd rfl h

variable (cfg) in
theorem acceptPdu_log (pdu : EntityStatePdu) (d : Datagram) (m : Memory) (store : StateStore) :
    ∃ line, Harmless line ∧ (acceptPdu cfg pdu d m store).log =
      (if isSatellite cfg pdu then [] else (claimFold pdu m.objectFold).1) ++ [line] := by
  unfold acceptPdu
  cases isSatellite cfg pdu with
  | true =>
    refine ⟨_, .inl ?_, rfl⟩
    exact LogLevel.noConfusion
  | false =>
    refine ⟨_, .inl ?_, rfl⟩
    exact LogLevel.noConfusion

/-- How many lines of the log of a datagram name the two entities. -/
theorem countP_log (a b : EntityId) (d : Datagram) (m : Memory) (store : StateStore) :
    (processDatagram unmarshal cfg d m store).log.countP (Names a b ·) =
      match admitted unmarshal cfg d.bytes m with
      | none => 0
      | some pdu =>
        if isSatellite cfg pdu then 0 else (claimFold pdu m.objectFold).1.countP (Names a b ·) := by
  rcases processDatagram_cases unmarshal cfg d m with ⟨hnone, o, log, ho, heq⟩ | ⟨pdu, hsome, heq⟩
  · rw [hnone]
    dsimp only
    rw [List.countP_eq_zero]
    intro line hline
    have hrefused := refused_log unmarshal d m store (by rw [heq]; exact ho) line hline
    simpa using hrefused.not_names
  · obtain ⟨line, hline, hlog⟩ := acceptPdu_log cfg pdu d
      { m with lastTs := m.lastTs.insert (packed pdu) (stampOf d.bytes) }
      (store.countReceived d.bytes.length)
    have hlast : [line].countP (Names a b ·) = 0 := by simp [hline.not_names]
    rw [hsome, heq, hlog, List.countP_append, hlast, Nat.add_zero]
    dsimp only
    cases isSatellite cfg pdu with
    | true => rfl
    | false => rfl

theorem claimFold_log (pdu : EntityStatePdu) (fold : AList (fun _ : U32 => U64)) :
    (claimFold pdu fold).1 =
      match fold.lookup (folded pdu) with
      | none => []
      | some prev =>
        if prev ≠ packed pdu then
          [collision pdu.id ⟨(unpack48 prev).1, (unpack48 prev).2.1, (unpack48 prev).2.2⟩]
        else [] := by
  unfold claimFold
  cases fold.lookup (folded pdu) with
  | none => rfl
  | some prev =>
    dsimp only
    split <;> rfl

/-- A PDU is warned about as the neighbour of the claimant before it. -/
theorem Holds.countP_claimFold {m : Memory} {pdus : List EntityStatePdu} (h : Holds cfg m pdus)
    {a b : EntityId} (hne : a ≠ b) (pdu : EntityStatePdu) :
    (claimFold pdu m.objectFold).1.countP (Names a b ·) =
      ((claimants cfg (folded pdu) pdus).getLast?.map fun last => (last, pdu.id)).toList.countP
        (fun e => e = (a, b) ∨ e = (b, a)) := by
  rw [claimFold_log, h]
  cases (claimants cfg (folded pdu) pdus).getLast? with
  | none => rfl
  | some last =>
    have hunpack : (⟨(unpack48 last.packed).1, (unpack48 last.packed).2.1,
        (unpack48 last.packed).2.2⟩ : EntityId) = last := by
      rw [EntityId.packed, unpack48_pack48]
    simp only [Option.map_some, Option.toList_some, hunpack]
    by_cases hsame : last = pdu.id
    · subst hsame
      rw [if_neg (show ¬ pdu.id.packed ≠ packed pdu from not_not_intro rfl)]
      refine (List.countP_eq_zero.mpr fun e he => ?_).symm
      rw [List.mem_singleton.mp he, decide_eq_true_eq]
      rintro (heq | heq) <;> obtain ⟨rfl, rfl⟩ := Prod.mk.inj heq <;> exact hne rfl
    · have hpacked : last.packed ≠ packed pdu := fun heq => hsame (EntityId.packed_injective heq)
      rw [if_pos hpacked, List.countP_singleton, List.countP_singleton]
      simp only [names_collision]

/-! ## Runs -/

/-- The PDUs that a run accepts. -/
def acceptedOf (cfg : Config) (events : List Event) : List EntityStatePdu :=
  accepted unmarshal cfg {} (events.filterMap Event.datagram?)

variable (cfg) in
/-- What the memory and the log of a run hold against the PDUs it accepted. -/
structure Logged (expiry : Int) (events : List Event) : Prop where
  memory : ((disInputSource unmarshal cfg).run ((disInputSource unmarshal cfg).start expiry) events).memory =
    World.remembered (disSections unmarshal cfg) {} (events.filterMap Event.datagram?)
  holds : Holds cfg (World.remembered (disSections unmarshal cfg) {}
    (events.filterMap Event.datagram?)) (acceptedOf unmarshal cfg events)
  count : ∀ a b, a ≠ b → a.fold = b.fold →
    ((disInputSource unmarshal cfg).log ((disInputSource unmarshal cfg).start expiry) events).countP
        (Names a b ·) =
      (neighbours (claimants cfg a.fold (acceptedOf unmarshal cfg events))).countP
        fun e => e = (a, b) ∨ e = (b, a)

theorem not_claimed {a b : EntityId} (hfold : a.fold = b.fold) {pdu : EntityStatePdu}
    (h : folded pdu ≠ a.fold) (last : Option EntityId) :
    (last.map fun last => (last, pdu.id)).toList.countP
      (fun e => e = (a, b) ∨ e = (b, a)) = 0 := by
  rw [List.countP_eq_zero]
  intro e he
  rw [decide_eq_true_eq]
  obtain ⟨last, _, rfl⟩ := Option.map_eq_some_iff.mp (Option.mem_toList.mp he)
  rintro (heq | heq)
  · obtain ⟨_, rfl⟩ := Prod.mk.inj heq
    exact h hfold.symm
  · obtain ⟨_, rfl⟩ := Prod.mk.inj heq
    exact h rfl

variable {unmarshal}

theorem remembered_append {src : InputSource} (sections : CriticalSections src) (m : src.Memory)
    (ds : List Datagram) (d : Datagram) : World.remembered sections m (ds ++ [d]) =
      sections.remember d (World.remembered sections m ds) := by
  unfold World.remembered
  rw [List.foldl_append]
  rfl

theorem datagrams_append (events : List Event) (d : Datagram) :
    (events ++ [Event.datagram d]).filterMap Event.datagram? =
      events.filterMap Event.datagram? ++ [d] := by
  rw [List.filterMap_append]
  rfl

variable (unmarshal) in
/-- One more PDU, as the memory and the log take it. -/
theorem Holds.step {m : Memory} {pdus : List EntityStatePdu} (h : Holds cfg m pdus) (d : Datagram) :
    Holds cfg (remember unmarshal cfg d m)
        (pdus ++ (admitted unmarshal cfg d.bytes m).toList) ∧
      ∀ a b, a ≠ b → a.fold = b.fold → ∀ store,
        (neighbours (claimants cfg a.fold pdus)).countP (fun e => e = (a, b) ∨ e = (b, a)) +
            (processDatagram unmarshal cfg d m store).log.countP (Names a b ·) =
          (neighbours (claimants cfg a.fold
            (pdus ++ (admitted unmarshal cfg d.bytes m).toList))).countP
              fun e => e = (a, b) ∨ e = (b, a) := by
  unfold remember
  simp only [countP_log]
  cases admitted unmarshal cfg d.bytes m with
  | none =>
    rw [Option.toList_none, List.append_nil]
    exact ⟨h, fun _ _ _ _ _ => Nat.add_zero _⟩
  | some pdu =>
    rw [Option.toList_some]
    refine ⟨Holds.accept (m := { m with lastTs := m.lastTs.insert (packed pdu) (stampOf d.bytes) })
      h pdu, fun a b hne hfold _ => ?_⟩
    rw [claimants_append]
    dsimp only
    cases hsat : isSatellite cfg pdu with
    | true =>
      simp only [Bool.not_true, Bool.false_and, Bool.false_eq_true, if_false, if_true,
        List.append_nil, Nat.add_zero]
    | false =>
      simp only [Bool.not_false, Bool.true_and, decide_eq_true_eq, Bool.false_eq_true, if_false]
      rw [h.countP_claimFold hne]
      by_cases hid : folded pdu = a.fold
      · rw [if_pos hid, neighbours_append, List.countP_append, hid]
      · rw [if_neg hid, List.append_nil, not_claimed hfold hid, Nat.add_zero]

variable (unmarshal cfg) in
theorem acceptedOf_datagram (events : List Event) (d : Datagram) :
    acceptedOf unmarshal cfg (events ++ [.datagram d]) =
      acceptedOf unmarshal cfg events ++ (admitted unmarshal cfg d.bytes
        (World.remembered (disSections unmarshal cfg) {}
          (events.filterMap Event.datagram?))).toList := by
  rw [acceptedOf, datagrams_append, accepted_append]
  rfl

variable (unmarshal cfg) in
theorem acceptedOf_snapshot (events : List Event) (mono : Int) :
    acceptedOf unmarshal cfg (events ++ [.snapshot mono]) = acceptedOf unmarshal cfg events := by
  rw [acceptedOf, List.filterMap_append]
  exact congrArg (accepted unmarshal cfg {}) (List.append_nil _)

theorem Logged.datagram {expiry : Int} {events : List Event}
    (h : Logged unmarshal cfg expiry events) (d : Datagram) :
    Logged unmarshal cfg expiry (events ++ [.datagram d]) := by
  have hstep := h.holds.step unmarshal d
  have hremembered : World.remembered (disSections unmarshal cfg) {}
      ((events ++ [Event.datagram d]).filterMap Event.datagram?) =
        remember unmarshal cfg d (World.remembered (disSections unmarshal cfg) {}
          (events.filterMap Event.datagram?)) := by
    rw [datagrams_append]
    exact remembered_append (disSections unmarshal cfg) {} _ d
  have haccepted := acceptedOf_datagram unmarshal cfg events d
  constructor
  · rw [hremembered, ← h.memory, InputSource.run, List.foldl_append]
    exact ((disSections unmarshal cfg).processDatagram_eq d _ _).1
  · rw [hremembered, haccepted]
    exact hstep.1
  · intro a b hne hfold
    rw [InputSource.log_append, List.countP_append, h.count a b hne hfold, haccepted,
      ← hstep.2 a b hne hfold, ← h.memory]
    rfl

variable (unmarshal cfg) in
theorem run_logged (expiry : Int) (events : List Event) :
    Logged unmarshal cfg expiry events := by
  induction events using List.reverseRecOn with
  | nil => exact ⟨rfl, fun _ => rfl, fun _ _ _ _ => rfl⟩
  | append_singleton events e ih =>
    cases e with
    | datagram d => exact ih.datagram d
    | snapshot mono =>
      have hsame : (events ++ [Event.snapshot mono]).filterMap Event.datagram? =
          events.filterMap Event.datagram? := by simp [Event.datagram?]
      have haccepted := acceptedOf_snapshot unmarshal cfg events mono
      constructor
      · rw [hsame, ← ih.memory, InputSource.run, List.foldl_append]
        rfl
      · rw [haccepted, hsame]
        exact ih.holds
      · intro a b hne hfold
        rw [InputSource.log_append, List.countP_append, ih.count a b hne hfold, haccepted]
        rfl

/-- **A pair is warned about once** exactly when it meets once: no two entities
follow one another twice among those that claim a folded id. -/
theorem fold_collision_iff (unmarshal : List Wire.Byte → Option EntityStatePdu) (cfg : Config)
    (expiry : Int) (events : List Event) :
    (∀ a b : EntityId, a ≠ b → a.fold = b.fold →
        ((disInputSource unmarshal cfg).log ((disInputSource unmarshal cfg).start expiry)
          events).countP (Names a b ·) ≤ 1) ↔
      ∀ id, MeetOnce (claimants cfg id (acceptedOf unmarshal cfg events)) := by
  have hlogged := run_logged unmarshal cfg expiry events
  constructor
  · intro h id a b hne
    by_cases hid : a.fold = id ∧ b.fold = id
    · have hfold := hid.1.trans hid.2.symm
      have hcount := hlogged.count a b hne hfold
      rw [hid.1] at hcount
      exact hcount ▸ h a b hne hfold
    · refine (List.countP_eq_zero.mpr fun e he => ?_).le.trans zero_le_one
      obtain ⟨hfst, hsnd⟩ := List.of_mem_zip he
      have hfst := claimants_fold hfst
      have hsnd := claimants_fold (List.mem_of_mem_tail hsnd)
      rw [decide_eq_true_eq]
      rintro (rfl | rfl)
      · exact hid ⟨hfst, hsnd⟩
      · exact hid ⟨hsnd, hfst⟩
  · intro h a b hne hfold
    rw [hlogged.count a b hne hfold]
    exact h a.fold a b hne

/-! ## Three PDUs -/

/-- The header of an Entity State PDU, and its entity. -/
def pduHead (e : EntityId) : List Wire.Byte :=
  [7, 1, 1, 1, 0, 0, 0, 0, 0, 0, 0, 0, (e.site >>> 8).setWidth 8, e.site.setWidth 8,
    (e.application >>> 8).setWidth 8, e.application.setWidth 8, (e.entity >>> 8).setWidth 8,
    e.entity.setWidth 8]

/-- An Entity State PDU at the origin. -/
def pduOf (e : EntityId) : List Wire.Byte := pduHead e ++ List.replicate 126 0

def first : EntityId := ⟨19, 105, 3183⟩
def second : EntityId := ⟨51, 168, 4700⟩

/-- The first entity, the second one, and the first one again. -/
def turnRun : List Event :=
  [.datagram { bytes := pduOf first }, .datagram { bytes := pduOf second },
    .datagram { bytes := pduOf first }]

theorem turnRun_warns_twice :
    ¬ ∀ a b : EntityId, a ≠ b → a.fold = b.fold →
      ((disInputSource readEntityStatePdu ⟨none, 1, 1, 1⟩).log
        ((disInputSource readEntityStatePdu ⟨none, 1, 1, 1⟩).start 15) turnRun).countP
          (Names a b ·) ≤ 1 := by
  intro h
  have hcount := (run_logged readEntityStatePdu ⟨none, 1, 1, 1⟩ 15 turnRun).count first second
    (by decide) (by decide +kernel)
  have hclaimants : claimants ⟨none, 1, 1, 1⟩ first.fold
      (acceptedOf readEntityStatePdu ⟨none, 1, 1, 1⟩ turnRun) = [first, second, first] := by
    decide +kernel
  rw [hclaimants] at hcount
  have hle := h first second (by decide) (by decide +kernel)
  rw [hcount] at hle
  exact absurd hle (by decide)

end DisInputSource
end Olv
