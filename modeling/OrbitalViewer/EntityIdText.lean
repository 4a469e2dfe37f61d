import OrbitalViewer.CommandLine
import OrbitalViewer.EntityFold
import OrbitalViewer.Lib.DecimalWord
import OrbitalViewer.Lib.Lines

/-!
# The text of an EntityID

`parseDisEntityId` of `dis_entity_id.hpp`, with what it leaves in its out parameters.
It accepts three decimal numbers up to 65535 between two colons
(`parseDisEntityId_correct`), and it is the parser of both configurations
(`parseDisEntityId_eq`).
-/

namespace Olv.DisEntityId
open DisInputSource (EntityId entityIdString)
open Lines (joined Unbroken)

/-- The accumulator, an `unsigned long`, after a digit and before its range check. -/
def sum (v : U64) (c : Char) : U64 := v * 10 + BitVec.ofNat 64 (c.toNat - '0'.toNat)

def pushDigit (v : U64) (c : Char) : Option U64 :=
  if c < '0' ∨ '9' < c then none
  else if 65535 < sum v c then none
  else some (sum v c)

def fieldValue (tok : List Char) : Option U16 :=
  if tok = [] then none else (tok.foldlM pushDigit 0).map fun (v : U64) => v.setWidth 16

/-- `*out[field] = v` -/
def write (out : EntityId) (v : U16) : ℕ → EntityId
  | 0 => { out with site := v }
  | 1 => { out with application := v }
  | _ => { out with entity := v }

/-- The loop at `start`, where `text` starts. -/
def parseFields (out : EntityId) (field : ℕ) (text : List Char) : Bool × EntityId :=
  if 3 ≤ field then (false, out)
  else
    match fieldValue (text.takeWhile (· ≠ ':')) with
    | none => (false, out)
    | some v =>
      match text.dropWhile (· ≠ ':') with
      | [] => (field + 1 == 3, write out v field)
      | _ :: rest => parseFields (write out v field) (field + 1) rest
termination_by 3 - field

def parseDisEntityId (s : List Char) (out : EntityId) : Bool × EntityId := parseFields out 0 s

/-! ## Field by field -/

/-- The loop over the fields of a text. -/
def parseTokens (out : EntityId) (field : ℕ) : List (List Char) → Bool × EntityId
  | [] => (field == 3, out)
  | tok :: toks =>
    if 3 ≤ field then (false, out)
    else
      match fieldValue tok with
      | none => (false, out)
      | some v => parseTokens (write out v field) (field + 1) toks

theorem parseFields_joined {lines : List (List Char)} {rest : List Char}
    (h : Unbroken ':' lines rest) (out : EntityId) (field : ℕ) :
    parseFields out field (joined ':' lines rest) = parseTokens out field (lines ++ [rest]) := by
  induction lines generalizing out field with
  | nil =>
    obtain ⟨htake, hdrop⟩ := Lines.cut_last h.rest
    rw [parseFields, Lines.joined_nil, htake, hdrop]
    rfl
  | cons l lines ih =>
    obtain ⟨hl, htail⟩ := h.tail
    obtain ⟨htake, hdrop⟩ := Lines.cut_cons (t := joined ':' lines rest) hl
    rw [parseFields, Lines.joined_cons, htake, hdrop, List.cons_append, parseTokens]
    simp only [ih htail]

/-- Before the third field there is one more to read. -/
theorem parseTokens_more {out e : EntityId} {field : ℕ} (hfield : field < 3)
    {toks : List (List Char)} : parseTokens out field toks = (true, e) ↔
      ∃ tok v rest, toks = tok :: rest ∧ fieldValue tok = some v ∧
        parseTokens (write out v field) (field + 1) rest = (true, e) := by
  cases toks with
  | nil =>
    have hne : field ≠ 3 := by omega
    simp [parseTokens, hne]
  | cons tok rest =>
    rw [parseTokens, if_neg (by omega)]
    cases hvalue : fieldValue tok with
    | none => simp [hvalue]
    | some v => simp [hvalue]

theorem parseTokens_three {out e : EntityId} {toks : List (List Char)} :
    parseTokens out 3 toks = (true, e) ↔ toks = [] ∧ out = e := by
  cases toks with
  | nil => simp [parseTokens]
  | cons tok rest => simp [parseTokens]

theorem parseTokens_iff {out e : EntityId} {toks : List (List Char)} :
    parseTokens out 0 toks = (true, e) ↔ ∃ a b c, toks = [a, b, c] ∧
      fieldValue a = some e.site ∧ fieldValue b = some e.application ∧
        fieldValue c = some e.entity := by
  constructor
  · intro h
    obtain ⟨a, site, toks, rfl, ha, h⟩ := (parseTokens_more (by decide)).mp h
    obtain ⟨b, application, toks, rfl, hb, h⟩ := (parseTokens_more (by decide)).mp h
    obtain ⟨c, entity, toks, rfl, hc, h⟩ := (parseTokens_more (by decide)).mp h
    obtain ⟨rfl, rfl⟩ := parseTokens_three.mp h
    exact ⟨a, b, c, rfl, ha, hb, hc⟩
  · rintro ⟨a, b, c, rfl, ha, hb, hc⟩
    refine (parseTokens_more (by decide)).mpr ⟨a, _, _, rfl, ha, ?_⟩
    refine (parseTokens_more (by decide)).mpr ⟨b, _, _, rfl, hb, ?_⟩
    refine (parseTokens_more (by decide)).mpr ⟨c, _, _, rfl, hc, ?_⟩
    exact parseTokens_three.mpr ⟨rfl, rfl⟩

/-! ## Decimal numbers of 16 bits -/

/-- A non-empty run of decimal digits, of a value up to 65535. -/
structure IsField (ds : List Char) : Prop where
  nonempty : ds ≠ []
  digits : ∀ c ∈ ds, c.isDigit = true
  value_le : Decimal.value ds ≤ 65535

theorem pushDigit_eq : pushDigit = Decimal.push 65535 := rfl

theorem fieldValue_iff {tok : List Char} {v : U16} :
    fieldValue tok = some v ↔ IsField tok ∧ Decimal.value tok = v.toNat := by
  have hroom : 10 * 65535 + 9 < 2 ^ 64 := by decide
  unfold fieldValue
  split
  · next htok => exact ⟨fun h => absurd h (by simp), fun h => absurd htok h.1.nonempty⟩
  · next htok =>
    rw [pushDigit_eq, Option.map_eq_some_iff]
    constructor
    · rintro ⟨u, hu, rfl⟩
      obtain ⟨hdigits, hle, hvalue⟩ := (Decimal.readWord_iff hroom).mp hu
      refine ⟨⟨htok, hdigits, hle⟩, ?_⟩
      rw [BitVec.toNat_setWidth, hvalue, Nat.mod_eq_of_lt (by omega)]
    · rintro ⟨hfield, hvalue⟩
      have hwide : (v.setWidth 64).toNat = Decimal.value tok := by
        rw [hvalue]
        exact BitVec.toNat_setWidth_of_le (by decide)
      refine ⟨v.setWidth 64, ?_, ?_⟩
      · exact (Decimal.readWord_iff hroom).mpr ⟨hfield.digits, hfield.value_le, hwide⟩
      · rw [BitVec.setWidth_setWidth_of_le _ (by decide), BitVec.setWidth_eq]

theorem IsField.no_colon {ds : List Char} (h : IsField ds) : ':' ∉ ds := by
  intro hmem
  have hdigit := h.digits ':' hmem
  cases hdigit

theorem parseDisEntityId_tokens (s : List Char) (out : EntityId) :
    parseDisEntityId s out = parseTokens out 0 (s.splitOn ':') := by
  obtain ⟨lines, rest, rfl, h⟩ := Lines.exists_joined ':' s
  rw [parseDisEntityId, parseFields_joined h, Lines.splitOn_joined h]

theorem splitOn_fields {s a b c : List Char} (ha : IsField a) (hb : IsField b) (hc : IsField c) :
    s.splitOn ':' = [a, b, c] ↔ s = a ++ ':' :: (b ++ ':' :: c) := by
  have hunbroken : Lines.Unbroken ':' [a, b] c := {
    lines := by simp [ha.no_colon, hb.no_colon]
    rest := hc.no_colon }
  have hjoined : Lines.joined ':' [a, b] c = a ++ ':' :: (b ++ ':' :: c) := by
    rw [Lines.joined_cons, Lines.joined_cons, Lines.joined_nil]
  rw [← hjoined]
  exact Lines.splitOn_iff.trans (and_iff_left hunbroken)

/-- The fields of an accepted text. -/
theorem parseDisEntityId_iff {s : List Char} {out e : EntityId} :
    parseDisEntityId s out = (true, e) ↔ ∃ a b c, s = a ++ ':' :: (b ++ ':' :: c) ∧
      fieldValue a = some e.site ∧ fieldValue b = some e.application ∧
        fieldValue c = some e.entity := by
  rw [parseDisEntityId_tokens, parseTokens_iff]
  constructor
  · rintro ⟨a, b, c, htoks, ha, hb, hc⟩
    have hs := (splitOn_fields (fieldValue_iff.mp ha).1 (fieldValue_iff.mp hb).1
      (fieldValue_iff.mp hc).1).mp htoks
    exact ⟨a, b, c, hs, ha, hb, hc⟩
  · rintro ⟨a, b, c, hs, ha, hb, hc⟩
    have htoks := (splitOn_fields (fieldValue_iff.mp ha).1 (fieldValue_iff.mp hb).1
      (fieldValue_iff.mp hc).1).mpr hs
    exact ⟨a, b, c, htoks, ha, hb, hc⟩

theorem isField_digits (v : U16) : IsField (Decimal.digits v.toNat) where
  nonempty := Decimal.digits_ne_nil _
  digits _ h := Decimal.isDigit_digits h
  value_le := by
    rw [Decimal.value_digits]
    exact Nat.le_of_lt_succ v.isLt

theorem IsField.exists_value {ds : List Char} (h : IsField ds) :
    ∃ v : U16, v.toNat = Decimal.value ds ∧ fieldValue ds = some v := by
  have hlt : Decimal.value ds < 2 ^ 16 := Nat.lt_succ_of_le h.value_le
  have hvalue : (BitVec.ofNat 16 (Decimal.value ds)).toNat = Decimal.value ds := by
    rw [BitVec.toNat_ofNat, Nat.mod_eq_of_lt hlt]
  exact ⟨_, hvalue, fieldValue_iff.mpr ⟨h, hvalue.symm⟩⟩

theorem accepts {a b c : List Char} (ha : IsField a) (hb : IsField b) (hc : IsField c)
    (out : EntityId) : ∃ e : EntityId,
      parseDisEntityId (a ++ ':' :: (b ++ ':' :: c)) out = (true, e) ∧
        e.site.toNat = Decimal.value a ∧ e.application.toNat = Decimal.value b ∧
          e.entity.toNat = Decimal.value c := by
  obtain ⟨site, hsite, hasite⟩ := ha.exists_value
  obtain ⟨application, happ, hbapp⟩ := hb.exists_value
  obtain ⟨entity, hentity, hcentity⟩ := hc.exists_value
  refine ⟨⟨site, application, entity⟩, parseDisEntityId_iff.mpr ?_, hsite, happ, hentity⟩
  exact ⟨a, b, c, rfl, hasite, hbapp, hcentity⟩

/-- No sum wraps: at most 65535 is multiplied by 10. -/
theorem sum_bounded {digits : List Char} {v : U64} {c : Char}
    (h : digits.foldlM pushDigit 0 = some v) (hc : c.isDigit = true) :
    (sum v c).toNat = v.toNat * 10 + (c.toNat - '0'.toNat) ∧ (sum v c).toNat ≤ 655359 := by
  have hroom : 10 * 65535 + 9 < 2 ^ 64 := by decide
  obtain ⟨_, hle, hvalue⟩ := (Decimal.readWord_iff hroom).mp h
  exact Decimal.toNat_sum hroom (hvalue ▸ hle) hc

/-! ## The parser of the configurations -/

theorem decimalU16_eq {v : U64} (hv : v.toNat ≤ 65535) (tok : List Char) :
    decimalU16 v.toNat tok = (tok.foldlM pushDigit v).map BitVec.toNat := by
  have hroom : 10 * 65535 + 9 < 2 ^ 64 := by decide
  induction tok generalizing v with
  | nil => rfl
  | cons c tok ih =>
    rw [decimalU16, List.foldlM_cons, pushDigit]
    by_cases hc : c.isDigit = true
    · have hsum : (sum v c).toNat = _ := (Decimal.toNat_sum hroom hv hc).1
      have hlimit : 65535 < sum v c ↔ 65535 < v.toNat * 10 + (c.toNat - '0'.toNat) := by
        rw [← hsum]
        exact BitVec.lt_def
      rw [if_neg (by simpa using hc), if_neg (Decimal.isDigit_iff.mp hc)]
      by_cases hle : 65535 < v.toNat * 10 + (c.toNat - '0'.toNat)
      · rw [if_pos hle, if_pos (hlimit.mpr hle)]
        rfl
      · rw [if_neg hle, if_neg (mt hlimit.mp hle), ← hsum]
        exact ih (hsum.trans_le (not_lt.mp hle))
    · rw [if_pos (by simpa using hc), if_pos (not_not.mp (mt Decimal.isDigit_iff.mpr hc))]
      rfl

theorem fieldValue_decimalU16 (tok : List Char) :
    (if tok = [] then none else decimalU16 0 tok) = (fieldValue tok).map BitVec.toNat := by
  have hroom : 10 * 65535 + 9 < 2 ^ 64 := by decide
  unfold fieldValue
  split
  · rfl
  · have hzero : decimalU16 0 tok = _ := decimalU16_eq (v := 0) (by decide) tok
    rw [hzero]
    cases hread : tok.foldlM pushDigit 0 with
    | none => rfl
    | some v =>
      obtain ⟨_, hle, hvalue⟩ := (Decimal.readWord_iff hroom).mp (pushDigit_eq ▸ hread)
      rw [Option.map_some, Option.map_some, Option.map_some, BitVec.toNat_setWidth,
        Nat.mod_eq_of_lt (by omega)]

theorem mapM_eq_some {α β : Type} {f : α → Option β} {xs : List α} {ys : List β} :
    xs.mapM f = some ys ↔ List.Forall₂ (fun x y => f x = some y) xs ys := by
  induction xs generalizing ys with
  | nil => simp [eq_comm]
  | cons x xs ih =>
    rw [List.mapM_cons]
    cases ys with
    | nil => simp [Option.bind_eq_some_iff]
    | cons y ys => simp [← ih, Option.bind_eq_some_iff]

theorem fieldValue_of_map {tok : List Char} {n : ℕ} {v : U16}
    (h : (fieldValue tok).map BitVec.toNat = some n) (hv : BitVec.ofNat 16 n = v) :
    fieldValue tok = some v := by
  obtain ⟨u, hu, rfl⟩ := Option.map_eq_some_iff.mp h
  rw [hu, ← hv, BitVec.ofNat_toNat, BitVec.setWidth_eq]

/-- The configurations are given what an accepted text leaves. -/
theorem parseDisEntityId_eq {s : List Char} {out e : EntityId} :
    Olv.parseDisEntityId s = some (e.site, e.application, e.entity) ↔
      parseDisEntityId s out = (true, e) := by
  rw [parseDisEntityId_tokens, parseTokens_iff, Olv.parseDisEntityId]
  simp only [fieldValue_decimalU16]
  constructor
  · intro h
    split at h
    · next site application entity hmap =>
      simp only [Option.some.injEq, Prod.mk.injEq] at h
      obtain ⟨hsite, happ, hentity⟩ := h
      obtain ⟨a, as, ha, has, htoks⟩ := List.forall₂_cons_right_iff.mp (mapM_eq_some.mp hmap)
      obtain ⟨b, bs, hb, hbs, rfl⟩ := List.forall₂_cons_right_iff.mp has
      obtain ⟨c, cs, hc, hcs, rfl⟩ := List.forall₂_cons_right_iff.mp hbs
      rw [List.forall₂_nil_right_iff.mp hcs] at htoks
      exact ⟨a, b, c, htoks, fieldValue_of_map ha hsite, fieldValue_of_map hb happ,
        fieldValue_of_map hc hentity⟩
    · cases h
  · rintro ⟨a, b, c, htoks, ha, hb, hc⟩
    rw [htoks]
    simp [ha, hb, hc]

/-- **Three decimal numbers** and nothing else make an EntityID. -/
theorem parseDisEntityId_correct :
    (∀ s out, (parseDisEntityId s out).1 = true ↔
      ∃ a b c, s = a ++ ':' :: (b ++ ':' :: c) ∧ IsField a ∧ IsField b ∧ IsField c) ∧
    (∀ a b c out, IsField a → IsField b → IsField c → ∃ e : EntityId,
      parseDisEntityId (a ++ ':' :: (b ++ ':' :: c)) out = (true, e) ∧
        e.site.toNat = Decimal.value a ∧ e.application.toNat = Decimal.value b ∧
          e.entity.toNat = Decimal.value c) ∧
    (∀ (digits : List Char) v c, digits.foldlM pushDigit 0 = some v → c.isDigit = true →
      (sum v c).toNat = v.toNat * 10 + (c.toNat - '0'.toNat) ∧ (sum v c).toNat ≤ 655359) ∧
    ∀ site application entity out,
      parseDisEntityId (entityIdString site application entity).toList out =
        (true, ⟨site, application, entity⟩) := by
  refine ⟨fun s out => ⟨fun h => ?_, ?_⟩, fun a b c out ha hb hc => accepts ha hb hc out,
    fun digits v c h hc => sum_bounded h hc, fun site application entity out => ?_⟩
  · obtain ⟨a, b, c, hs, ha, hb, hc⟩ := parseDisEntityId_iff.mp (Prod.ext h rfl)
    exact ⟨a, b, c, hs, (fieldValue_iff.mp ha).1, (fieldValue_iff.mp hb).1,
      (fieldValue_iff.mp hc).1⟩
  · rintro ⟨a, b, c, rfl, ha, hb, hc⟩
    obtain ⟨e, haccept, _⟩ := accepts ha hb hc out
    exact congrArg Prod.fst haccept
  · have htext := DisInputSource.EntityId.toList_text ⟨site, application, entity⟩
    rw [parseDisEntityId_iff]
    refine ⟨_, _, _, htext, ?_, ?_, ?_⟩
    all_goals exact fieldValue_iff.mpr ⟨isField_digits _, Decimal.value_digits _⟩

/-- Leading zeros, and the largest sum that is checked. -/
theorem padded_accepted :
    (∃ e : EntityId, parseDisEntityId "1:007:65535".toList ⟨0, 0, 0⟩ = (true, e) ∧
      e.site.toNat = 1 ∧ e.application.toNat = 7 ∧ e.entity.toNat = 65535) ∧
    (sum 65535 '9').toNat = 655359 := by
  have hfields : IsField "1".toList ∧ IsField "007".toList ∧ IsField "65535".toList := by
    refine ⟨⟨?_, List.all_eq_true.mp ?_, ?_⟩, ⟨?_, List.all_eq_true.mp ?_, ?_⟩,
      ⟨?_, List.all_eq_true.mp ?_, ?_⟩⟩
    all_goals decide +kernel
  obtain ⟨ha, hb, hc⟩ := hfields
  have hsum := parseDisEntityId_correct.2.2.1 "65535".toList 65535 '9' (by decide) (by decide)
  exact ⟨parseDisEntityId_correct.2.1 _ _ _ _ ha hb hc, hsum.1⟩

end Olv.DisEntityId
