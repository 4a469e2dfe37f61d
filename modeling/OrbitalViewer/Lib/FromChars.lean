import OrbitalViewer.Lib.Decimal

/-!
# Numbers read from text

`std::from_chars` asked to read all of a text: an integer of a type's range, or a
floating-point number in fixed or scientific notation. There is no leading blank
and no leading plus, and nothing may be left over.
-/

namespace FromChars
open Ieee (Format Datum)

def minus : List Char → Bool × List Char
  | '-' :: t => (true, t)
  | t => (false, t)

def isNumeral (t : List Char) : Bool := !t.isEmpty && t.all Char.isDigit

def signed (neg : Bool) (t : List Char) : ℤ := if neg then -(Decimal.value t : ℤ) else Decimal.value t

/-- An integer from `lo` to `hi`; only a signed type takes a sign. -/
def integer (lo hi : ℤ) (t : List Char) : Option ℤ :=
  let (neg, ds) := if lo < 0 then minus t else (false, t)
  if isNumeral ds && lo ≤ signed neg ds && signed neg ds ≤ hi then some (signed neg ds) else none

/-- The digits of `n`, after a minus where the type has a sign. -/
def Writes (sign : Bool) (t : List Char) (n : ℤ) : Prop :=
  isNumeral t = true ∧ n = Decimal.value t ∨
    sign = true ∧ ∃ ds, t = '-' :: ds ∧ isNumeral ds = true ∧ n = -(Decimal.value ds : ℤ)

def exponent : List Char → Option ℤ
  | [] => some 0
  | c :: t =>
    if c = 'e' ∨ c = 'E' then
      let (neg, ds) := match t with
        | '+' :: t => (false, t)
        | t => minus t
      if isNumeral ds then some (signed neg ds) else none
    else none

/-- Digits with a point among or around them, and perhaps an exponent. -/
def decimal (t : List Char) : Option ℚ :=
  let (int, t) := (t.takeWhile Char.isDigit, t.dropWhile Char.isDigit)
  let (frac, t) := match t with
    | '.' :: t => (t.takeWhile Char.isDigit, t.dropWhile Char.isDigit)
    | t => ([], t)
  if int = [] ∧ frac = [] then none
  else (exponent t).map fun e => Decimal.value (int ++ frac) / 10 ^ frac.length * 10 ^ e

/-- `nan`, or `nan` with a word in parentheses. -/
def isNan : List Char → Bool
  | 'n' :: 'a' :: 'n' :: t => t.isEmpty || (t.head? = some '(' && t.getLast? = some ')' &&
      t.tail.dropLast.all fun c => c.isAlphanum || c = '_')
  | _ => false

/-- The exact value of the text. A number that the format would overflow on, or
take for zero when it is not, is out of range. -/
def floating (f : Format) (t : List Char) : Option Datum :=
  let (neg, t) := minus t
  let lower := t.map Char.toLower
  if lower = "inf".toList ∨ lower = "infinity".toList then some (.inf neg)
  else if isNan lower then some (.nan neg)
  else (decimal t).bind fun mag =>
    let rounded := f.round (.fin neg mag)
    if !rounded.isFinite || (mag ≠ 0 && rounded.toRat = 0) then none else some (.fin neg mag)

theorem minus_numeral {t : List Char} (h : isNumeral t = true) : minus t = (false, t) := by
  unfold minus
  split
  · cases h
  · rfl

theorem signed_eq_some {t : List Char} {n : ℤ} :
    isNumeral (minus t).2 = true ∧ signed (minus t).1 (minus t).2 = n ↔ Writes true t n := by
  constructor
  · rintro ⟨hdigits, rfl⟩
    unfold minus at hdigits ⊢
    split at hdigits
    · exact .inr ⟨rfl, _, rfl, hdigits, rfl⟩
    · exact .inl ⟨hdigits, rfl⟩
  · rintro (⟨hdigits, rfl⟩ | ⟨_, ds, rfl, hdigits, rfl⟩)
    · rw [minus_numeral hdigits]
      exact ⟨hdigits, rfl⟩
    · exact ⟨hdigits, rfl⟩

/-- An integer is read when it is written and in range. -/
theorem integer_eq_some {lo hi n : ℤ} {t : List Char} :
    integer lo hi t = some n ↔ Writes (lo < 0) t n ∧ lo ≤ n ∧ n ≤ hi := by
  have hread : ∀ neg ds, (if isNumeral ds && lo ≤ signed neg ds && signed neg ds ≤ hi then
      some (signed neg ds) else none) = some n ↔
        (isNumeral ds = true ∧ signed neg ds = n) ∧ lo ≤ n ∧ n ≤ hi := by
    intro neg ds
    rw [Option.ite_none_right_eq_some, Option.some_inj]
    simp only [Bool.and_eq_true, decide_eq_true_eq]
    constructor
    · rintro ⟨⟨⟨hdigits, hlo⟩, hhi⟩, rfl⟩
      exact ⟨⟨hdigits, rfl⟩, hlo, hhi⟩
    · rintro ⟨⟨hdigits, rfl⟩, hlo, hhi⟩
      exact ⟨⟨⟨hdigits, hlo⟩, hhi⟩, rfl⟩
  unfold integer
  by_cases hsign : lo < 0
  · rw [if_pos hsign, decide_eq_true hsign]
    exact (hread _ _).trans (and_congr_left' signed_eq_some)
  · rw [if_neg hsign, decide_eq_false hsign]
    refine (hread _ _).trans (and_congr_left' ⟨fun h => .inl ⟨h.1, h.2.symm⟩, ?_⟩)
    rintro (⟨hdigits, rfl⟩ | ⟨hno, _⟩)
    · exact ⟨hdigits, rfl⟩
    · cases hno

/-- A finite number that is read stays finite when it is rounded. -/
theorem floating_finite {f : Format} {t : List Char} {neg : Bool} {mag : ℚ}
    (h : floating f t = some (.fin neg mag)) : (f.round (.fin neg mag)).isFinite = true := by
  unfold floating at h
  dsimp only at h
  split at h
  · cases h
  · split at h
    · cases h
    · obtain ⟨m, _, h⟩ := Option.bind_eq_some_iff.mp h
      obtain ⟨hrange, h⟩ := Option.ite_none_left_eq_some.mp h
      obtain ⟨rfl, rfl⟩ := Datum.fin.inj (Option.some.inj h)
      by_contra hno
      rw [Bool.not_eq_true] at hno
      exact hrange (by rw [hno]; rfl)

/-- A decimal text starts with a digit or the point. -/
theorem decimal_head {t : List Char} {mag : ℚ} (h : decimal t = some mag) :
    ∃ c rest, t = c :: rest ∧ (c.isDigit = true ∨ c = '.') := by
  cases t with
  | nil => cases h
  | cons c rest =>
    refine ⟨c, rest, rfl, ?_⟩
    by_contra hno
    obtain ⟨hdigit, hpoint⟩ := not_or.mp hno
    unfold decimal at h
    rw [List.takeWhile_cons_of_neg hdigit, List.dropWhile_cons_of_neg hdigit] at h
    dsimp only at h
    split at h
    · rename_i heq
      exact hpoint (List.cons.inj heq).1
    · simp at h

theorem decimal_nonneg {t : List Char} {mag : ℚ} (h : decimal t = some mag) : 0 ≤ mag := by
  have hfrom : ∀ (ds fs u : List Char), (if ds = [] ∧ fs = [] then none
      else (exponent u).map fun e => (Decimal.value (ds ++ fs) : ℚ) / 10 ^ fs.length * 10 ^ e) =
        some mag → 0 ≤ mag := by
    intro ds fs u hsome
    split at hsome
    · cases hsome
    · obtain ⟨e, _, rfl⟩ := Option.map_eq_some_iff.mp hsome
      positivity
  exact hfrom _ _ _ h

theorem toLower_eq {c : Char} (h : c.isDigit = true ∨ c = '.') : c.toLower = c := by
  rcases h with h | rfl
  · apply Char.toLower_eq_of_not_isUpper
    intro hupper
    simp only [Char.isDigit, Char.isUpper, Bool.and_eq_true, decide_eq_true_eq] at h hupper
    exact absurd (UInt32.le_trans hupper.1 h.2) (by decide)
  · rfl

/-- A decimal text is no word, and its exact value is rounded. -/
theorem floating_decimal (f : Format) {t : List Char} {mag : ℚ}
    (h : decimal (minus t).2 = some mag) :
    floating f t =
      if !(f.round (.fin (minus t).1 mag)).isFinite ||
          (mag ≠ 0 && (f.round (.fin (minus t).1 mag)).toRat = 0) then none
      else some (.fin (minus t).1 mag) := by
  obtain ⟨c, rest, htext, hc⟩ := decimal_head h
  have hword : ∀ (w : Char) (ws : List Char), w = 'i' ∨ w = 'n' →
      (minus t).2.map Char.toLower ≠ w :: ws := by
    intro w ws hw heq
    rw [htext, List.map_cons, toLower_eq hc] at heq
    obtain rfl := (List.cons.inj heq).1
    rcases hw with rfl | rfl <;> revert hc <;> decide
  have hinf : (minus t).2.map Char.toLower ≠ "inf".toList := hword _ _ (.inl rfl)
  have hinfinity : (minus t).2.map Char.toLower ≠ "infinity".toList := hword _ _ (.inl rfl)
  have hnan : isNan ((minus t).2.map Char.toLower) = false := by
    unfold isNan
    split
    · rename_i heq
      exact absurd heq (hword _ _ (.inr rfl))
    · rfl
  unfold floating
  dsimp only
  rw [if_neg (not_or.mpr ⟨hinf, hinfinity⟩), hnan, h]
  rfl

end FromChars
