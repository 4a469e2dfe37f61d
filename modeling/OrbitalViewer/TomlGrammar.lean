import OrbitalViewer.Toml

/-!
# The grammar of the TOML subset

The lines that the header of `toml.hpp` describes, as data: a value of `Line` is
a line with its spacing and its comment, `Line.text` writes it down and
`Line.item` is what it says. The scanner reads back what is written (`_complete`)
and reads nothing else (`_sound`).
-/

namespace Olv.Toml
open Ieee (F64)
open FromChars (isNumeral signed)

/-! ## Lines -/

structure Blanks where
  text : List Char
  blank : ∀ c ∈ text, isSpace c = true

structure BareName where
  text : List Char
  nonempty : text ≠ []
  bare : ∀ c ∈ text, isBareKeyChar c = true

structure Comment where
  text : List Char
  one_line : '\n' ∉ text

/-- What may follow: blanks, and perhaps a comment. -/
structure Tail where
  blanks : Blanks
  comment : Option Comment

inductive Escape
  | quote | backslash | newline | tab | carriageReturn
  deriving DecidableEq

structure RawChar where
  char : Char
  plain : char ≠ '"' ∧ char ≠ '\\'
  one_line : char ≠ '\n'

/-- A character of a string, as written. -/
inductive Piece
  | raw (c : RawChar)
  | escape (e : Escape)

inductive Sign
  | none | plus | minus
  deriving DecidableEq

structure Numeral where
  digits : List Char
  numeral : isNumeral digits = true

def Sign.text : Sign → List Char
  | none => []
  | plus => ['+']
  | minus => ['-']

def Sign.neg : Sign → Bool
  | minus => true
  | _ => false

/-- The exact magnitude of digits with a point among them. -/
def pointed (int frac : Numeral) : ℚ :=
  Decimal.value (int.digits ++ frac.digits) / 10 ^ frac.digits.length

inductive Literal (strtod : Strtod)
  | string (pieces : List Piece)
  | boolean (b : Bool)
  | integer (sign : Sign) (n : Numeral) (fits : IsInt64 (signed sign.neg n.digits))
  | float (sign : Sign) (int frac : Numeral) (fits : strtod.erange (pointed int frac) = false)

inductive Line (strtod : Strtod)
  | empty (tail : Tail)
  | header (indent : Blanks) (name : BareName) (tail : Tail)
  | pair (indent : Blanks) (key : BareName) (left right : Blanks) (value : Literal strtod) (tail : Tail)

def Comment.full (c : Comment) : List Char := '#' :: c.text

def Tail.text (t : Tail) : List Char := t.blanks.text ++ (t.comment.map Comment.full).getD []

def Escape.letter : Escape → Char
  | quote => '"'
  | backslash => '\\'
  | newline => 'n'
  | tab => 't'
  | carriageReturn => 'r'

def Escape.char : Escape → Char
  | quote => '"'
  | backslash => '\\'
  | newline => '\n'
  | tab => '\t'
  | carriageReturn => '\r'

def Piece.text : Piece → List Char
  | raw c => [c.char]
  | escape e => ['\\', e.letter]

def Piece.char : Piece → Char
  | raw c => c.char
  | escape e => e.char

def boolText (b : Bool) : List Char := if b then "true".toList else "false".toList

section Line
variable {strtod : Strtod}

def Literal.text : Literal strtod → List Char
  | string pieces => '"' :: (pieces.flatMap Piece.text ++ ['"'])
  | boolean b => boolText b
  | integer sign n _ => sign.text ++ n.digits
  | float sign int frac _ => sign.text ++ (int.digits ++ '.' :: frac.digits)

def Literal.value : Literal strtod → Value
  | string pieces => .string (pieces.map Piece.char)
  | boolean b => .boolean b
  | integer sign n _ => .integer (signed sign.neg n.digits)
  | float sign int frac _ => .float (.ofDatum (.fin sign.neg (pointed int frac)))

def Line.text : Line strtod → List Char
  | empty tail => tail.text
  | header indent name tail => indent.text ++ '[' :: (name.text ++ ']' :: tail.text)
  | pair indent key left right value tail =>
    indent.text ++ (key.text ++ (left.text ++ '=' :: (right.text ++ (value.text ++ tail.text))))

def Line.item : Line strtod → Item Value
  | empty _ => .nothing
  | header _ name _ => .header name.text
  | pair _ key _ _ value _ => .pair key.text value.value

def Line.tail : Line strtod → Tail
  | empty tail | header _ _ tail | pair _ _ _ _ _ tail => tail

end Line

/-! ## Blanks and names -/

theorem skipSpace_append (b : Blanks) (s : List Char) : skipSpace (b.text ++ s) = skipSpace s :=
  List.dropWhile_append_of_pos b.blank

theorem skipSpace_cons {c : Char} (hc : isSpace c = false) (s : List Char) :
    skipSpace (c :: s) = c :: s := List.dropWhile_cons_of_neg (by simp [hc])

/-- A text is its leading blanks and the rest. -/
theorem blanks_skipSpace (s : List Char) : ∃ b : Blanks, s = b.text ++ skipSpace s :=
  ⟨⟨s.takeWhile isSpace, fun _ h => List.mem_takeWhile_imp h⟩, List.takeWhile_append_dropWhile.symm⟩

theorem takeWhile_stop {p : Char → Bool} {xs : List Char} (hxs : ∀ x ∈ xs, p x = true) {c : Char}
    (hc : p c = false) (ys : List Char) : (xs ++ c :: ys).takeWhile p = xs := by
  rw [List.takeWhile_append_of_pos hxs, List.takeWhile_cons_of_neg (by simp [hc]), List.append_nil]

theorem dropWhile_stop {p : Char → Bool} {xs : List Char} (hxs : ∀ x ∈ xs, p x = true) {c : Char}
    (hc : p c = false) (ys : List Char) : (xs ++ c :: ys).dropWhile p = c :: ys := by
  rw [List.dropWhile_append_of_pos hxs, List.dropWhile_cons_of_neg (by simp [hc])]

theorem isSpace_iff {c : Char} : isSpace c = true ↔ c = ' ' ∨ c = '\t' := by simp [isSpace]

/-! ## What follows -/

theorem onlyTrailing_complete (t : Tail) : onlyTrailing t.text = true := by
  unfold onlyTrailing Tail.text
  rw [skipSpace_append]
  cases t.comment with
  | none => rfl
  | some c => simp [Comment.full, skipSpace_cons (show isSpace '#' = false by decide)]

theorem onlyTrailing_sound {s : List Char} (h : onlyTrailing s = true) (hs : '\n' ∉ s) :
    ∃ t : Tail, s = t.text := by
  obtain ⟨b, hb⟩ := blanks_skipSpace s
  unfold onlyTrailing at h
  cases hskip : skipSpace s with
  | nil =>
    rw [hskip] at hb
    exact ⟨⟨b, none⟩, hb⟩
  | cons c rest =>
    rw [hskip] at h hb
    obtain rfl : c = '#' := of_decide_eq_true h
    refine ⟨⟨b, some ⟨rest, fun hmem => hs ?_⟩⟩, hb⟩
    rw [hb]
    simp [hmem]

/-! ## Strings -/

theorem unescape_complete (e : Escape) : unescape e.letter = some e.char := by cases e <;> rfl

theorem unescape_sound {c d : Char} (h : unescape c = some d) :
    ∃ e : Escape, c = e.letter ∧ d = e.char := by
  unfold unescape at h
  split at h
  · exact ⟨.quote, rfl, (Option.some.inj h).symm⟩
  · exact ⟨.backslash, rfl, (Option.some.inj h).symm⟩
  · exact ⟨.newline, rfl, (Option.some.inj h).symm⟩
  · exact ⟨.tab, rfl, (Option.some.inj h).symm⟩
  · exact ⟨.carriageReturn, rfl, (Option.some.inj h).symm⟩
  · cases h

theorem parseQuotedString_close (out t : List Char) :
    parseQuotedString out ('"' :: t) = .ok (out, t) := by
  unfold parseQuotedString
  rfl

theorem parseQuotedString_escape (e : Escape) (out t : List Char) :
    parseQuotedString out ('\\' :: e.letter :: t) = parseQuotedString (out ++ [e.char]) t := by
  rw [parseQuotedString, if_neg (by decide), if_pos rfl]
  simp only [unescape_complete]

theorem parseQuotedString_raw {c : Char} (hc : c ≠ '"' ∧ c ≠ '\\') (out t : List Char) :
    parseQuotedString out (c :: t) = parseQuotedString (out ++ [c]) t := by
  rw [parseQuotedString.eq_def]
  simp only [hc.1, hc.2, if_false]

theorem parseQuotedString_complete (pieces : List Piece) (out rest : List Char) :
    parseQuotedString out (pieces.flatMap Piece.text ++ '"' :: rest) =
      .ok (out ++ pieces.map Piece.char, rest) := by
  induction pieces generalizing out with
  | nil =>
    rw [List.map_nil, List.append_nil]
    exact parseQuotedString_close out rest
  | cons p pieces ih =>
    rw [List.flatMap_cons, List.append_assoc, List.map_cons,
      List.append_cons out, ← ih]
    cases p with
    | raw c => exact parseQuotedString_raw c.plain _ _
    | escape e => exact parseQuotedString_escape e _ _

theorem parseQuotedString_sound {out t s rest : List Char} (ht : '\n' ∉ t)
    (h : parseQuotedString out t = .ok (s, rest)) :
    ∃ pieces : List Piece, t = pieces.flatMap Piece.text ++ '"' :: rest ∧
      s = out ++ pieces.map Piece.char := by
  fun_induction parseQuotedString out t with
  | case1 => cases h
  | case2 out t =>
    obtain ⟨rfl, rfl⟩ := Prod.mk.inj (Except.ok.inj h)
    exact ⟨[], rfl, by simp⟩
  | case3 => cases h
  | case4 out e t d hd _ ih =>
    have ht' : '\n' ∉ t := fun hmem => ht (by simp [hmem])
    obtain ⟨pieces, rfl, rfl⟩ := ih ht' h
    obtain ⟨e, rfl, rfl⟩ := unescape_sound hd
    exact ⟨.escape e :: pieces, by simp [Piece.text], by simp [Piece.char]⟩
  | case5 => cases h
  | case6 out c t hquote hslash ih =>
    obtain ⟨hc, ht'⟩ : '\n' ≠ c ∧ '\n' ∉ t := by simpa using ht
    obtain ⟨pieces, rfl, rfl⟩ := ih ht' h
    refine ⟨.raw ⟨c, ⟨hquote, hslash⟩, hc.symm⟩ :: pieces, by simp [Piece.text], by simp [Piece.char]⟩

/-! ## Numbers -/

theorem isNumeral_iff {ds : List Char} :
    isNumeral ds = true ↔ ds ≠ [] ∧ ∀ c ∈ ds, c.isDigit = true := by
  simp [isNumeral]

theorem Numeral.nonempty (n : Numeral) : n.digits ≠ [] := (isNumeral_iff.mp n.numeral).1

theorem Numeral.isDigit (n : Numeral) : ∀ c ∈ n.digits, c.isDigit = true :=
  (isNumeral_iff.mp n.numeral).2

theorem isDigit_ne {c d : Char} (hc : c.isDigit = true) (hd : d.isDigit = false) : c ≠ d := by
  rintro rfl
  exact absurd hc (by simp [hd])

theorem scanNumber_digit {c : Char} (hc : c.isDigit = true) (token : List Char) (prev : Option Char)
    (dot digit : Bool) (t : List Char) :
    scanNumber token prev dot digit (c :: t) = scanNumber token (some c) dot true t := by
  have hplus : c ≠ '+' := isDigit_ne hc (by decide)
  have hminus : c ≠ '-' := isDigit_ne hc (by decide)
  have hpoint : c ≠ '.' := isDigit_ne hc (by decide)
  rw [scanNumber, if_neg (by simp [hplus, hminus]), if_neg hpoint, if_pos hc]

theorem scanNumber_sign (sign : Sign) (token t : List Char) :
    scanNumber token none false false (sign.text ++ t) =
      scanNumber token sign.text.head? false false t := by
  cases sign <;> rfl

/-- Over digits the scan remembers the last of them. -/
theorem scanNumber_digits {ds : List Char} (hds : ∀ c ∈ ds, c.isDigit = true) (hne : ds ≠ [])
    (token : List Char) (prev : Option Char) (dot digit : Bool) (t : List Char) :
    ∃ c, c.isDigit = true ∧
      scanNumber token prev dot digit (ds ++ t) = scanNumber token (some c) dot true t := by
  induction ds generalizing prev digit with
  | nil => exact absurd rfl hne
  | cons d ds ih =>
    obtain ⟨hd, hds⟩ := List.forall_mem_cons.mp hds
    rw [List.cons_append, scanNumber_digit hd]
    cases ds with
    | nil => exact ⟨d, hd, rfl⟩
    | cons _ _ => exact ih hds (List.cons_ne_nil _ _) (some d) true

theorem scanNumber_integer (sign : Sign) (n : Numeral) (token : List Char) :
    scanNumber token none false false (sign.text ++ n.digits) = .ok (false, true) := by
  obtain ⟨c, _, h⟩ := scanNumber_digits n.isDigit n.nonempty token sign.text.head? false false []
  rw [List.append_nil] at h
  rw [scanNumber_sign, h]
  rfl

theorem scanNumber_point {c d : Char} (hc : c.isDigit = true) (hd : d.isDigit = true)
    (token t : List Char) (digit : Bool) :
    scanNumber token (some c) false digit ('.' :: d :: t) =
      scanNumber token (some '.') true digit (d :: t) := by
  rw [scanNumber, if_neg (by decide), if_pos rfl]
  simp [hc, hd]

theorem scanNumber_float (sign : Sign) (int frac : Numeral) (token : List Char) :
    scanNumber token none false false (sign.text ++ (int.digits ++ '.' :: frac.digits)) =
      .ok (true, true) := by
  obtain ⟨c, hc, hint⟩ := scanNumber_digits int.isDigit int.nonempty token sign.text.head?
    false false ('.' :: frac.digits)
  obtain ⟨d, rest, hfrac⟩ := List.exists_cons_of_ne_nil frac.nonempty
  have hd : d.isDigit = true := frac.isDigit d (hfrac ▸ List.mem_cons_self)
  obtain ⟨e, _, hend⟩ := scanNumber_digits frac.isDigit frac.nonempty token (some '.') true true []
  rw [List.append_nil, hfrac] at hend
  rw [scanNumber_sign, hint, hfrac, scanNumber_point hc hd, hend]
  rfl

/-- Past the point only digits are left. -/
theorem scanNumber_sound_frac {token t : List Char} {p : Char} {digit : Bool} {r : Bool × Bool}
    (h : scanNumber token (some p) true digit t = .ok r) :
    (∀ c ∈ t, c.isDigit = true) ∧ r.1 = true := by
  induction t generalizing p digit with
  | nil => exact ⟨fun _ hc => (nomatch hc), Except.ok.inj h ▸ rfl⟩
  | cons c t ih =>
    rw [scanNumber] at h
    split at h
    · cases h
    · split at h
      · cases h
      · split at h
        · rename_i hc
          obtain ⟨hall, hr⟩ := ih h
          exact ⟨List.forall_mem_cons.mpr ⟨hc, hall⟩, hr⟩
        · cases h

/-- After the first character: digits, or digits around a point. -/
theorem scanNumber_sound_rest {token t : List Char} {p : Char} {digit dot found : Bool}
    (h : scanNumber token (some p) false digit t = .ok (dot, found)) :
    (dot = false ∧ (∀ c ∈ t, c.isDigit = true) ∧ found = (digit || !t.isEmpty)) ∨
      (dot = true ∧ ∃ a b, t = a ++ '.' :: b ∧ (∀ c ∈ a, c.isDigit = true) ∧
        isNumeral b = true ∧ (a = [] → p.isDigit = true)) := by
  induction t generalizing p digit with
  | nil =>
    obtain ⟨rfl, rfl⟩ := Prod.mk.inj (Except.ok.inj h)
    exact .inl ⟨rfl, fun _ hc => (nomatch hc), by simp⟩
  | cons c t ih =>
    rw [scanNumber] at h
    split at h
    · cases h
    · split at h
      · rename_i hpoint
        subst hpoint
        simp only [Bool.false_eq_true, if_false, Option.any_some] at h
        split at h
        · cases h
        · rename_i hboth
          obtain ⟨hp, hhead⟩ : p.isDigit = true ∧ t.head?.any Char.isDigit = true := by
            simpa using hboth
          obtain ⟨hall, hdot⟩ := scanNumber_sound_frac h
          refine .inr ⟨hdot, [], t, rfl, fun _ hc => (nomatch hc), ?_, fun _ => hp⟩
          refine isNumeral_iff.mpr ⟨?_, hall⟩
          rintro rfl
          cases hhead
      · split at h
        · rename_i hc
          rcases ih h with ⟨hdot, hall, hfound⟩ | ⟨hdot, a, b, rfl, ha, hb, _⟩
          · exact .inl ⟨hdot, List.forall_mem_cons.mpr ⟨hc, hall⟩, by simp [hfound]⟩
          · exact .inr ⟨hdot, c :: a, b, rfl, List.forall_mem_cons.mpr ⟨hc, ha⟩, hb,
              fun hnil => (nomatch hnil)⟩
        · cases h

/-- What the scan lets through is a signed numeral, or two of them around a point. -/
theorem scanNumber_sound {token t : List Char} {dot : Bool}
    (h : scanNumber token none false false t = .ok (dot, true)) :
    (dot = false ∧ ∃ (sign : Sign) (n : Numeral), t = sign.text ++ n.digits) ∨
      (dot = true ∧ ∃ (sign : Sign) (int frac : Numeral),
        t = sign.text ++ (int.digits ++ '.' :: frac.digits)) := by
  -- the sign, if there is one, and a rest that does not start with the point
  have rest : ∀ (sign : Sign) (p : Char) (digit : Bool) (u : List Char),
      scanNumber token (some p) false digit u = .ok (dot, true) →
      (p :: u = sign.text ++ u ∧ p.isDigit = false ∧ digit = false ∨
        sign = .none ∧ p.isDigit = true) →
      (dot = false ∧ ∃ (sign : Sign) (n : Numeral), p :: u = sign.text ++ n.digits) ∨
        (dot = true ∧ ∃ (sign : Sign) (int frac : Numeral),
          p :: u = sign.text ++ (int.digits ++ '.' :: frac.digits)) := by
    intro sign p digit u hu hp
    rcases scanNumber_sound_rest hu with ⟨hdot, hall, hfound⟩ | ⟨hdot, a, b, rfl, ha, hb, hlast⟩
    · refine .inl ⟨hdot, ?_⟩
      rcases hp with ⟨htext, _, hdigit⟩ | ⟨_, hp⟩
      · subst hdigit
        exact ⟨sign, ⟨u, isNumeral_iff.mpr ⟨by simpa using hfound.symm, hall⟩⟩, htext⟩
      · exact ⟨.none, ⟨p :: u, isNumeral_iff.mpr ⟨List.cons_ne_nil _ _,
          List.forall_mem_cons.mpr ⟨hp, hall⟩⟩⟩, rfl⟩
    · refine .inr ⟨hdot, ?_⟩
      rcases hp with ⟨htext, hp, _⟩ | ⟨_, hp⟩
      · have hne : a ≠ [] := fun hnil => absurd (hlast hnil) (by simp [hp])
        exact ⟨sign, ⟨a, isNumeral_iff.mpr ⟨hne, ha⟩⟩, ⟨b, hb⟩, htext⟩
      · exact ⟨.none, ⟨p :: a, isNumeral_iff.mpr ⟨List.cons_ne_nil _ _,
          List.forall_mem_cons.mpr ⟨hp, ha⟩⟩⟩, ⟨b, hb⟩, rfl⟩
  cases t with
  | nil => cases h
  | cons c t =>
    rw [scanNumber] at h
    split at h
    · rename_i hsign
      rcases hsign with rfl | rfl
      · exact rest .plus '+' false t h (.inl ⟨rfl, by decide, rfl⟩)
      · exact rest .minus '-' false t h (.inl ⟨rfl, by decide, rfl⟩)
    · split at h
      · simp at h
      · split at h
        · rename_i hc
          exact rest .none c true t h (.inr ⟨rfl, hc⟩)
        · cases h

/-! ## Values -/

theorem splitSign_text (sign : Sign) {t : List Char} (ht : ∀ c ∈ t.head?, c.isDigit = true) :
    splitSign (sign.text ++ t) = (sign.neg, t) := by
  cases sign with
  | plus => rfl
  | minus => rfl
  | none =>
    cases t with
    | nil => rfl
    | cons c t =>
      have hc : c.isDigit = true := ht c rfl
      have hplus : c ≠ '+' := isDigit_ne hc (by decide)
      have hminus : c ≠ '-' := isDigit_ne hc (by decide)
      show splitSign (c :: t) = (false, c :: t)
      unfold splitSign
      split
      · rename_i heq
        exact absurd (List.cons.inj heq).1 hplus
      · unfold FromChars.minus
        split
        · rename_i heq
          exact absurd (List.cons.inj heq).1 hminus
        · rfl

theorem Numeral.head (n : Numeral) (t : List Char) :
    ∀ c ∈ (n.digits ++ t).head?, c.isDigit = true := by
  intro c hc
  rw [List.head?_append_of_ne_nil _ n.nonempty] at hc
  exact n.isDigit c (List.mem_of_mem_head? hc)

theorem splitSign_integer (sign : Sign) (n : Numeral) :
    splitSign (sign.text ++ n.digits) = (sign.neg, n.digits) :=
  splitSign_text sign (by simpa using n.head [])

theorem splitSign_float (sign : Sign) (int frac : Numeral) :
    splitSign (sign.text ++ (int.digits ++ '.' :: frac.digits)) =
      (sign.neg, int.digits ++ '.' :: frac.digits) :=
  splitSign_text sign (int.head _)

theorem integerValue_text (sign : Sign) (n : Numeral) :
    integerValue (sign.text ++ n.digits) = signed sign.neg n.digits := by
  rw [integerValue, splitSign_integer]

theorem decimal_pointed (int frac : Numeral) :
    FromChars.decimal (int.digits ++ '.' :: frac.digits) = some (pointed int frac) := by
  have hpoint : Char.isDigit '.' = false := by decide
  have hfrac : frac.digits.takeWhile Char.isDigit = frac.digits :=
    List.takeWhile_eq_self_iff.mpr frac.isDigit
  have hnone : frac.digits.dropWhile Char.isDigit = [] := by
    simpa using frac.isDigit
  simp only [FromChars.decimal, takeWhile_stop int.isDigit hpoint,
    dropWhile_stop int.isDigit hpoint, hfrac, hnone, int.nonempty, false_and, if_false,
    FromChars.exponent, Option.map_some, zpow_zero, mul_one]
  rfl

theorem exactValue_text (sign : Sign) (int frac : Numeral) :
    exactValue (sign.text ++ (int.digits ++ '.' :: frac.digits)) =
      some (sign.neg, pointed int frac) := by
  rw [exactValue, splitSign_float]
  dsimp only
  rw [decimal_pointed]
  rfl

def isNumberChar (c : Char) : Bool := c.isDigit || c = '+' || c = '-' || c = '.'

theorem Sign.numberChars (sign : Sign) : ∀ c ∈ sign.text, isNumberChar c = true := by
  cases sign <;> simp [Sign.text, isNumberChar]

theorem Numeral.numberChars (n : Numeral) : ∀ c ∈ n.digits, isNumberChar c = true := by
  intro c hc
  simp [isNumberChar, n.isDigit c hc]

theorem integer_numberChars (sign : Sign) (n : Numeral) :
    ∀ c ∈ sign.text ++ n.digits, isNumberChar c = true :=
  List.forall_mem_append.mpr ⟨sign.numberChars, n.numberChars⟩

theorem float_numberChars (sign : Sign) (int frac : Numeral) :
    ∀ c ∈ sign.text ++ (int.digits ++ '.' :: frac.digits), isNumberChar c = true := by
  refine List.forall_mem_append.mpr ⟨sign.numberChars, List.forall_mem_append.mpr
    ⟨int.numberChars, List.forall_mem_cons.mpr ⟨by decide, frac.numberChars⟩⟩⟩

theorem not_bool {token : List Char} (h : ∀ c ∈ token, isNumberChar c = true) :
    ¬ (token = "true".toList ∨ token = "false".toList) := by
  rintro (rfl | rfl)
  · exact absurd (h 't' (by decide)) (by decide)
  · exact absurd (h 'f' (by decide)) (by decide)

section Scalars
variable {V : Type} (values : Values V)

/-- `parseScalar` of a token that is a number. -/
theorem parseScalar_integer (sign : Sign) (n : Numeral) :
    parseScalar values (sign.text ++ n.digits) =
      match values.integer (sign.text ++ n.digits) with
      | some v => .ok v
      | none => .error (.invalidInteger (sign.text ++ n.digits)) := by
  have hne : sign.text ++ n.digits ≠ [] := List.append_ne_nil_of_right_ne_nil _ n.nonempty
  rw [parseScalar, if_neg (not_bool (integer_numberChars sign n)), if_neg hne, scanNumber_integer]
  rfl

theorem parseScalar_float (sign : Sign) (int frac : Numeral) :
    parseScalar values (sign.text ++ (int.digits ++ '.' :: frac.digits)) =
      match values.float (sign.text ++ (int.digits ++ '.' :: frac.digits)) with
      | some v => .ok v
      | none => .error (.invalidFloat (sign.text ++ (int.digits ++ '.' :: frac.digits))) := by
  have hne : sign.text ++ (int.digits ++ '.' :: frac.digits) ≠ [] := by simp
  rw [parseScalar, if_neg (not_bool (float_numberChars sign int frac)), if_neg hne,
    scanNumber_float]
  rfl

theorem parseScalar_bool (b : Bool) : parseScalar values (boolText b) = .ok (values.boolean b) := by
  cases b <;> rfl

/-- A token of a value is a boolean or a number, and a number is the value made of it. -/
theorem parseScalar_sound {token : List Char} {v : V} (h : parseScalar values token = .ok v) :
    (∃ b, token = boolText b ∧ v = values.boolean b) ∨
      (∃ (sign : Sign) (n : Numeral),
        token = sign.text ++ n.digits ∧ values.integer token = some v) ∨
      (∃ (sign : Sign) (int frac : Numeral),
        token = sign.text ++ (int.digits ++ '.' :: frac.digits) ∧ values.float token = some v) := by
  unfold parseScalar at h
  split at h
  · rename_i hbool
    rcases hbool with rfl | rfl
    · exact .inl ⟨true, rfl, (Except.ok.inj h).symm⟩
    · exact .inl ⟨false, rfl, (Except.ok.inj h).symm⟩
  · split at h
    · cases h
    · split at h
      · cases h
      · rename_i dot digit hscan
        cases digit with
        | false => cases h
        | true =>
          rcases scanNumber_sound hscan with ⟨rfl, sign, n, htext⟩ | ⟨rfl, sign, int, frac, htext⟩
          · refine .inr (.inl ⟨sign, n, htext, ?_⟩)
            cases hv : values.integer token with
            | none => simp [hv] at h
            | some w => simpa [hv] using h
          · refine .inr (.inr ⟨sign, int, frac, htext, ?_⟩)
            cases hv : values.float token with
            | none => simp [hv] at h
            | some w => simpa [hv] using h

end Scalars

section Literals
variable {strtod : Strtod}

theorem cppValues_integer (sign : Sign) (n : Numeral) :
    (cppValues strtod).integer (sign.text ++ n.digits) =
      if IsInt64 (signed sign.neg n.digits) then some (.integer (signed sign.neg n.digits))
      else none := by
  simp only [cppValues, integerValue_text]

theorem cppValues_float (sign : Sign) (int frac : Numeral) :
    (cppValues strtod).float (sign.text ++ (int.digits ++ '.' :: frac.digits)) =
      if strtod.erange (pointed int frac) then none
      else some (.float (.ofDatum (.fin sign.neg (pointed int frac)))) := by
  simp only [cppValues, exactValue_text, Option.bind_some]

/-- A literal that is not a string. -/
def Literal.IsScalar : Literal strtod → Prop
  | string _ => False
  | _ => True

theorem parseScalar_complete {L : Literal strtod} (hL : L.IsScalar) :
    parseScalar (cppValues strtod) L.text = .ok L.value := by
  cases L with
  | string pieces => exact hL.elim
  | boolean b => exact parseScalar_bool _ b
  | integer sign n fits =>
    simp only [Literal.text, Literal.value, parseScalar_integer, cppValues_integer, if_pos fits]
  | float sign int frac fits =>
    simp only [Literal.text, Literal.value, parseScalar_float, cppValues_float, fits,
      Bool.false_eq_true, if_false]

theorem parseScalar_literal {token : List Char} {v : Value}
    (h : parseScalar (cppValues strtod) token = .ok v) :
    ∃ L : Literal strtod, L.IsScalar ∧ token = L.text ∧ v = L.value := by
  rcases parseScalar_sound _ h with ⟨b, rfl, rfl⟩ | ⟨sign, n, rfl, hv⟩ | ⟨sign, int, frac, rfl, hv⟩
  · exact ⟨.boolean b, trivial, rfl, rfl⟩
  · rw [cppValues_integer] at hv
    split at hv
    · rename_i fits
      exact ⟨.integer sign n fits, trivial, rfl, (Option.some.inj hv).symm⟩
    · cases hv
  · rw [cppValues_float] at hv
    split at hv
    · cases hv
    · rename_i fits
      exact ⟨.float sign int frac (Bool.not_eq_true _ ▸ fits), trivial, rfl,
        (Option.some.inj hv).symm⟩

end Literals

/-! ## Lines -/

theorem Tail.no_token (t : Tail) : ∀ c ∈ t.text.head?, isTokenChar c = false := by
  obtain ⟨⟨blanks, hblank⟩, comment⟩ := t
  intro c hc
  cases blanks with
  | nil =>
    cases comment with
    | none => cases hc
    | some comment =>
      obtain rfl : '#' = c := Option.some.inj hc
      decide
  | cons b blanks =>
    obtain rfl : b = c := Option.some.inj hc
    simp [isTokenChar, hblank b List.mem_cons_self]

theorem takeWhile_none {p : Char → Bool} {s : List Char} (h : ∀ c ∈ s.head?, p c = false) :
    s.takeWhile p = [] ∧ s.dropWhile p = s := by
  cases s with
  | nil => exact ⟨rfl, rfl⟩
  | cons c s =>
    have hc : p c = false := h c rfl
    exact ⟨List.takeWhile_cons_of_neg (by simp [hc]), List.dropWhile_cons_of_neg (by simp [hc])⟩

theorem takeWhile_text {p : Char → Bool} {s t : List Char} (hs : ∀ c ∈ s, p c = true)
    (ht : ∀ c ∈ t.head?, p c = false) : (s ++ t).takeWhile p = s ∧ (s ++ t).dropWhile p = t := by
  obtain ⟨htake, hdrop⟩ := takeWhile_none ht
  rw [List.takeWhile_append_of_pos hs, List.dropWhile_append_of_pos hs, htake, List.append_nil]
  exact ⟨rfl, hdrop⟩

/-- What the characters of an unquoted value have in common. -/
def isScalarChar (c : Char) : Bool := isNumberChar c || c.isAlpha

section Written
variable {strtod : Strtod}

theorem boolText_chars (b : Bool) : ∀ c ∈ boolText b, isScalarChar c = true :=
  List.all_eq_true.mp (by cases b <;> decide)

theorem boolText_ne_nil (b : Bool) : boolText b ≠ [] := by cases b <;> decide

theorem Literal.scalarChars {L : Literal strtod} (hL : L.IsScalar) :
    ∀ c ∈ L.text, isScalarChar c = true := by
  have number : ∀ {s : List Char}, (∀ c ∈ s, isNumberChar c = true) →
      ∀ c ∈ s, isScalarChar c = true := by
    intro s hs c hc
    simp [isScalarChar, hs c hc]
  cases L with
  | string pieces => exact hL.elim
  | boolean b => exact boolText_chars b
  | integer sign n _ => exact number (integer_numberChars sign n)
  | float sign int frac _ => exact number (float_numberChars sign int frac)

theorem Literal.text_ne_nil (L : Literal strtod) : L.text ≠ [] := by
  cases L with
  | string pieces => exact List.cons_ne_nil _ _
  | boolean b => exact boolText_ne_nil b
  | integer sign n _ => exact List.append_ne_nil_of_right_ne_nil _ n.nonempty
  | float sign int frac _ => simp [Literal.text]

theorem isScalarChar_ne {c d : Char} (hc : isScalarChar c = true) (hd : isScalarChar d = false) :
    c ≠ d := by
  rintro rfl
  exact absurd hc (by simp [hd])

theorem isTokenChar_of_scalar {c : Char} (hc : isScalarChar c = true) : isTokenChar c = true := by
  have hblank : c ≠ ' ' := isScalarChar_ne hc (by decide)
  have htab : c ≠ '\t' := isScalarChar_ne hc (by decide)
  have hhash : c ≠ '#' := isScalarChar_ne hc (by decide)
  simp [isTokenChar, isSpace, hblank, htab, hhash]

theorem Literal.head_token (L : Literal strtod) : ∀ c ∈ L.text.head?, isTokenChar c = true := by
  intro c hc
  by_cases hL : L.IsScalar
  · exact isTokenChar_of_scalar (Literal.scalarChars hL c (List.mem_of_mem_head? hc))
  · cases L with
    | string pieces =>
      obtain rfl : '"' = c := Option.some.inj hc
      decide
    | _ => exact absurd trivial hL

theorem isSpace_of_token {c : Char} (hc : isTokenChar c = true) : isSpace c = false := by
  simp only [isTokenChar, Bool.and_eq_true, Bool.not_eq_true'] at hc
  exact hc.1

theorem parseValue_complete (key : List Char) (L : Literal strtod) (t : Tail) :
    parseValue (cppValues strtod) key (L.text ++ t.text) = .ok (L.value, t.text) := by
  by_cases hL : L.IsScalar
  · obtain ⟨c, s, htext⟩ := List.exists_cons_of_ne_nil L.text_ne_nil
    have hall := Literal.scalarChars hL
    have hc : isScalarChar c = true := hall c (htext ▸ List.mem_cons_self)
    have hhash : c ≠ '#' := isScalarChar_ne hc (by decide)
    have hquote : c ≠ '"' := isScalarChar_ne hc (by decide)
    have harray : ¬ (c = '[' ∨ c = '\x7b') := by
      rintro (rfl | rfl) <;> exact absurd hc (by decide)
    have hsingle : c ≠ '\'' := isScalarChar_ne hc (by decide)
    obtain ⟨htake, hdrop⟩ := takeWhile_text (fun c hc => isTokenChar_of_scalar (hall c hc)) t.no_token
    rw [htext, List.cons_append] at htake hdrop
    rw [htext, List.cons_append, parseValue, if_neg hhash, if_neg hquote, if_neg harray,
      if_neg hsingle, htake, hdrop, ← htext, parseScalar_complete hL]
  · cases L with
    | string pieces =>
      have hread := parseQuotedString_complete pieces [] t.text
      simp only [Literal.text, Literal.value, List.cons_append, List.append_assoc, List.nil_append]
      rw [parseValue, if_neg (by decide), if_pos rfl, hread]
      rfl
    | _ => exact absurd trivial hL

theorem parseValue_sound {key s rest : List Char} {v : Value} (hs : '\n' ∉ s)
    (h : parseValue (cppValues strtod) key s = .ok (v, rest)) :
    ∃ L : Literal strtod, s = L.text ++ rest ∧ v = L.value := by
  cases s with
  | nil => cases h
  | cons c t =>
    rw [parseValue] at h
    split at h
    · cases h
    · split at h
      · rename_i hquote
        subst hquote
        split at h
        · cases h
        · rename_i str rest' hread
          obtain ⟨rfl, rfl⟩ := Prod.mk.inj (Except.ok.inj h)
          obtain ⟨pieces, rfl, rfl⟩ :=
            parseQuotedString_sound (fun hmem => hs (List.mem_cons_of_mem _ hmem)) hread
          exact ⟨.string pieces, by simp [Literal.text], rfl⟩
      · split at h
        · cases h
        · split at h
          · cases h
          · split at h
            · cases h
            · rename_i w hscalar
              obtain ⟨rfl, rfl⟩ := Prod.mk.inj (Except.ok.inj h)
              obtain ⟨L, _, htext, rfl⟩ := parseScalar_literal hscalar
              exact ⟨L, by rw [← htext, List.takeWhile_append_dropWhile], rfl⟩

theorem isBareKeyChar_ne {c d : Char} (hc : isBareKeyChar c = true) (hd : isBareKeyChar d = false) :
    c ≠ d := by
  rintro rfl
  exact absurd hc (by simp [hd])

theorem isSpace_of_bare {c : Char} (hc : isBareKeyChar c = true) : isSpace c = false := by
  have hblank : c ≠ ' ' := isBareKeyChar_ne hc (by decide)
  have htab : c ≠ '\t' := isBareKeyChar_ne hc (by decide)
  simp [isSpace, hblank, htab]

theorem parseHeader_complete {V : Type} (name : BareName) (t : Tail) :
    parseHeader (name.text ++ ']' :: t.text) = .ok (Item.header name.text : Item V) := by
  have hname : ∀ c ∈ name.text, decide (c ≠ ']') = true := fun c hc =>
    decide_eq_true (isBareKeyChar_ne (name.bare c hc) (by decide))
  have hclose : decide (']' ≠ ']') = false := by decide
  have hall : name.text.all isBareKeyChar = true := List.all_eq_true.mpr name.bare
  rw [parseHeader, takeWhile_stop hname hclose, dropWhile_stop hname hclose]
  simp [name.nonempty, hall, onlyTrailing_complete]

theorem parseHeader_sound {V : Type} {s : List Char} {item : Item V} (hs : '\n' ∉ s)
    (h : parseHeader s = .ok item) :
    ∃ (name : BareName) (t : Tail), s = name.text ++ ']' :: t.text ∧ item = .header name.text := by
  unfold parseHeader at h
  dsimp only at h
  have hsplit := (List.takeWhile_append_dropWhile (p := (· ≠ ']')) (l := s)).symm
  split at h
  · cases h
  · rename_i c rest hdrop
    have hc : c = ']' := by
      have := List.head?_dropWhile_not (· ≠ ']') s
      rw [hdrop] at this
      simpa using this
    rw [hdrop, hc] at hsplit
    split at h
    · cases h
    · rename_i hne
      split at h
      · cases h
      · rename_i hall
        split at h
        · cases h
        · rename_i htrail
          have hrest : '\n' ∉ rest := fun hmem => hs (by rw [hsplit]; simp [hmem])
          obtain ⟨t, rfl⟩ := onlyTrailing_sound (by simpa using htrail) hrest
          refine ⟨⟨_, hne, ?_⟩, t, hsplit, (Except.ok.inj h).symm⟩
          simpa using hall

theorem parsePair_complete (key : BareName) (left right : Blanks) (L : Literal strtod) (t : Tail) :
    parsePair (cppValues strtod)
        (key.text ++ (left.text ++ '=' :: (right.text ++ (L.text ++ t.text)))) =
      .ok (.pair key.text L.value) := by
  have hstop : ∀ c ∈ (left.text ++ '=' :: (right.text ++ (L.text ++ t.text))).head?,
      isBareKeyChar c = false := by
    intro c hc
    cases hleft : left.text with
    | nil =>
      rw [hleft] at hc
      obtain rfl : '=' = c := Option.some.inj hc
      decide
    | cons b s =>
      rw [hleft] at hc
      obtain rfl : b = c := Option.some.inj hc
      rcases isSpace_iff.mp (left.blank b (hleft ▸ List.mem_cons_self)) with rfl | rfl <;> decide
  obtain ⟨htake, hdrop⟩ := takeWhile_text key.bare hstop
  have hvalue : skipSpace (L.text ++ t.text) = L.text ++ t.text := by
    obtain ⟨c, s, htext⟩ := List.exists_cons_of_ne_nil L.text_ne_nil
    rw [htext, List.cons_append]
    have hc := L.head_token c (htext ▸ rfl)
    exact skipSpace_cons (isSpace_of_token hc) _
  have hskip : skipSpace (left.text ++ '=' :: (right.text ++ (L.text ++ t.text))) =
      '=' :: (right.text ++ (L.text ++ t.text)) := by
    rw [skipSpace_append, skipSpace_cons (by decide)]
  rw [parsePair]
  simp only [htake, hdrop, hskip, if_neg key.nonempty, if_pos, skipSpace_append, hvalue,
    parseValue_complete, onlyTrailing_complete]

theorem parsePair_sound {s : List Char} {item : Item Value} (hs : '\n' ∉ s)
    (h : parsePair (cppValues strtod) s = .ok item) :
    ∃ (key : BareName) (left right : Blanks) (L : Literal strtod) (t : Tail),
      s = key.text ++ (left.text ++ '=' :: (right.text ++ (L.text ++ t.text))) ∧
        item = .pair key.text L.value := by
  unfold parsePair at h
  dsimp only at h
  have hsplit := (List.takeWhile_append_dropWhile (p := isBareKeyChar) (l := s)).symm
  obtain ⟨left, hleft⟩ := blanks_skipSpace (s.dropWhile isBareKeyChar)
  split at h
  · cases h
  · rename_i hne
    split at h
    · cases h
    · rename_i c t hskip
      rw [hskip] at hleft
      rw [hleft] at hsplit
      split at h
      · rename_i hc
        subst hc
        obtain ⟨right, hright⟩ := blanks_skipSpace t
        split at h
        · cases h
        · rename_i value rest hread
          split at h
          · rename_i htrail
            have hline : ∀ u : List Char, (∀ c ∈ u, c ∈ s) → '\n' ∉ u := fun u hu hmem => hs (hu _ hmem)
            have ht : ∀ c ∈ t, c ∈ s := by
              intro c hc
              rw [hsplit]
              simp [hc]
            have hu : ∀ c ∈ skipSpace t, c ∈ s := fun c hc => ht c (by rw [hright]; simp [hc])
            obtain ⟨L, hL, rfl⟩ := parseValue_sound (hline _ hu) hread
            have hrest : ∀ c ∈ rest, c ∈ s := fun c hc => hu c (by rw [hL]; simp [hc])
            obtain ⟨tail, rfl⟩ := onlyTrailing_sound htrail (hline _ hrest)
            refine ⟨⟨_, hne, fun c hc => List.mem_takeWhile_imp hc⟩, left, right, L, tail, ?_,
              (Except.ok.inj h).symm⟩
            rw [← hL, ← hright]
            exact hsplit
          · cases h
      · split at h <;> cases h

theorem parseLine_complete (L : Line strtod) :
    parseLine (cppValues strtod) L.text = .ok L.item := by
  cases L with
  | empty tail =>
    have htrail := onlyTrailing_complete tail
    simp only [Line.text, Line.item, parseLine, onlyTrailing] at htrail ⊢
    split at htrail <;> simp_all
  | header indent name tail =>
    rw [Line.text, parseLine, skipSpace_append, skipSpace_cons (by decide)]
    exact parseHeader_complete name tail
  | pair indent key left right value tail =>
    obtain ⟨c, s, htext⟩ := List.exists_cons_of_ne_nil key.nonempty
    have hc : isBareKeyChar c = true := key.bare c (htext ▸ List.mem_cons_self)
    have hhash : c ≠ '#' := isBareKeyChar_ne hc (by decide)
    have hopen : c ≠ '[' := isBareKeyChar_ne hc (by decide)
    have hpair := parsePair_complete key left right value tail
    rw [htext, List.cons_append] at hpair
    rw [Line.text, parseLine, skipSpace_append, htext, List.cons_append,
      skipSpace_cons (isSpace_of_bare hc)]
    simp only [if_neg hhash, if_neg hopen, hpair, Line.item, htext]

theorem parseLine_sound {s : List Char} {item : Item Value} (hs : '\n' ∉ s)
    (h : parseLine (cppValues strtod) s = .ok item) :
    ∃ L : Line strtod, s = L.text ∧ item = L.item := by
  obtain ⟨indent, hindent⟩ := blanks_skipSpace s
  have hrest : '\n' ∉ skipSpace s := fun hmem => hs (by rw [hindent]; simp [hmem])
  unfold parseLine at h
  split at h
  · rename_i hskip
    rw [hskip] at hindent
    exact ⟨.empty ⟨indent, none⟩, hindent, (Except.ok.inj h).symm⟩
  · rename_i c t hskip
    rw [hskip] at hindent hrest
    have ht : '\n' ∉ t := fun hmem => hrest (List.mem_cons_of_mem c hmem)
    split at h
    · rename_i hc
      subst hc
      exact ⟨.empty ⟨indent, some ⟨t, ht⟩⟩, hindent, (Except.ok.inj h).symm⟩
    · split at h
      · rename_i hc
        subst hc
        obtain ⟨name, tail, rfl, rfl⟩ := parseHeader_sound ht h
        exact ⟨.header indent name tail, hindent, rfl⟩
      · obtain ⟨key, left, right, value, tail, htext, rfl⟩ := parsePair_sound hrest h
        exact ⟨.pair indent key left right value tail, by rw [hindent, htext, Line.text], rfl⟩

end Written

end Olv.Toml
