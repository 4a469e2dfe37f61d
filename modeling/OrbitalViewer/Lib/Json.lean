import OrbitalViewer.Lib.Decimal

/-!
# JSON text

A parser for JSON, and texts known to parse: `Parses t v` says that a value
parser reads `t` as `v` wherever it stands, and there is one rule for each way
to write a value (`Parses.number`, `Parses.string`, `Parses.array`,
`Parses.object`). `parse_eq` closes a derivation.

Numbers are the exact rationals their text denotes. Strings are sequences of
UTF-16 code units; an unpaired surrogate, which is no character, is read as
U+FFFD.
-/

namespace Json
open Decimal (value digits sign)

inductive Value where
  | null
  | bool (b : Bool)
  | num (q : ℚ)
  | str (s : String)
  | arr (items : List Value)
  | obj (members : List (String × Value))

/-- The value of a key, that of its last occurrence. -/
def get (key : String) (members : List (String × Value)) : Option Value :=
  members.reverse.lookup key

/-! ## The parser -/

def isSpace (c : Char) : Bool := c = ' ' || c = '\t' || c = '\n' || c = '\r'

def skip (t : List Char) : List Char := t.dropWhile isSpace

def hexDigit (c : Char) : Option ℕ :=
  if c.isDigit then some (c.toNat - '0'.toNat)
  else if 'a' ≤ c ∧ c ≤ 'f' then some (c.toNat - 'a'.toNat + 10)
  else if 'A' ≤ c ∧ c ≤ 'F' then some (c.toNat - 'A'.toNat + 10)
  else none

def escaped (c : Char) : Option Char :=
  [('"', '"'), ('\\', '\\'), ('/', '/'), ('b', '\x08'), ('f', '\x0c'), ('n', '\n'), ('r', '\r'),
    ('t', '\t')].lookup c

/-- The UTF-16 code units of a character. -/
def units (c : Char) : List ℕ :=
  if c.toNat < 0x10000 then [c.toNat]
  else [0xD800 + (c.toNat - 0x10000) / 0x400, 0xDC00 + (c.toNat - 0x10000) % 0x400]

def ofUnit (u : ℕ) : Char := if 0xD800 ≤ u ∧ u < 0xE000 then '\uFFFD' else Char.ofNat u

def ofUnits : List ℕ → List Char
  | [] => []
  | [u] => [ofUnit u]
  | u :: l :: us =>
    if 0xD800 ≤ u ∧ u < 0xDC00 ∧ 0xDC00 ≤ l ∧ l < 0xE000 then
      Char.ofNat (0x10000 + (u - 0xD800) * 0x400 + (l - 0xDC00)) :: ofUnits us
    else ofUnit u :: ofUnits (l :: us)

/-- The code units of a string up to its closing quote. -/
def stringUnits : List Char → Option (List ℕ × List Char)
  | '"' :: t => some ([], t)
  | '\\' :: 'u' :: a :: b :: c :: d :: t => do
    let u := 0x1000 * (← hexDigit a) + 0x100 * (← hexDigit b) + 0x10 * (← hexDigit c) +
      (← hexDigit d)
    let (us, t) ← stringUnits t
    some (u :: us, t)
  | '\\' :: e :: t => do
    let c ← escaped e
    let (us, t) ← stringUnits t
    some (c.toNat :: us, t)
  | c :: t =>
    if c.toNat < 0x20 then none
    else do
      let (us, t) ← stringUnits t
      some (units c ++ us, t)
  | [] => none

def parseString (t : List Char) : Option (String × List Char) :=
  (stringUnits t).map fun (us, t) => (String.ofList (ofUnits us), t)

def signPart : List Char → Bool × List Char
  | '-' :: t => (true, t)
  | t => (false, t)

/-- The integer part of a number: no leading zero. -/
def integerPart (t : List Char) : Option (List Char × List Char) :=
  let ds := t.takeWhile Char.isDigit
  if ds = [] ∨ (ds.head? = some '0' ∧ ds ≠ ['0']) then none
  else some (ds, t.dropWhile Char.isDigit)

def fractionPart : List Char → Option (List Char × List Char)
  | '.' :: t =>
    let ds := t.takeWhile Char.isDigit
    if ds = [] then none else some (ds, t.dropWhile Char.isDigit)
  | t => some ([], t)

def exponentSign : List Char → Bool × List Char
  | '+' :: t => (false, t)
  | t => signPart t

def exponentPart : List Char → Option (ℤ × List Char)
  | [] => some (0, [])
  | c :: t =>
    if c = 'e' ∨ c = 'E' then
      let (neg, t) := exponentSign t
      let ds := t.takeWhile Char.isDigit
      if ds = [] then none
      else some (if neg then -(value ds : ℤ) else value ds, t.dropWhile Char.isDigit)
    else some (0, c :: t)

def signed (neg : Bool) (q : ℚ) : ℚ := if neg then -q else q

def parseNumber (t : List Char) : Option (ℚ × List Char) := do
  let (neg, t) := signPart t
  let (int, t) ← integerPart t
  let (frac, t) ← fractionPart t
  let (e, t) ← exponentPart t
  some (signed neg (value (int ++ frac) / 10 ^ frac.length * 10 ^ e), t)

def parseScalar : List Char → Option (Value × List Char)
  | 'n' :: 'u' :: 'l' :: 'l' :: t => some (.null, t)
  | 't' :: 'r' :: 'u' :: 'e' :: t => some (.bool true, t)
  | 'f' :: 'a' :: 'l' :: 's' :: 'e' :: t => some (.bool false, t)
  | '"' :: t => (parseString t).map fun (s, t) => (.str s, t)
  | t => (parseNumber t).map fun (q, t) => (.num q, t)

/-- A key and the colon after it. -/
def parseKey (t : List Char) : Option (String × List Char) :=
  match skip t with
  | '"' :: t => do
    let (key, t) ← parseString t
    match skip t with
    | ':' :: t => some (key, t)
    | _ => none
  | _ => none

mutual

/-- A value, and the text after it. Every call but the first follows a character
that was read, so fuel of twice the length of the text never runs out. -/
def parseValue : ℕ → List Char → Option (Value × List Char)
  | 0, _ => none
  | n + 1, t =>
    match skip t with
    | '[' :: t =>
      match skip t with
      | ']' :: t => some (.arr [], t)
      | t => (parseElements n t).map fun (vs, t) => (.arr vs, t)
    | '{' :: t =>
      match skip t with
      | '}' :: t => some (.obj [], t)
      | t => (parseMembers n t).map fun (ms, t) => (.obj ms, t)
    | t => parseScalar t

/-- The elements of an array up to its bracket. -/
def parseElements : ℕ → List Char → Option (List Value × List Char)
  | 0, _ => none
  | n + 1, t => do
    let (v, t) ← parseValue n t
    match skip t with
    | ',' :: t => (parseElements n t).map fun (vs, t) => (v :: vs, t)
    | ']' :: t => some ([v], t)
    | _ => none

/-- The members of an object up to its brace. -/
def parseMembers : ℕ → List Char → Option (List (String × Value) × List Char)
  | 0, _ => none
  | n + 1, t => do
    let (key, t) ← parseKey t
    let (v, t) ← parseValue n t
    match skip t with
    | ',' :: t => (parseMembers n t).map fun (ms, t) => ((key, v) :: ms, t)
    | '}' :: t => some ([(key, v)], t)
    | _ => none

end

/-- `JSON.parse`: one value, and nothing but space after it. -/
def parse (t : List Char) : Option Value :=
  match parseValue (2 * t.length + 1) t with
  | some (v, rest) => if skip rest = [] then some v else none
  | none => none

/-! ## Texts that parse -/

/-- Where a value ends inside an array or an object, or with the text. -/
def Stops (t : List Char) : Prop := ∀ c ∈ t.head?, c = ',' ∨ c = ']' ∨ c = '}'

structure Parses (t : List Char) (v : Value) : Prop where
  begins : ∃ c t', t = c :: t' ∧ isSpace c = false ∧ c ≠ ']'
  reads : ∀ n rest, 2 * t.length < n → Stops rest → parseValue n (t ++ rest) = some (v, rest)

theorem stops_nil : Stops [] := by rintro _ ⟨⟩

theorem skip_cons {c : Char} (h : isSpace c = false) (t : List Char) : skip (c :: t) = c :: t :=
  List.dropWhile_cons_of_neg (by simp [h])

theorem parse_eq {t : List Char} {v : Value} (h : Parses t v) : parse t = some v := by
  have hread := h.reads (2 * t.length + 1) [] (Nat.lt_succ_self _) stops_nil
  rw [List.append_nil] at hread
  rw [parse, hread]
  rfl

/-- A scalar text, by its first character. -/
theorem parses_scalar {c : Char} {t : List Char} {v : Value} (hspace : isSpace c = false)
    (hc : c ≠ '[' ∧ c ≠ '{' ∧ c ≠ ']')
    (h : ∀ rest, Stops rest → parseScalar (c :: t ++ rest) = some (v, rest)) :
    Parses (c :: t) v where
  begins := ⟨c, t, rfl, hspace, hc.2.2⟩
  reads := by
    intro n rest hn hrest
    obtain ⟨n, rfl⟩ := Nat.exists_eq_succ_of_ne_zero (Nat.ne_zero_of_lt hn)
    rw [parseValue, List.cons_append, skip_cons hspace, ← List.cons_append, ← h rest hrest]
    split
    · rename_i heq
      exact absurd (List.cons.inj heq).1 hc.1
    · rename_i heq
      exact absurd (List.cons.inj heq).1 hc.2.1
    · rfl

theorem Parses.null : Parses "null".toList .null :=
  parses_scalar (c := 'n') (t := "ull".toList) rfl (by decide) fun _ _ => rfl

/-! ## Numbers -/

theorem span_digits {ds rest : List Char} (hd : ∀ c ∈ ds, c.isDigit = true)
    (hrest : ∀ c ∈ rest.head?, c.isDigit = false) :
    (ds ++ rest).takeWhile Char.isDigit = ds ∧ (ds ++ rest).dropWhile Char.isDigit = rest := by
  rw [List.takeWhile_append_of_pos hd, List.dropWhile_append_of_pos hd]
  cases rest with
  | nil => exact ⟨List.append_nil ds, rfl⟩
  | cons c rest =>
    have hc : ¬ c.isDigit = true := by simp [hrest c rfl]
    rw [List.takeWhile_cons_of_neg hc, List.dropWhile_cons_of_neg hc]
    exact ⟨List.append_nil ds, rfl⟩

/-- The fraction of a number, none for an integer. -/
def fractionText (frac : List Char) : List Char := if frac = [] then [] else '.' :: frac

theorem Stops.not_digit {t : List Char} (h : Stops t) : ∀ c ∈ t.head?, c.isDigit = false := by
  intro c hc
  rcases h c hc with rfl | rfl | rfl <;> rfl

theorem signPart_eq (neg : Bool) {t : List Char} (ht : ∀ c ∈ t.head?, c ≠ '-') :
    signPart (sign neg ++ t) = (neg, t) := by
  cases neg with
  | true => rfl
  | false =>
    rw [sign, if_neg Bool.false_ne_true, List.nil_append]
    unfold signPart
    split
    · exact absurd rfl (ht '-' rfl)
    · rfl

theorem integerPart_eq {int rest : List Char} (hne : int ≠ [])
    (hint : ∀ c ∈ int, c.isDigit = true) (hzero : int.head? = some '0' → int = ['0'])
    (hrest : ∀ c ∈ rest.head?, c.isDigit = false) :
    integerPart (int ++ rest) = some (int, rest) := by
  obtain ⟨htake, hdrop⟩ := span_digits hint hrest
  rw [integerPart, htake, hdrop]
  exact if_neg (by rintro (h | ⟨h, h'⟩); exacts [hne h, h' (hzero h)])

theorem fractionPart_eq {frac rest : List Char} (hfrac : ∀ c ∈ frac, c.isDigit = true)
    (hrest : Stops rest) : fractionPart (fractionText frac ++ rest) = some (frac, rest) := by
  unfold fractionText
  split
  · rename_i hnil
    rw [hnil, List.nil_append]
    unfold fractionPart
    split
    · exact absurd (hrest '.' rfl) (by decide)
    · rfl
  · rename_i hne
    obtain ⟨htake, hdrop⟩ := span_digits hfrac hrest.not_digit
    rw [List.cons_append, fractionPart, htake, hdrop, if_neg hne]

theorem exponentPart_eq {rest : List Char} (hrest : Stops rest) :
    exponentPart rest = some (0, rest) := by
  cases rest with
  | nil => rfl
  | cons c t =>
    have hc : ¬ (c = 'e' ∨ c = 'E') := by
      rcases hrest c rfl with rfl | rfl | rfl <;> decide
    rw [exponentPart, if_neg hc]

theorem parseNumber_eq (neg : Bool) {int frac rest : List Char} (hne : int ≠ [])
    (hint : ∀ c ∈ int, c.isDigit = true) (hzero : int.head? = some '0' → int = ['0'])
    (hfrac : ∀ c ∈ frac, c.isDigit = true) (hrest : Stops rest) :
    parseNumber (sign neg ++ (int ++ fractionText frac) ++ rest) =
      some (signed neg (value (int ++ frac) / 10 ^ frac.length), rest) := by
  have hafter : ∀ c ∈ (fractionText frac ++ rest).head?, c.isDigit = false := by
    unfold fractionText
    split
    · exact hrest.not_digit
    · rintro _ ⟨⟩
      rfl
  have hsign := signPart_eq neg (t := int ++ fractionText frac ++ rest) fun c hc => by
    obtain ⟨d, int, rfl⟩ := List.exists_cons_of_ne_nil hne
    obtain rfl := Option.some.inj hc
    rintro rfl
    exact absurd (hint '-' List.mem_cons_self) (by decide)
  rw [parseNumber, List.append_assoc, hsign]
  simp only [List.append_assoc, integerPart_eq hne hint hzero hafter, fractionPart_eq hfrac hrest,
    exponentPart_eq hrest, Option.bind_eq_bind, Option.bind_some, zpow_zero, mul_one]

theorem number_head_ne {c d : Char} (hc : c = '-' ∨ c.isDigit = true)
    (hd : d ≠ '-' ∧ d.isDigit = false) : c ≠ d := by
  rintro rfl
  rcases hc with rfl | h
  · exact hd.1 rfl
  · exact Bool.false_ne_true (hd.2.symm.trans h)

theorem parseScalar_number {c : Char} (hc : c = '-' ∨ c.isDigit = true) (t : List Char) :
    parseScalar (c :: t) = (parseNumber (c :: t)).map fun (q, t) => (.num q, t) := by
  have hne (d : Char) := number_head_ne (d := d) hc
  unfold parseScalar
  split
  · rename_i heq
    exact absurd (List.cons.inj heq).1 (hne 'n' (by decide))
  · rename_i heq
    exact absurd (List.cons.inj heq).1 (hne 't' (by decide))
  · rename_i heq
    exact absurd (List.cons.inj heq).1 (hne 'f' (by decide))
  · rename_i heq
    exact absurd (List.cons.inj heq).1 (hne '"' (by decide))
  · rfl

/-- A sign, digits without a leading zero, and perhaps a point and digits. -/
theorem Parses.number (neg : Bool) {int f : List Char} (hne : int ≠ [])
    (hint : ∀ c ∈ int, c.isDigit = true) (hzero : int.head? = some '0' → int = ['0'])
    (hfrac : ∀ c ∈ f, c.isDigit = true) :
    Parses (sign neg ++ (int ++ fractionText f))
      (.num (signed neg (value (int ++ f) / 10 ^ f.length))) := by
  obtain ⟨c, t, heq, hc⟩ : ∃ c t, sign neg ++ (int ++ fractionText f) = c :: t ∧
      (c = '-' ∨ c.isDigit = true) := by
    obtain ⟨d, int', rfl⟩ := List.exists_cons_of_ne_nil hne
    cases neg with
    | true => exact ⟨'-', _, rfl, .inl rfl⟩
    | false => exact ⟨d, _, rfl, .inr (hint d List.mem_cons_self)⟩
  have hnot (d : Char) := number_head_ne (d := d) hc
  have hspace : isSpace c = false := by
    simp [isSpace, hnot ' ' (by decide), hnot '\t' (by decide), hnot '\n' (by decide),
      hnot '\r' (by decide)]
  have hopen : c ≠ '[' ∧ c ≠ '\x7b' ∧ c ≠ ']' :=
    ⟨hnot '[' (by decide), hnot '\x7b' (by decide), hnot ']' (by decide)⟩
  have hnumber (rest : List Char) (hrest : Stops rest) :=
    parseNumber_eq neg hne hint hzero hfrac hrest
  rw [heq] at hnumber ⊢
  refine parses_scalar hspace hopen fun rest hrest => ?_
  have hread := hnumber rest hrest
  rw [List.cons_append] at hread ⊢
  rw [parseScalar_number hc, hread]
  rfl

theorem Parses.digits (n : ℕ) : Parses (digits n) (.num n) := by
  have h := Parses.number false (f := []) (Decimal.digits_ne_nil n)
    (fun _ hc => Decimal.isDigit_digits hc) Decimal.digits_head (by simp)
  simpa [sign, fractionText, signed, Decimal.value_digits] using h

/-- The text of `printf` with decimals reads as the rounded value. -/
theorem Parses.fixed {p : ℕ} (hp : 0 < p) (neg : Bool) (mag : ℚ) :
    Parses (Decimal.fixed p (.fin neg mag)) (.num (Decimal.rounded p (.fin neg mag))) := by
  have hpow : 0 < 10 ^ p := Nat.pow_pos (by decide)
  obtain ⟨n, hn⟩ : ∃ n, Ieee.nearestEven (mag * 10 ^ p) = n := ⟨_, rfl⟩
  have hlen : (Decimal.padded p (n % 10 ^ p)).length = p :=
    Decimal.length_padded hp (Nat.mod_lt _ hpow)
  have hne : Decimal.padded p (n % 10 ^ p) ≠ [] := by
    intro hnil
    rw [hnil] at hlen
    exact Nat.ne_of_lt hp hlen
  have hvalue : value (Decimal.digits (n / 10 ^ p) ++ Decimal.padded p (n % 10 ^ p)) = n := by
    rw [Decimal.value_append, Decimal.value_digits, Decimal.value_padded, hlen]
    exact Nat.div_add_mod n (10 ^ p)
  have h := Parses.number neg (Decimal.digits_ne_nil (n / 10 ^ p))
    (fun _ hc => Decimal.isDigit_digits hc) Decimal.digits_head
    (f := Decimal.padded p (n % 10 ^ p)) fun _ hc => Decimal.isDigit_padded hc
  rw [hvalue, hlen, fractionText, if_neg hne] at h
  simpa only [Decimal.fixed, Decimal.rounded, signed, hn] using h

/-! ## Strings -/

/-- A character that stands for itself in a string, and is one code unit. -/
def Plain (c : Char) : Prop := c ≠ '"' ∧ c ≠ '\\' ∧ 0x20 ≤ c.toNat ∧ c.toNat < 0xD800

instance (c : Char) : Decidable (Plain c) := inferInstanceAs (Decidable (_ ∧ _))

theorem plain_of_isAlphanum {c : Char} (h : c.isAlphanum = true) : Plain c := by
  have hrange : (65 ≤ c.toNat ∧ c.toNat ≤ 90) ∨ (97 ≤ c.toNat ∧ c.toNat ≤ 122) ∨
      (48 ≤ c.toNat ∧ c.toNat ≤ 57) := by
    simpa [Char.isAlphanum, Char.isAlpha, Char.isUpper, Char.isLower, Char.isDigit,
      UInt32.le_iff_toNat_le, or_assoc] using h
  refine ⟨?_, ?_, by omega, by omega⟩
  · rintro rfl
    exact absurd hrange (by decide)
  · rintro rfl
    exact absurd hrange (by decide)

def quoted (s : List Char) : List Char := '"' :: (s ++ ['"'])

theorem stringUnits_cons {c : Char} (hc : Plain c) (t : List Char) :
    stringUnits (c :: t) = (stringUnits t).map fun (us, t) => (c.toNat :: us, t) := by
  obtain ⟨hquote, hback, hlow, hhigh⟩ := hc
  have hunits : units c = [c.toNat] := if_pos (by omega)
  rw [stringUnits, if_neg (by omega), hunits]
  · cases stringUnits t <;> rfl
  · exact fun h => hquote h
  · exact fun _ _ _ _ _ h _ => hback h
  · exact fun _ _ h _ => hback h

theorem stringUnits_eq {s : List Char} (hs : ∀ c ∈ s, Plain c) (rest : List Char) :
    stringUnits (s ++ '"' :: rest) = some (s.map Char.toNat, rest) := by
  induction s with
  | nil => rfl
  | cons c s ih =>
    obtain ⟨hc, hs⟩ := List.forall_mem_cons.mp hs
    rw [List.cons_append, stringUnits_cons hc, ih hs]
    rfl

theorem ofUnits_eq {s : List Char} (hs : ∀ c ∈ s, Plain c) : ofUnits (s.map Char.toNat) = s := by
  have hone {c : Char} (hc : Plain c) : ofUnit c.toNat = c := by
    rw [ofUnit, if_neg (by have := hc.2.2.2; omega), Char.ofNat_toNat]
  induction s with
  | nil => rfl
  | cons c s ih =>
    obtain ⟨hc, hs⟩ := List.forall_mem_cons.mp hs
    cases s with
    | nil => exact congrArg (fun d => [d]) (hone hc)
    | cons d s =>
      have hsplit : ofUnits (c.toNat :: d.toNat :: s.map Char.toNat) =
          ofUnit c.toNat :: ofUnits (d.toNat :: s.map Char.toNat) := by
        rw [ofUnits, if_neg (by have := hc.2.2.2; omega)]
      rw [List.map_cons, List.map_cons, hsplit, hone hc]
      exact congrArg (c :: ·) (ih hs)

theorem parseString_eq {s : List Char} (hs : ∀ c ∈ s, Plain c) (rest : List Char) :
    parseString (s ++ '"' :: rest) = some (String.ofList s, rest) := by
  have hunits := ofUnits_eq hs
  rw [parseString, stringUnits_eq hs rest, Option.map_some]
  exact congrArg (fun u => some (String.ofList u, rest)) hunits

theorem Parses.string {s : List Char} (hs : ∀ c ∈ s, Plain c) :
    Parses (quoted s) (.str (String.ofList s)) := by
  refine parses_scalar rfl (by decide) fun rest _ => ?_
  have hread := parseString_eq hs rest
  rw [← List.singleton_append, ← List.append_assoc] at hread
  have hstep : parseScalar ('"' :: (s ++ ['"'] ++ rest)) =
      (parseString (s ++ ['"'] ++ rest)).map fun (s, t) => (Value.str s, t) := rfl
  rw [List.cons_append, hstep, hread]
  rfl

/-! ## Arrays and objects -/

/-- Texts with a comma between. -/
def commas : List (List Char) → List Char
  | [] => []
  | [t] => t
  | t :: ts => t ++ ',' :: commas ts

def arrayText (ts : List (List Char)) : List Char := '[' :: (commas ts ++ [']'])

def memberText (m : String × List Char) : List Char := quoted m.1.toList ++ ':' :: m.2

def objectText (ms : List (String × List Char)) : List Char :=
  '\x7b' :: (commas (ms.map memberText) ++ ['\x7d'])

theorem length_commas (t t' : List Char) (ts : List (List Char)) :
    (commas (t :: t' :: ts)).length = t.length + 1 + (commas (t' :: ts)).length := by
  simp only [commas, List.length_append, List.length_cons]
  omega

theorem stops_cons {c : Char} (hc : c = ',' ∨ c = ']' ∨ c = '\x7d') (t : List Char) :
    Stops (c :: t) := by
  rintro _ ⟨⟩
  exact hc

theorem parseElements_eq {ts : List (List Char)} {vs : List Value}
    (h : List.Forall₂ Parses ts vs) (hne : ts ≠ []) (n : ℕ) (rest : List Char)
    (hn : 2 * (commas ts).length + 1 < n) :
    parseElements n (commas ts ++ ']' :: rest) = some (vs, rest) := by
  induction h generalizing n with
  | nil => exact absurd rfl hne
  | @cons t v ts vs ht hts ih =>
    obtain ⟨n, rfl⟩ := Nat.exists_eq_succ_of_ne_zero (Nat.ne_zero_of_lt hn)
    cases ts with
    | nil =>
      cases hts
      have hread := ht.reads n (']' :: rest) (by simp only [commas] at hn; omega)
        (stops_cons (by decide) rest)
      simp only [commas, parseElements, hread, Option.bind_eq_bind, Option.bind_some]
      rfl
    | cons t' ts =>
      have hlen := length_commas t t' ts
      have hread := ht.reads n (',' :: (commas (t' :: ts) ++ ']' :: rest)) (by omega)
        (stops_cons (by decide) _)
      have hrest := ih (by simp) n (by omega)
      have htext : commas (t :: t' :: ts) ++ ']' :: rest =
          t ++ ',' :: (commas (t' :: ts) ++ ']' :: rest) := by simp [commas]
      rw [htext, parseElements, hread]
      exact congrArg (Option.map fun (vs, t) => (v :: vs, t)) hrest

theorem Parses.array {ts : List (List Char)} {vs : List Value} (h : List.Forall₂ Parses ts vs) :
    Parses (arrayText ts) (.arr vs) where
  begins := ⟨'[', _, rfl, rfl, by decide⟩
  reads := by
    intro n rest hn hrest
    obtain ⟨n, rfl⟩ := Nat.exists_eq_succ_of_ne_zero (Nat.ne_zero_of_lt hn)
    simp only [arrayText, List.length_cons, List.length_append, List.length_nil] at hn
    have htext : arrayText ts ++ rest = '[' :: (commas ts ++ ']' :: rest) := by simp [arrayText]
    rw [htext, parseValue, skip_cons rfl]
    cases h with
    | nil => rfl
    | @cons t v ts vs ht hts =>
      have hread := parseElements_eq (.cons ht hts) (by simp) n rest (by omega)
      obtain ⟨c, t', htext', hspace, hbracket⟩ : ∃ c t', commas (t :: ts) ++ ']' :: rest = c :: t' ∧
          isSpace c = false ∧ c ≠ ']' := by
        obtain ⟨c, t', rfl, hspace, hbracket⟩ := ht.begins
        cases ts with
        | nil => exact ⟨c, _, rfl, hspace, hbracket⟩
        | cons _ _ => exact ⟨c, _, rfl, hspace, hbracket⟩
      rw [htext'] at hread ⊢
      simp only [skip_cons hspace]
      split
      · rename_i heq
        exact absurd (List.cons.inj heq).1 hbracket
      · rw [hread]
        rfl

theorem parseKey_eq {key : String} (hkey : ∀ c ∈ key.toList, Plain c) (rest : List Char) :
    parseKey (quoted key.toList ++ ':' :: rest) = some (key, rest) := by
  have hread := parseString_eq hkey (':' :: rest)
  have htext : quoted key.toList ++ ':' :: rest = '"' :: (key.toList ++ '"' :: ':' :: rest) := by
    simp [quoted]
  rw [String.ofList_toList] at hread
  rw [htext, parseKey, skip_cons rfl]
  simp only [hread, Option.bind_eq_bind, Option.bind_some]
  rfl

/-- A member's text and its value. -/
structure ParsesMember (m : String × List Char) (v : String × Value) : Prop where
  key : m.1 = v.1
  plain : ∀ c ∈ m.1.toList, Plain c
  value : Parses m.2 v.2

theorem parsesMember {key : String} {t : List Char} {v : Value}
    (hkey : key.toList.all Char.isAlphanum = true) (h : Parses t v) :
    ParsesMember (key, t) (key, v) :=
  ⟨rfl, fun c hc => plain_of_isAlphanum (List.all_eq_true.mp hkey c hc), h⟩

theorem parseMembers_eq {ms : List (String × List Char)} {vs : List (String × Value)}
    (h : List.Forall₂ ParsesMember ms vs) (hne : ms ≠ []) (n : ℕ) (rest : List Char)
    (hn : 2 * (commas (ms.map memberText)).length + 1 < n) :
    parseMembers n (commas (ms.map memberText) ++ '\x7d' :: rest) = some (vs, rest) := by
  induction h generalizing n with
  | nil => exact absurd rfl hne
  | @cons m v ms vs hm hms ih =>
    obtain ⟨n, rfl⟩ := Nat.exists_eq_succ_of_ne_zero (Nat.ne_zero_of_lt hn)
    obtain ⟨key, t⟩ := m
    obtain ⟨_, v⟩ := v
    obtain ⟨rfl, hplain, (ht : Parses t v)⟩ := hm
    have hshort : t.length < (memberText (key, t)).length := by
      simp only [memberText, quoted, List.length_append, List.length_cons]
      omega
    cases ms with
    | nil =>
      cases hms
      have hkey := parseKey_eq hplain (t ++ '\x7d' :: rest)
      have hread := ht.reads n ('\x7d' :: rest)
        (by simp only [commas, List.map_cons, List.map_nil] at hn; omega)
        (stops_cons (by decide) rest)
      have htext : commas ([(key, t)].map memberText) ++ '\x7d' :: rest =
          quoted key.toList ++ ':' :: (t ++ '\x7d' :: rest) := by simp [commas, memberText]
      rw [htext, parseMembers]
      simp only [hkey, hread, Option.bind_eq_bind, Option.bind_some]
      rfl
    | cons m' ms =>
      have hlen := length_commas (memberText (key, t)) (memberText m') (ms.map memberText)
      simp only [List.map_cons] at hn ih ⊢
      have hkey := parseKey_eq hplain
        (t ++ ',' :: (commas (memberText m' :: ms.map memberText) ++ '\x7d' :: rest))
      have hread := ht.reads n
        (',' :: (commas (memberText m' :: ms.map memberText) ++ '\x7d' :: rest)) (by omega)
        (stops_cons (by decide) _)
      have hrest := ih (by simp) n (by omega)
      have htext : commas (memberText (key, t) :: memberText m' :: ms.map memberText) ++
          '\x7d' :: rest = quoted key.toList ++ ':' ::
            (t ++ ',' :: (commas (memberText m' :: ms.map memberText) ++ '\x7d' :: rest)) := by
        simp [commas, memberText]
      rw [htext, parseMembers]
      simp only [hkey, hread, Option.bind_eq_bind, Option.bind_some]
      exact congrArg (Option.map fun (vs, t) => ((key, v) :: vs, t)) hrest

theorem Parses.object {ms : List (String × List Char)} {vs : List (String × Value)}
    (h : List.Forall₂ ParsesMember ms vs) : Parses (objectText ms) (.obj vs) where
  begins := ⟨'\x7b', _, rfl, rfl, by decide⟩
  reads := by
    intro n rest hn hrest
    obtain ⟨n, rfl⟩ := Nat.exists_eq_succ_of_ne_zero (Nat.ne_zero_of_lt hn)
    simp only [objectText, List.length_cons, List.length_append, List.length_nil] at hn
    have htext : objectText ms ++ rest =
        '\x7b' :: (commas (ms.map memberText) ++ '\x7d' :: rest) := by simp [objectText]
    rw [htext, parseValue, skip_cons rfl]
    cases h with
    | nil => rfl
    | @cons m v ms vs hm hms =>
      have hread := parseMembers_eq (.cons hm hms) (by simp) n rest (by omega)
      obtain ⟨t, htext'⟩ : ∃ t, commas ((m :: ms).map memberText) ++ '\x7d' :: rest = '"' :: t := by
        cases ms with
        | nil => exact ⟨_, rfl⟩
        | cons _ _ => exact ⟨_, rfl⟩
      rw [htext'] at hread ⊢
      exact congrArg (Option.map fun (ms, t) => (Value.obj ms, t)) hread

end Json
