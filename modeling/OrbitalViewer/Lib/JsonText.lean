import OrbitalViewer.Lib.Json

/-!
# Text of JSON values

What `JSON.stringify` writes for booleans, integers and any string, and that
`JSON.parse` reads it back (`Parses.boolean`, `Parses.integer`, `Parses.quote`).
-/

namespace Json
open Decimal (sign)

def booleanText (b : Bool) : List Char := if b then "true".toList else "false".toList

def integerText (n : ℤ) : List Char := sign (n < 0) ++ Decimal.digits n.natAbs

def hexChar (d : ℕ) : Char := Char.ofNat (if d < 10 then '0'.toNat + d else 'a'.toNat + (d - 10))

/-- A character of a string. -/
def escape (c : Char) : List Char :=
  if c = '"' then ['\\', '"']
  else if c = '\\' then ['\\', '\\']
  else if c = '\x08' then ['\\', 'b']
  else if c = '\x0c' then ['\\', 'f']
  else if c = '\n' then ['\\', 'n']
  else if c = '\r' then ['\\', 'r']
  else if c = '\t' then ['\\', 't']
  else if c.toNat < 0x20 then ['\\', 'u', '0', '0', hexChar (c.toNat / 16), hexChar (c.toNat % 16)]
  else [c]

def quote (s : List Char) : List Char := '"' :: (s.flatMap escape ++ ['"'])

theorem Parses.boolean (b : Bool) : Parses (booleanText b) (.bool b) := by
  cases b with
  | true => exact parses_scalar (c := 't') (t := "rue".toList) rfl (by decide) fun _ _ => rfl
  | false => exact parses_scalar (c := 'f') (t := "alse".toList) rfl (by decide) fun _ _ => rfl

theorem Parses.integer (n : ℤ) : Parses (integerText n) (.num n) := by
  have h := Parses.number (n < 0) (f := []) (Decimal.digits_ne_nil n.natAbs)
    (fun _ hc => Decimal.isDigit_digits hc) Decimal.digits_head (by simp)
  have hvalue : signed (n < 0) (Decimal.value (Decimal.digits n.natAbs ++ []) / 10 ^ ([] : List Char).length) =
      (n : ℚ) := by
    rw [List.append_nil, Decimal.value_digits, List.length_nil, pow_zero, div_one, signed]
    split
    · rename_i hneg
      have hneg : n < 0 := of_decide_eq_true hneg
      rw [Nat.cast_natAbs, abs_of_neg hneg]
      push_cast
      ring
    · rename_i hneg
      have hneg : 0 ≤ n := not_lt.mp fun h => hneg (decide_eq_true h)
      rw [Nat.cast_natAbs, abs_of_nonneg hneg]
  rw [hvalue, fractionText, if_pos rfl, List.append_nil] at h
  exact h

/-! ## Code units -/

theorem hexDigit_hexChar {d : ℕ} (h : d < 16) : hexDigit (hexChar d) = some d := by
  revert d
  decide

theorem stringUnits_unescaped {c : Char} (hquote : c ≠ '"') (hback : c ≠ '\\')
    (hlow : ¬ c.toNat < 0x20) (t : List Char) :
    stringUnits (c :: t) = (stringUnits t).map fun (us, t) => (units c ++ us, t) := by
  rw [stringUnits, if_neg hlow]
  · cases stringUnits t <;> rfl
  · exact fun h => hquote h
  · exact fun _ _ _ _ _ h _ => hback h
  · exact fun _ _ h _ => hback h

/-- The escapes of one character. -/
theorem stringUnits_short {e d : Char} (he : e ≠ 'u') (hd : escaped e = some d)
    (hsmall : d.toNat < 0x10000) (t : List Char) :
    stringUnits ('\\' :: e :: t) = (stringUnits t).map fun (us, t) => (units d ++ us, t) := by
  have hunits : units d = [d.toNat] := if_pos hsmall
  rw [stringUnits, hd, hunits]
  · cases stringUnits t <;> rfl
  · exact fun _ _ _ _ _ h => absurd h he

/-- An escaped character is its code units. -/
theorem stringUnits_escape (c : Char) (t : List Char) :
    stringUnits (escape c ++ t) = (stringUnits t).map fun (us, t) => (units c ++ us, t) := by
  unfold escape
  split_ifs with hquote hback hb hf hn hr ht hlow
  · subst hquote
    exact stringUnits_short (by decide) rfl (by decide) t
  · subst hback
    exact stringUnits_short (by decide) rfl (by decide) t
  · subst hb
    exact stringUnits_short (by decide) rfl (by decide) t
  · subst hf
    exact stringUnits_short (by decide) rfl (by decide) t
  · subst hn
    exact stringUnits_short (by decide) rfl (by decide) t
  · subst hr
    exact stringUnits_short (by decide) rfl (by decide) t
  · subst ht
    exact stringUnits_short (by decide) rfl (by decide) t
  · have hhigh := hexDigit_hexChar (d := c.toNat / 16) (by omega)
    have hrest := hexDigit_hexChar (d := c.toNat % 16) (by omega)
    have hunits : units c = [c.toNat] := if_pos (by omega)
    have hsum : 0x10 * (c.toNat / 16) + c.toNat % 16 = c.toNat := Nat.div_add_mod ..
    have hzero : hexDigit '0' = some 0 := by decide
    simp only [List.cons_append, List.nil_append, stringUnits, hzero, hhigh, hrest, hunits,
      Option.bind_eq_bind, Option.bind_some, Nat.mul_zero, Nat.zero_add, hsum]
    cases stringUnits t <;> rfl
  · exact stringUnits_unescaped hquote hback hlow t

theorem ofUnits_cons {u : ℕ} (hu : ¬ (0xD800 ≤ u ∧ u < 0xDC00)) (us : List ℕ) :
    ofUnits (u :: us) = ofUnit u :: ofUnits us := by
  cases us with
  | nil => rfl
  | cons l us =>
    rw [ofUnits, if_neg]
    rintro ⟨hlo, hhi, _⟩
    exact hu ⟨hlo, hhi⟩

/-- Code units of characters are those characters again. -/
theorem ofUnits_units (s : List Char) : ofUnits (s.flatMap units) = s := by
  induction s with
  | nil => rfl
  | cons c s ih =>
    have hvalid : c.toNat < 0xD800 ∨ (0xDFFF < c.toNat ∧ c.toNat < 0x110000) := c.valid
    rw [List.flatMap_cons, units]
    split
    · have hunit : ofUnit c.toNat = c := by
        rw [ofUnit, if_neg (by omega), Char.ofNat_toNat]
      rw [List.singleton_append, ofUnits_cons (by omega), hunit, ih]
    · have hpair : 0x10000 + (0xD800 + (c.toNat - 0x10000) / 0x400 - 0xD800) * 0x400 +
          (0xDC00 + (c.toNat - 0x10000) % 0x400 - 0xDC00) = c.toNat := by omega
      rw [List.cons_append, List.singleton_append, ofUnits, if_pos (by omega), hpair,
        Char.ofNat_toNat, ih]

theorem stringUnits_quote (s : List Char) (rest : List Char) :
    stringUnits (s.flatMap escape ++ '"' :: rest) = some (s.flatMap units, rest) := by
  induction s with
  | nil => rfl
  | cons c s ih =>
    rw [List.flatMap_cons, List.append_assoc, stringUnits_escape, ih]
    rfl

theorem Parses.quote (s : List Char) : Parses (quote s) (.str (String.ofList s)) := by
  refine parses_scalar rfl (by decide) fun rest _ => ?_
  have htext : s.flatMap escape ++ ['"'] ++ rest = s.flatMap escape ++ '"' :: rest := by simp
  have hread : parseString (s.flatMap escape ++ '"' :: rest) = some (String.ofList s, rest) := by
    have hunits := ofUnits_units s
    rw [parseString, stringUnits_quote, Option.map_some]
    exact congrArg (fun u => some (String.ofList u, rest)) hunits
  have hstep : parseScalar ('"' :: (s.flatMap escape ++ ['"'] ++ rest)) =
      (parseString (s.flatMap escape ++ ['"'] ++ rest)).map fun p => (Value.str p.1, p.2) := rfl
  rw [List.cons_append, hstep, htext, hread]
  rfl

end Json
