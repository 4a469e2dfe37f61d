import OrbitalViewer.Lib.IeeeDivision
import OrbitalViewer.Lib.Json

/-!
# Coercions of JSON values

`Boolean(v)` and `Number(v)` of JavaScript, for the values that `JSON.parse`
makes. A number of the text is the nearest double. No function is a JSON value,
so an object with a key `toString` has no string, and `Number` throws for it and
for every array that it is in (`convertible`); elsewhere an array is the number of its
one element, and an object none.
-/

namespace Json
open Decimal (value)
open Ieee (Datum binary64)

/-- The double that a number is read as. -/
def double (q : ℚ) : Datum := binary64.round (.fin (q < 0) |q|)

/-! ## Strings -/

def isStrWhiteSpace (c : Char) : Bool :=
  c.toNat ∈ [0x09, 0x0A, 0x0B, 0x0C, 0x0D, 0x20, 0xA0, 0x1680, 0x2028, 0x2029, 0x202F, 0x205F, 0x3000,
    0xFEFF] ∨ (0x2000 ≤ c.toNat ∧ c.toNat ≤ 0x200A)

def strTrim (s : List Char) : List Char :=
  (s.dropWhile isStrWhiteSpace).rdropWhile isStrWhiteSpace

/-- Digits with a point anywhere or nowhere, and perhaps an exponent. -/
def unsignedDecimal (t : List Char) : Option ℚ :=
  let int := t.takeWhile Char.isDigit
  let (frac, t) :=
    match t.dropWhile Char.isDigit with
    | '.' :: t => (t.takeWhile Char.isDigit, t.dropWhile Char.isDigit)
    | t => ([], t)
  if int = [] ∧ frac = [] then none
  else
    match exponentPart t with
    | some (e, []) => some (value (int ++ frac) / 10 ^ frac.length * 10 ^ e)
    | _ => none

def digitsOf (base : ℕ) (ds : List Char) : Option ℕ :=
  if ds = [] then none
  else ds.foldlM (fun n c => ((hexDigit c).filter (· < base)).map (n * base + ·)) 0

/-- A whole number in base 16, 8 or 2. -/
def nonDecimal : List Char → Option ℕ
  | '0' :: c :: ds =>
    if c = 'x' ∨ c = 'X' then digitsOf 16 ds
    else if c = 'o' ∨ c = 'O' then digitsOf 8 ds
    else if c = 'b' ∨ c = 'B' then digitsOf 2 ds
    else none
  | _ => none

def stringToNumber (s : List Char) : Datum :=
  let t := strTrim s
  if t = [] then .fin false 0
  else
    match nonDecimal t with
    | some n => double n
    | none =>
      let (neg, t) := exponentSign t
      if t = "Infinity".toList then .inf neg
      else
        match unsignedDecimal t with
        | some q => binary64.round (.fin neg q)
        | none => .nan false

example : stringToNumber " +4.5e1\n".toList = .fin false 45 := by decide +kernel
example : stringToNumber "0x1F".toList = .fin false 31 := by decide +kernel
example : stringToNumber "1,2".toList = .nan false := by decide +kernel

/-! ## Values -/

mutual

/-- The value has a string. -/
def convertible : Value → Bool
  | .obj members => !members.any fun m => m.1 = "toString"
  | .arr items => allConvertible items
  | _ => true

def allConvertible : List Value → Bool
  | [] => true
  | v :: vs => convertible v && allConvertible vs

end

/-- The number of the string of a value that stands alone in an array. -/
def elementNumber : Value → Datum
  | .null => .fin false 0
  | .bool _ => .nan false
  | .num q => double q
  | .str s => stringToNumber s.toList
  | .arr [] => .fin false 0
  | .arr [v] => elementNumber v
  | .arr _ => .nan false
  | .obj _ => .nan false

/-- `Number(v)`, `none` where it throws. -/
def number (v : Value) : Option Datum :=
  if convertible v then
    some (match v with
      | .bool b => .fin false (if b then 1 else 0)
      | v => elementNumber v)
  else none

/-- `Boolean(v)`. -/
def truthy : Value → Bool
  | .null => false
  | .bool b => b
  | .num q =>
    match double q with
    | .fin _ mag => mag ≠ 0
    | .inf _ => true
    | .nan _ => false
  | .str s => s ≠ ""
  | .arr _ => true
  | .obj _ => true

theorem number_isSome {v : Value} : (number v).isSome = true ↔ convertible v = true := by
  unfold number
  split <;> simp [*]

theorem number_natCast {n : ℕ} (hn : n < 2 ^ 53) : number (.num n) = some (.fin false n) := by
  have hdouble : double n = .fin false n := by
    have hneg : ¬ (n : ℚ) < 0 := not_lt.mpr (Nat.cast_nonneg n)
    have habs : |(n : ℚ)| = n := abs_of_nonneg (Nat.cast_nonneg n)
    rw [double, habs, decide_eq_false hneg, ← Ieee.F64.datum_ofDatum]
    exact Ieee.F64.datum_ofNat hn
  exact congrArg some hdouble

end Json
