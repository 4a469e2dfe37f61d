import OrbitalViewer.CsvReader
import OrbitalViewer.Lib.FirstFailure

/-!
# The TOML subset

`include/olv/toml.hpp`. A text is a list of characters, one a byte. Index loops
over a line are functions of what is left of it. `frontend/js/toml.js` has the
scanner word for word, so it is written over the values it makes (`Values`); the
two parsers differ in how they split a text into lines and in those values.
-/

namespace Olv.Toml
open Ieee (F64 Datum binary64)
open FromChars (isNumeral signed)
open Sim (getLines dropReturn)

/-! ## Errors -/

/-- What `fail` is called with. -/
inductive Complaint
  | missingBracket
  | emptyTable
  | invalidTable (name : List Char)
  | afterHeader
  | expectedKey
  | dottedKey
  | expectedEquals (key : List Char)
  | missingKeyValue (key : List Char)
  | unterminatedEscape
  | unsupportedEscape (e : Char)
  | unterminatedString
  | arrays
  | singleQuoted
  | missingValue
  | misplacedSign
  | secondPoint
  | barePoint
  | unsupportedCharacter (token : List Char)
  | noDigit (token : List Char)
  | invalidFloat (token : List Char)
  | invalidInteger (token : List Char)
  | afterValue
  | duplicateKey (full : List Char)
  deriving DecidableEq

def quoted (s : List Char) : String := "\"" ++ String.ofList s ++ "\""

def Complaint.message : Complaint → String
  | missingBracket => "missing ']' in table header"
  | emptyTable => "empty table name"
  | invalidTable name =>
    "invalid table name " ++ (quoted name ++ " (bare names only; no dotted tables)")
  | afterHeader => "unexpected text after table header"
  | expectedKey => "expected a key (bare keys: letters, digits, '_', '-')"
  | dottedKey => "dotted keys are not supported"
  | expectedEquals key => "expected '=' after key " ++ quoted key
  | missingKeyValue key => "missing value for key " ++ quoted key
  | unterminatedEscape => "unterminated escape sequence"
  | unsupportedEscape e => "unsupported escape " ++ quoted ['\\', e]
  | unterminatedString => "unterminated string"
  | arrays => "arrays and inline tables are not supported"
  | singleQuoted => "single-quoted strings are not supported"
  | missingValue => "missing value"
  | misplacedSign => "sign only allowed at the start of a number"
  | secondPoint => "more than one decimal point"
  | barePoint => "decimal point must have digits on both sides"
  | unsupportedCharacter token =>
    "unsupported value " ++
      (quoted token ++ " (subset allows strings, booleans, integers, floats)")
  | noDigit token => "unsupported value " ++ quoted token
  | invalidFloat token => "invalid float " ++ quoted token
  | invalidInteger token => "invalid integer " ++ quoted token
  | afterValue => "unexpected text after value"
  | duplicateKey full => "duplicate key " ++ quoted full

/-! ## The scanner -/

/-- What a parser makes of a string, a boolean, and the token of a number; a
number it cannot represent is none. -/
structure Values (V : Type) where
  string : List Char → V
  boolean : Bool → V
  integer : List Char → Option V
  float : List Char → Option V

def isBareKeyChar (c : Char) : Bool := c.isAlphanum || c = '_' || c = '-'

def isSpace (c : Char) : Bool := c = ' ' || c = '\t'

def skipSpace (s : List Char) : List Char := s.dropWhile isSpace

/-- Only blanks or a comment are left. -/
def onlyTrailing (s : List Char) : Bool :=
  match skipSpace s with
  | [] => true
  | c :: _ => c = '#'

def unescape : Char → Option Char
  | '"' => some '"'
  | '\\' => some '\\'
  | 'n' => some '\n'
  | 't' => some '\t'
  | 'r' => some '\r'
  | _ => none

/-- After the opening quote: the string, and what follows the closing one. -/
def parseQuotedString (out : List Char) : List Char → Except Complaint (List Char × List Char)
  | [] => .error .unterminatedString
  | c :: t =>
    if c = '"' then .ok (out, t)
    else if c = '\\' then
      match t with
      | [] => .error .unterminatedEscape
      | e :: t =>
        match unescape e with
        | some c => parseQuotedString (out ++ [c]) t
        | none => .error (.unsupportedEscape e)
    else parseQuotedString (out ++ [c]) t

/-- The loop over a token, with the character before what is left of it: whether
it has a point, and a digit. -/
def scanNumber (token : List Char) (prev : Option Char) (hasDot hasDigit : Bool) :
    List Char → Except Complaint (Bool × Bool)
  | [] => .ok (hasDot, hasDigit)
  | c :: t =>
    if c = '+' ∨ c = '-' then
      if prev ≠ none then .error .misplacedSign
      else scanNumber token (some c) hasDot hasDigit t
    else if c = '.' then
      if hasDot then .error .secondPoint
      else if !prev.any Char.isDigit || !t.head?.any Char.isDigit then .error .barePoint
      else scanNumber token (some c) true hasDigit t
    else if c.isDigit then scanNumber token (some c) hasDot true t
    else .error (.unsupportedCharacter token)

section Scanner
variable {V : Type} (values : Values V)

def parseScalar (token : List Char) : Except Complaint V :=
  if token = "true".toList ∨ token = "false".toList then
    .ok (values.boolean (token = "true".toList))
  else if token = [] then .error .missingValue
  else
    match scanNumber token none false false token with
    | .error e => .error e
    | .ok (hasDot, hasDigit) =>
      if !hasDigit then .error (.noDigit token)
      else if hasDot then
        match values.float token with
        | some v => .ok v
        | none => .error (.invalidFloat token)
      else
        match values.integer token with
        | some v => .ok v
        | none => .error (.invalidInteger token)

/-- A character of an unquoted value. -/
def isTokenChar (c : Char) : Bool := !isSpace c && c ≠ '#'

/-- The value at the start of a text, and what follows it. -/
def parseValue (key : List Char) : List Char → Except Complaint (V × List Char)
  | [] => .error (.missingKeyValue key)
  | c :: t =>
    if c = '#' then .error (.missingKeyValue key)
    else if c = '"' then
      match parseQuotedString [] t with
      | .error e => .error e
      | .ok (s, rest) => .ok (values.string s, rest)
    else if c = '[' ∨ c = '\x7b' then .error .arrays
    else if c = '\'' then .error .singleQuoted
    else
      match parseScalar values ((c :: t).takeWhile isTokenChar) with
      | .error e => .error e
      | .ok v => .ok (v, (c :: t).dropWhile isTokenChar)

/-- What a line says. -/
inductive Item (V : Type)
  | nothing
  | header (name : List Char)
  | pair (key : List Char) (value : V)

/-- After the `[`. -/
def parseHeader (s : List Char) : Except Complaint (Item V) :=
  let name := s.takeWhile (· ≠ ']')
  match s.dropWhile (· ≠ ']') with
  | [] => .error .missingBracket
  | _ :: rest =>
    if name = [] then .error .emptyTable
    else if !name.all isBareKeyChar then .error (.invalidTable name)
    else if !onlyTrailing rest then .error .afterHeader
    else .ok (.header name)

def parsePair (s : List Char) : Except Complaint (Item V) :=
  let key := s.takeWhile isBareKeyChar
  if key = [] then .error .expectedKey
  else
    match skipSpace (s.dropWhile isBareKeyChar) with
    | [] => .error (.expectedEquals key)
    | c :: t =>
      if c = '=' then
        match parseValue values key (skipSpace t) with
        | .error e => .error e
        | .ok (value, rest) =>
          if onlyTrailing rest then .ok (.pair key value) else .error .afterValue
      else if c = '.' then .error .dottedKey
      else .error (.expectedEquals key)

def parseLine (line : List Char) : Except Complaint (Item V) :=
  match skipSpace line with
  | [] => .ok .nothing
  | c :: t =>
    if c = '#' then .ok .nothing
    else if c = '[' then parseHeader t
    else parsePair values (c :: t)

/-! ## The lines of a text -/

/-- The key of the result. -/
def flat (table key : List Char) : List Char := if table = [] then key else table ++ '.' :: key

/-- What the loop over the lines carries. -/
structure State (V : Type) where
  table : List Char := []
  values : List (List Char × V) := []

def step (st : State V) (line : List Char) : Except Complaint (State V) :=
  match parseLine values line with
  | .error e => .error e
  | .ok .nothing => .ok st
  | .ok (.header name) => .ok { st with table := name }
  | .ok (.pair key value) =>
    let full := flat st.table key
    if st.values.any (·.1 = full) then .error (.duplicateKey full)
    else .ok { st with values := st.values ++ [(full, value)] }

end Scanner

/-! ## `olv::toml::parse` -/

inductive Value
  | string (s : List Char)
  | integer (i : ℤ)
  | float (f : F64)
  | boolean (b : Bool)
  deriving DecidableEq

def Value.typeName : Value → String
  | string _ => "string"
  | integer _ => "integer"
  | float _ => "float"
  | boolean _ => "boolean"

structure ParseResult where
  /-- In the order of the text. -/
  values : List (List Char × Value) := []
  error : String := ""
  errorLine : Nat := 0
  deriving DecidableEq

def ParseResult.ok (r : ParseResult) : Bool := r.error.isEmpty

/-- When `strtod` reports `ERANGE`: on overflow, and never on zero or in the range
of normal numbers. Whether it does between the two is up to the library. -/
structure Strtod where
  erange : ℚ → Bool
  overflow : ∀ mag, (binary64.round (.fin false mag)).isFinite = false → erange mag = true
  normal : ∀ mag, mag = 0 ∨ 1 / 2 ^ 1022 ≤ mag →
    (binary64.round (.fin false mag)).isFinite = true → erange mag = false

/-- A `strtod` that reports every result below the normal numbers. -/
def strict : Strtod where
  erange mag :=
    !(binary64.round (.fin false mag)).isFinite || (mag ≠ 0 && mag < 1 / 2 ^ 1022)
  overflow mag h := by simp [h]
  normal mag h hfinite := by
    have hno : ¬ (mag ≠ 0 ∧ mag < 1 / 2 ^ 1022) := by
      rintro ⟨hne, hlt⟩
      exact absurd hlt (not_lt.mpr (h.resolve_left hne))
    simpa [hfinite] using hno

/-- A token without its sign, and whether that is a minus. -/
def splitSign : List Char → Bool × List Char
  | '+' :: t => (false, t)
  | t => FromChars.minus t

/-- The number that the token of an integer stands for. -/
def integerValue (token : List Char) : ℤ := signed (splitSign token).1 (splitSign token).2

/-- The exact value of the token of a number. -/
def exactValue (token : List Char) : Option (Bool × ℚ) :=
  (FromChars.decimal (splitSign token).2).map fun mag => ((splitSign token).1, mag)

def IsInt64 (i : ℤ) : Prop := -2 ^ 63 ≤ i ∧ i ≤ 2 ^ 63 - 1

instance (i : ℤ) : Decidable (IsInt64 i) := inferInstanceAs (Decidable (_ ∧ _))

/-- The values of the C++ parser: `strtoll`, and `strtod` rounding to nearest. -/
def cppValues (strtod : Strtod) : Values Value where
  string := .string
  boolean := .boolean
  integer token := if IsInt64 (integerValue token) then some (.integer (integerValue token)) else none
  float token :=
    (exactValue token).bind fun (neg, mag) =>
      if strtod.erange mag then none else some (.float (.ofDatum (.fin neg mag)))

/-- A line without its carriage return. -/
def lines (text : List Char) : List (List Char) := (getLines text).map dropReturn

def ParseResult.ofOutcome (run : FirstFailure.Outcome (State Value) Complaint) : ParseResult :=
  match run.failure with
  | none => { values := run.state.values }
  | some (ln, e) => { values := run.state.values, error := e.message, errorLine := ln }

def parse (strtod : Strtod) (text : List Char) : ParseResult :=
  .ofOutcome (FirstFailure.run (step (cppValues strtod)) 0 {} (lines text))

/-- The files that can be opened, by their path. -/
abbrev Files := List Char → Option (List Char)

def parseFile (strtod : Strtod) (files : Files) (path : List Char) : ParseResult :=
  match files path with
  | none => { error := "cannot open config file: " ++ String.ofList path }
  | some text => parse strtod text

/-- The order in which a `std::map` is iterated. -/
def inKeyOrder (values : List (List Char × Value)) : List (List Char × Value) :=
  values.mergeSort fun a b => a.1 ≤ b.1

theorem append_ne_empty {s : String} (h : s ≠ "") (t : String) : s ++ t ≠ "" :=
  fun happ => h (String.append_eq_empty_iff.mp happ).1

/-- Every error has a text, so an empty one means success. -/
theorem Complaint.message_ne_empty (e : Complaint) : e.message ≠ "" := by
  cases e <;> first | exact append_ne_empty (by decide) _ | exact by decide

theorem ok_ofOutcome (run : FirstFailure.Outcome (State Value) Complaint) :
    (ParseResult.ofOutcome run).ok = true ↔ run.failure = none := by
  unfold ParseResult.ofOutcome ParseResult.ok
  cases h : run.failure with
  | none => exact iff_of_true rfl rfl
  | some f => exact iff_of_false (by simpa using f.2.message_ne_empty) (by simp)

end Olv.Toml
