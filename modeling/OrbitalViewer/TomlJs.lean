import OrbitalViewer.Lib.IeeeDivision
import OrbitalViewer.TomlDocument

/-!
# The two TOML parsers

`frontend/js/toml.js`. Its scanner is that of `toml.hpp` word for word; its
numbers are doubles, and it replaces every `\r\n` before it splits the text, so a
line that ends in two carriage returns loses both where the C++ parser drops one.
`parsers_agree_iff` says on which texts that makes a difference.
-/

namespace Olv.Toml
open Ieee (F64 Datum Format binary64)
open FromChars (isNumeral signed)
open FirstFailure (Alike Passes Slips)
open Sim (getLines dropReturn)

/-! ## `parseToml` -/

inductive JsValue
  | string (s : List Char)
  | number (v : F64)
  | boolean (b : Bool)
  deriving DecidableEq

/-- `Number(token)`, rounded to nearest. -/
def number (token : List Char) : F64 :=
  match exactValue token with
  | some (neg, mag) => .ofDatum (.fin neg mag)
  | none => .ofDatum (.nan false)

/-- `Number.isSafeInteger`. -/
def isSafeInteger (v : F64) : Bool :=
  v.datum.isFinite && v.datum.toRat.isInt && |v.datum.toRat| ≤ 2 ^ 53 - 1

def jsValues : Values JsValue where
  string := .string
  boolean := .boolean
  integer token := if isSafeInteger (number token) then some (.number (number token)) else none
  float token := if (number token).datum.isFinite then some (.number (number token)) else none

/-- `text.replace(/\r\n/g, '\n')`. -/
def normalize : List Char → List Char
  | [] => []
  | c :: t => if c = '\r' ∧ t.head? = some '\n' then normalize t else c :: normalize t

/-- The lines, each without a carriage return left at its end. -/
def jsLines (text : List Char) : List (List Char) :=
  let normalized := normalize text
  let ls := normalized.splitOn '\n'
  (if ls.getLast? = some [] ∧ normalized.getLast? = some '\n' then ls.dropLast else ls).map dropReturn

/-- What `fail` throws. -/
structure ParseError where
  ln : Nat
  msg : String

def ParseError.message (e : ParseError) : String := "line " ++ toString e.ln ++ ": " ++ e.msg

def parseToml (text : List Char) : Except ParseError (List (List Char × JsValue)) :=
  let run := FirstFailure.run (step jsValues) 0 {} (jsLines text)
  match run.failure with
  | none => .ok run.state.values
  | some (ln, e) => .error ⟨ln, e.message⟩

/-! ## Agreement -/

/-- The same value, numbers compared as numbers. -/
def SameValue : Value → JsValue → Prop
  | .string s, .string s' => s = s'
  | .boolean b, .boolean b' => b = b'
  | .integer i, .number v => v.datum.isFinite = true ∧ v.datum.toRat = i
  | .float f, .number v => f = v
  | _, _ => False

/-- The same keys with the same values. -/
def SameMap (a : List (List Char × Value)) (b : List (List Char × JsValue)) : Prop :=
  ∀ key, Option.Rel SameValue (a.lookup key) (b.lookup key)

/-- Both succeed with the same map, or both fail at the same line. -/
structure Agree (strtod : Strtod) (text : List Char) : Prop where
  success : ∀ values, parseToml text = .ok values →
    (parse strtod text).ok = true ∧ SameMap (parse strtod text).values values
  failure : ∀ e, parseToml text = .error e →
    (parse strtod text).ok = false ∧ (parse strtod text).errorLine = e.ln

/-- An integer within ±(2^53 - 1), or a float that neither overflows nor underflows. -/
def Representable (token : List Char) : Prop :=
  match scanNumber token none false false token with
  | .ok (false, true) => |integerValue token| ≤ 2 ^ 53 - 1
  | .ok (true, true) => ∀ v ∈ exactValue token,
      (binary64.round (.fin false v.2)).isFinite = true ∧ (v.2 = 0 ∨ 1 / 2 ^ 1022 ≤ v.2)
  | _ => True

/-- The unquoted value of a line, when it has the shape of a pair. -/
def valueToken (line : List Char) : Option (List Char) :=
  match skipSpace ((skipSpace line).dropWhile isBareKeyChar) with
  | [] => none
  | c :: t => if c = '=' then some ((skipSpace t).takeWhile isTokenChar) else none

/-- The number tokens of a line are in the range of both parsers. -/
def InRangeLine (line : List Char) : Prop := ∀ token ∈ valueToken line, Representable token

def InRange (text : List Char) : Prop := ∀ line ∈ jsLines text, InRangeLine line

/-! ## Numbers in range -/

theorem decimal_numeral (n : Numeral) :
    FromChars.decimal n.digits = some (Decimal.value n.digits : ℚ) := by
  have htake : n.digits.takeWhile Char.isDigit = n.digits := List.takeWhile_eq_self_iff.mpr n.isDigit
  have hdrop : n.digits.dropWhile Char.isDigit = [] := by simpa using n.isDigit
  simp [FromChars.decimal, htake, hdrop, n.nonempty, FromChars.exponent]

theorem number_integer (sign : Sign) (n : Numeral) :
    number (sign.text ++ n.digits) = .ofDatum (.fin sign.neg (Decimal.value n.digits)) := by
  rw [number, exactValue, splitSign_integer]
  dsimp only
  rw [decimal_numeral]
  rfl

theorem number_float (sign : Sign) (int frac : Numeral) :
    number (sign.text ++ (int.digits ++ '.' :: frac.digits)) =
      .ofDatum (.fin sign.neg (pointed int frac)) := by
  rw [number, exactValue_text]

theorem signed_abs (neg : Bool) (ds : List Char) : |signed neg ds| = Decimal.value ds := by
  cases neg <;> simp [signed]

theorem toRat_signed (neg : Bool) (ds : List Char) :
    (Datum.fin neg (Decimal.value ds)).toRat = (signed neg ds : ℚ) := by
  cases neg <;> simp [Datum.toRat, signed]

/-- A safe integer is read exactly by both parsers. -/
theorem integer_alike (strtod : Strtod) (sign : Sign) (n : Numeral)
    (h : |signed sign.neg n.digits| ≤ 2 ^ 53 - 1) :
    Option.Rel SameValue ((cppValues strtod).integer (sign.text ++ n.digits))
      (jsValues.integer (sign.text ++ n.digits)) := by
  have hint : IsInt64 (signed sign.neg n.digits) := by
    obtain ⟨hlo, hhi⟩ := abs_le.mp h
    exact ⟨by linarith, by linarith⟩
  have hlt : Decimal.value n.digits < 2 ^ 53 := by
    rw [signed_abs] at h
    omega
  have hdatum : (number (sign.text ++ n.digits)).datum =
      .fin sign.neg (Decimal.value n.digits) := by
    rw [number_integer]
    exact F64.datum_signed hlt sign.neg
  have hrat : (number (sign.text ++ n.digits)).datum.toRat = (signed sign.neg n.digits : ℚ) := by
    rw [hdatum, toRat_signed]
  have hfinite : (number (sign.text ++ n.digits)).datum.isFinite = true := by
    rw [hdatum]
    rfl
  have hsafe : isSafeInteger (number (sign.text ++ n.digits)) = true := by
    have habs : |(signed sign.neg n.digits : ℚ)| ≤ 2 ^ 53 - 1 := by exact_mod_cast h
    simp [isSafeInteger, hfinite, hrat, habs, Rat.isInt]
  rw [cppValues_integer, if_pos hint]
  simp only [jsValues, hsafe, if_true]
  exact .some ⟨hfinite, hrat⟩

theorem float_alike (strtod : Strtod) (sign : Sign) (int frac : Numeral)
    (hfinite : (binary64.round (.fin false (pointed int frac))).isFinite = true)
    (hnormal : pointed int frac = 0 ∨ 1 / 2 ^ 1022 ≤ pointed int frac) :
    Option.Rel SameValue
      ((cppValues strtod).float (sign.text ++ (int.digits ++ '.' :: frac.digits)))
      (jsValues.float (sign.text ++ (int.digits ++ '.' :: frac.digits))) := by
  have hjs : (F64.ofDatum (.fin sign.neg (pointed int frac))).datum.isFinite = true := by
    rw [F64.datum_ofDatum, Format.round_isFinite_sign]
    exact hfinite
  rw [cppValues_float, strtod.normal _ hnormal hfinite]
  simp only [jsValues, number_float, hjs, if_true]
  exact .some rfl

/-! ## The scanners on one line -/

theorem parseScalar_alike (strtod : Strtod) {token : List Char} (h : Representable token) :
    Alike SameValue (parseScalar (cppValues strtod) token) (parseScalar jsValues token) := by
  unfold parseScalar
  split
  · exact rfl
  · split
    · exact trivial
    · split
      · exact trivial
      · rename_i dot digit hscan
        cases digit with
        | false => exact trivial
        | true =>
          rw [Representable, hscan] at h
          rcases scanNumber_sound hscan with ⟨rfl, sign, n, rfl⟩ | ⟨rfl, sign, int, frac, rfl⟩
          · rw [integerValue_text] at h
            have hrel := integer_alike strtod sign n h
            revert hrel
            generalize (cppValues strtod).integer _ = a
            generalize jsValues.integer _ = b
            intro hrel
            cases hrel with
            | some hsame => exact hsame
            | none => exact trivial
          · obtain ⟨hfinite, hnormal⟩ := h _ (exactValue_text sign int frac)
            have hrel := float_alike strtod sign int frac hfinite hnormal
            revert hrel
            generalize (cppValues strtod).float _ = a
            generalize jsValues.float _ = b
            intro hrel
            cases hrel with
            | some hsame => exact hsame
            | none => exact trivial

/-- The same value, and the same text after it. -/
def SameRead (a : Value × List Char) (b : JsValue × List Char) : Prop :=
  SameValue a.1 b.1 ∧ a.2 = b.2

theorem parseValue_alike (strtod : Strtod) (key : List Char) {s : List Char}
    (h : Representable (s.takeWhile isTokenChar)) :
    Alike SameRead (parseValue (cppValues strtod) key s) (parseValue jsValues key s) := by
  cases s with
  | nil => exact trivial
  | cons c t =>
    rw [parseValue, parseValue]
    split
    · exact trivial
    · split
      · cases parseQuotedString [] t with
        | error e => exact trivial
        | ok r => exact ⟨rfl, rfl⟩
      · split
        · exact trivial
        · split
          · exact trivial
          · have hscalar := parseScalar_alike strtod h
            revert hscalar
            generalize parseScalar (cppValues strtod) _ = a
            generalize parseScalar jsValues _ = b
            intro hscalar
            cases a <;> cases b
            · exact trivial
            · exact hscalar.elim
            · exact hscalar.elim
            · exact ⟨hscalar, rfl⟩

def SameItem : Item Value → Item JsValue → Prop
  | .nothing, .nothing => True
  | .header name, .header name' => name = name'
  | .pair key v, .pair key' v' => key = key' ∧ SameValue v v'
  | _, _ => False

theorem parseHeader_alike (s : List Char) :
    Alike SameItem (parseHeader s : Except Complaint (Item Value)) (parseHeader s) := by
  unfold parseHeader
  dsimp only
  split
  · exact trivial
  · split
    · exact trivial
    · split
      · exact trivial
      · split
        · exact trivial
        · exact rfl

theorem parsePair_alike (strtod : Strtod) {s : List Char}
    (h : ∀ t, skipSpace (s.dropWhile isBareKeyChar) = '=' :: t →
      Representable ((skipSpace t).takeWhile isTokenChar)) :
    Alike SameItem (parsePair (cppValues strtod) s) (parsePair jsValues s) := by
  unfold parsePair
  dsimp only
  split
  · exact trivial
  · split
    · exact trivial
    · rename_i c t hskip
      split
      · rename_i hc
        subst hc
        have hvalue := parseValue_alike strtod (s.takeWhile isBareKeyChar) (h t hskip)
        revert hvalue
        generalize parseValue (cppValues strtod) _ _ = a
        generalize parseValue jsValues _ _ = b
        intro hvalue
        cases a with
        | error e =>
          cases b with
          | error d => exact trivial
          | ok q => exact hvalue.elim
        | ok p =>
          cases b with
          | error d => exact hvalue.elim
          | ok q =>
            obtain ⟨hsame, hrest⟩ := hvalue
            dsimp only
            rw [hrest]
            split
            · exact ⟨rfl, hsame⟩
            · exact trivial
      · split <;> exact trivial

theorem parseLine_alike (strtod : Strtod) {l : List Char} (h : InRangeLine l) :
    Alike SameItem (parseLine (cppValues strtod) l) (parseLine jsValues l) := by
  unfold parseLine
  split
  · exact trivial
  · rename_i c t hskip
    split
    · exact trivial
    · split
      · exact parseHeader_alike t
      · apply parsePair_alike strtod
        intro u hu
        apply h
        rw [valueToken, hskip, hu]
        rfl

/-! ## The loops -/

def SameEntries (a : List (List Char × Value)) (b : List (List Char × JsValue)) : Prop :=
  List.Forall₂ (fun x y => x.1 = y.1 ∧ SameValue x.2 y.2) a b

structure SameState (s : State Value) (t : State JsValue) : Prop where
  table : s.table = t.table
  values : SameEntries s.values t.values

theorem SameEntries.any {a : List (List Char × Value)} {b : List (List Char × JsValue)}
    (h : SameEntries a b) (key : List Char) :
    a.any (·.1 = key) = b.any (·.1 = key) := by
  induction h with
  | nil => rfl
  | cons hxy _ ih => simp only [List.any_cons, hxy.1, ih]

theorem SameEntries.lookup {a : List (List Char × Value)} {b : List (List Char × JsValue)}
    (h : SameEntries a b) : SameMap a b := by
  intro key
  induction h with
  | nil => exact .none
  | @cons x y a b hxy _ ih =>
    obtain ⟨k, v⟩ := x
    obtain ⟨k', w⟩ := y
    obtain ⟨rfl, hsame⟩ : k = k' ∧ SameValue v w := hxy
    rw [List.lookup_cons, List.lookup_cons]
    split
    · exact .some hsame
    · exact ih

section Loops
variable {strtod : Strtod}

theorem step_alike {s : State Value} {t : State JsValue} {l l' : List Char} (h : SameState s t)
    (hread : Alike SameItem (parseLine (cppValues strtod) l) (parseLine jsValues l')) :
    Alike SameState (step (cppValues strtod) s l) (step jsValues t l') := by
  unfold step
  revert hread
  generalize parseLine (cppValues strtod) l = a
  generalize parseLine jsValues l' = b
  intro hread
  cases a with
  | error e =>
    cases b with
    | error d => exact trivial
    | ok y => exact hread.elim
  | ok x =>
    cases b with
    | error d => exact hread.elim
    | ok y =>
      cases x with
      | nothing =>
        cases y with
        | nothing => exact h
        | _ => exact hread.elim
      | header name =>
        cases y with
        | header name' => exact ⟨hread, h.values⟩
        | _ => exact hread.elim
      | pair key v =>
        cases y with
        | pair key' w =>
          obtain ⟨rfl, hsame⟩ := hread
          dsimp only
          rw [← h.table, ← h.values.any (flat s.table key)]
          split
          · exact trivial
          · exact ⟨rfl, List.rel_append h.values (.cons ⟨rfl, hsame⟩ .nil)⟩
        | _ => exact hread.elim

theorem empty_sameState : SameState {} {} := ⟨rfl, .nil⟩

/-- On the same lines the two loops accept the same documents. -/
theorem js_passes_iff {ls : List (List Char)} (hone : ∀ l ∈ ls, '\n' ∉ l)
    (hrange : ∀ l ∈ ls, InRangeLine l) :
    (∃ u, Passes (step jsValues) {} ls u) ↔ Valid strtod ls := by
  have halike : ∀ (s : State Value) (t : State JsValue), ∀ l ∈ ls, SameState s t → ¬ False →
      Alike SameState (step (cppValues strtod) s l) (step jsValues t l) :=
    fun _ _ l hl h _ => step_alike h (parseLine_alike strtod (hrange l hl))
  have hno : ¬ FirstFailure.Slips (step jsValues) (fun _ _ => False) {} ls := by
    rintro ⟨_, _, _, _, _, _, hfalse⟩
    exact hfalse
  have hend := FirstFailure.same_end halike 0 empty_sameState hno
  rw [← exists_passes hone, FirstFailure.passes_iff_failure 0, FirstFailure.passes_iff_failure 0,
    ← Option.map_eq_none_iff (f := Prod.fst), ← hend.1, Option.map_eq_none_iff]

/-- The line can be read as one with a comment. -/
def Commented (strtod : Strtod) (line : List Char) : Prop :=
  ∃ L : Line strtod, L.text = line ∧ L.tail.comment ≠ none

/-- Behind a comment a carriage return changes nothing. -/
theorem parseLine_commented {q : List Char} (h : Commented strtod q) :
    parseLine (cppValues strtod) (q ++ ['\r']) = parseLine (cppValues strtod) q := by
  obtain ⟨L, rfl, hL⟩ := h
  obtain ⟨L', htext, hitem⟩ := L.with_return hL
  rw [← htext, parseLine_complete, parseLine_complete, hitem]

/-- Elsewhere it is an error. -/
theorem parseLine_uncommented {q : List Char} (hq : '\n' ∉ q) (h : ¬ Commented strtod q) :
    ∃ e, parseLine (cppValues strtod) (q ++ ['\r']) = .error e := by
  cases hread : parseLine (cppValues strtod) (q ++ ['\r']) with
  | error e => exact ⟨e, rfl⟩
  | ok item =>
    obtain ⟨L, htext, _⟩ := parseLine_sound (by simp [hq]) hread
    obtain ⟨L', rfl, _, hL'⟩ := Line.of_return htext.symm
    exact absurd ⟨L', rfl, hL'⟩ h

/-! ## The two ways to split a text -/

/-- A line as the C++ parser has it and as the other has it. -/
abbrev LinePair := List Char × List Char

/-- The lines of a text whose terminated lines are `ls`. -/
def linePairs (ls : List (List Char)) (rest : List Char) : List LinePair :=
  ls.map (fun p => (dropReturn p, dropReturn (dropReturn p))) ++
    if rest = [] then [] else [(dropReturn rest, dropReturn rest)]

theorem normalize_line {l : List Char} (hl : '\n' ∉ l) (t : List Char) :
    normalize (l ++ '\n' :: t) = dropReturn l ++ '\n' :: normalize t := by
  induction l with
  | nil => rfl
  | cons c l ih =>
    obtain ⟨_, hl⟩ : '\n' ≠ c ∧ '\n' ∉ l := by simpa using hl
    rw [List.cons_append, normalize, ih hl]
    cases l with
    | nil =>
      by_cases hc : c = '\r'
      · subst hc
        rfl
      · simp [hc, dropReturn]
    | cons d l =>
      have hd : d ≠ '\n' := fun h => hl (h ▸ List.mem_cons_self)
      have hkeep : dropReturn (c :: d :: l) = c :: dropReturn (d :: l) := by
        unfold dropReturn
        rw [List.getLast?_cons_cons]
        split <;> rfl
      rw [if_neg (by simp [hd]), hkeep, List.cons_append]

theorem normalize_rest {l : List Char} (hl : '\n' ∉ l) : normalize l = l := by
  induction l with
  | nil => rfl
  | cons c l ih =>
    obtain ⟨_, hl⟩ : '\n' ≠ c ∧ '\n' ∉ l := by simpa using hl
    have hhead : l.head? ≠ some '\n' := fun h => hl (List.mem_of_mem_head? h)
    rw [normalize, if_neg fun h => hhead h.2, ih hl]

theorem normalize_joined {ls : List (List Char)} {rest : List Char}
    (h : Lines.Unbroken '\n' ls rest) :
    normalize (Lines.joined '\n' ls rest) = Lines.joined '\n' (ls.map dropReturn) rest := by
  induction ls with
  | nil => exact normalize_rest h.rest
  | cons l ls ih =>
    obtain ⟨hl, htail⟩ := h.tail
    rw [Lines.joined_cons, normalize_line hl, ih htail, List.map_cons, Lines.joined_cons]

theorem unbroken_dropReturn {ls : List (List Char)} {rest : List Char}
    (h : Lines.Unbroken '\n' ls rest) : Lines.Unbroken '\n' (ls.map dropReturn) rest := by
  refine ⟨fun l hl hmem => ?_, h.rest⟩
  obtain ⟨k, hk, rfl⟩ := List.mem_map.mp hl
  exact h.lines k hk (mem_of_mem_dropReturn hmem)

variable {ls : List (List Char)} {rest : List Char}

theorem lines_joined (h : Lines.Unbroken '\n' ls rest) :
    lines (Lines.joined '\n' ls rest) = (linePairs ls rest).map Prod.fst := by
  rw [lines, getLines_joined h, linePairs, List.map_append, List.map_append]
  split <;> simp

theorem jsLines_joined (h : Lines.Unbroken '\n' ls rest) (hne : ls ≠ [] ∨ rest ≠ []) :
    jsLines (Lines.joined '\n' ls rest) = (linePairs ls rest).map Prod.snd := by
  have h' := unbroken_dropReturn h
  rw [jsLines, normalize_joined h, Lines.splitOn_joined h', List.getLast?_concat]
  simp only [Lines.getLast?_joined h']
  by_cases hrest : rest = []
  · have hls : ls ≠ [] := hne.resolve_right (not_not_intro hrest)
    simp [hrest, hls, linePairs]
  · simp [hrest, linePairs]

/-- The empty text, which is one empty line to `split`, has no line to get. -/
theorem js_run_joined (h : Lines.Unbroken '\n' ls rest) :
    FirstFailure.run (step jsValues) 0 {} (jsLines (Lines.joined '\n' ls rest)) =
      FirstFailure.run (step jsValues) 0 {} ((linePairs ls rest).map Prod.snd) := by
  by_cases hne : ls ≠ [] ∨ rest ≠ []
  · rw [jsLines_joined h hne]
  · obtain ⟨rfl, rfl⟩ : ls = [] ∧ rest = [] := by simpa using hne
    rfl

theorem linePairs_cases {z : LinePair} (hz : z ∈ linePairs ls rest) :
    z.1 = z.2 ∨ z.1 = z.2 ++ ['\r'] := by
  rcases List.mem_append.mp hz with hz | hz
  · obtain ⟨p, _, rfl⟩ := List.mem_map.mp hz
    rcases List.eq_nil_or_concat' (dropReturn p) with hnil | ⟨q, c, hq⟩
    · exact .inl (by rw [hnil]; rfl)
    · by_cases hc : c = '\r'
      · right
        rw [hq, hc, dropReturn_concat]
      · left
        rw [hq]
        exact (dropReturn_of_ne (by simpa using hc)).symm
  · split at hz
    · cases hz
    · exact .inl (by rw [List.mem_singleton.mp hz])

end Loops

/-! ## Where the parsers differ -/

/-- A line of the grammar without a comment that ends in two carriage returns, where
everything before it is right: the C++ parser stops there, and the other does not
see the second one. -/
def Overlooked (strtod : Strtod) (text : List Char) : Prop :=
  ∃ before q later, text.splitOn '\n' = before ++ (q ++ ['\r', '\r']) :: later ∧ later ≠ [] ∧
    Valid strtod (before.map (fun l => dropReturn (dropReturn l)) ++ [q]) ∧ ¬ Commented strtod q

section Difference
variable {strtod : Strtod} {ls : List (List Char)} {rest : List Char}

/-- The JavaScript parser takes a line that has lost a second carriage return. -/
def slip (strtod : Strtod) (t : State JsValue) (z : LinePair) : Prop :=
  z.1 = z.2 ++ ['\r'] ∧ (∃ u, step jsValues t z.2 = .ok u) ∧ ¬ Commented strtod z.2

theorem pair_alike {z : LinePair} (hz : z ∈ linePairs ls rest) (hone : '\n' ∉ z.2)
    (hrange : InRangeLine z.2) {s : State Value} {t : State JsValue} (h : SameState s t)
    (hslip : ¬ slip strtod t z) :
    Alike SameState (step (cppValues strtod) s z.1) (step jsValues t z.2) := by
  have hread := parseLine_alike strtod hrange
  rcases linePairs_cases hz with hsame | hreturn
  · rw [hsame]
    exact step_alike h hread
  · by_cases hcomment : Commented strtod z.2
    · apply step_alike h
      rw [hreturn, parseLine_commented hcomment]
      exact hread
    · obtain ⟨e, he⟩ := parseLine_uncommented hone hcomment
      have hcpp : step (cppValues strtod) s z.1 = .error e := by rw [step, hreturn, he]
      cases hjs : step jsValues t z.2 with
      | ok u => exact absurd ⟨hreturn, ⟨u, hjs⟩, hcomment⟩ hslip
      | error d =>
        rw [hcpp]
        trivial

theorem pair_slips {z : LinePair} (hone : '\n' ∉ z.2) {s : State Value} {t : State JsValue}
    (hslip : slip strtod t z) :
    (∃ e, step (cppValues strtod) s z.1 = .error e) ∧ ∃ u, step jsValues t z.2 = .ok u := by
  obtain ⟨hreturn, hjs, hcomment⟩ := hslip
  obtain ⟨e, he⟩ := parseLine_uncommented hone hcomment
  exact ⟨⟨e, by rw [step, hreturn, he]⟩, hjs⟩

theorem linePairs_one_line (h : Lines.Unbroken '\n' ls rest) {z : LinePair}
    (hz : z ∈ linePairs ls rest) : '\n' ∉ z.2 := by
  intro hmem
  rcases List.mem_append.mp hz with hz | hz
  · obtain ⟨p, hp, rfl⟩ := List.mem_map.mp hz
    exact h.lines p hp (mem_of_mem_dropReturn (mem_of_mem_dropReturn hmem))
  · split at hz
    · cases hz
    · rw [List.mem_singleton.mp hz] at hmem
      exact h.rest (mem_of_mem_dropReturn hmem)

theorem linePairs_inRange (h : Lines.Unbroken '\n' ls rest)
    (hrange : InRange (Lines.joined '\n' ls rest)) {z : LinePair} (hz : z ∈ linePairs ls rest) :
    InRangeLine z.2 := by
  apply hrange
  rw [jsLines_joined h]
  · exact List.mem_map_of_mem hz
  · by_contra hno
    obtain ⟨rfl, rfl⟩ : ls = [] ∧ rest = [] := by simpa using hno
    cases hz

/-- A slip is a line that ended in two carriage returns. -/
theorem linePairs_slip {before later : List LinePair} {z : LinePair}
    (hsplit : linePairs ls rest = before ++ z :: later) (hz : z.1 = z.2 ++ ['\r']) :
    ∃ a b, ls = a ++ (z.2 ++ ['\r', '\r']) :: b ∧
      a.map (fun l => dropReturn (dropReturn l)) = before.map Prod.snd := by
  have hne : z.1 ≠ z.2 := by
    rw [hz]
    simp
  have hmap : ∃ later', ls.map (fun p => (dropReturn p, dropReturn (dropReturn p))) =
      before ++ z :: later' := by
    rw [linePairs] at hsplit
    split at hsplit
    · exact ⟨later, by rwa [List.append_nil] at hsplit⟩
    · rcases List.eq_nil_or_concat' later with rfl | ⟨later', y, rfl⟩
      · obtain ⟨_, hlast⟩ := List.append_inj' hsplit rfl
        obtain rfl := (List.cons.inj hlast).1
        exact absurd rfl hne
      · rw [← List.cons_append, ← List.append_assoc] at hsplit
        exact ⟨later', (List.append_inj' hsplit rfl).1⟩
  obtain ⟨later', hmap⟩ := hmap
  obtain ⟨a, b', rfl, rfl, hb⟩ := List.map_eq_append_iff.mp hmap
  obtain ⟨p, b, rfl, rfl, _⟩ := List.map_eq_cons_iff.mp hb
  refine ⟨a, b, ?_, by simp⟩
  dsimp only at hz hne ⊢
  rcases List.eq_nil_or_concat' p with rfl | ⟨m, c, rfl⟩
  · exact absurd rfl hne
  · by_cases hc : c = '\r'
    · subst hc
      rw [dropReturn_concat] at hz ⊢
      nth_rewrite 1 [hz]
      simp
    · have hkeep : dropReturn (m ++ [c]) = m ++ [c] := dropReturn_of_ne (by simpa using hc)
      rw [hkeep, hkeep] at hne
      exact absurd rfl hne

/-- The text is overlooked where the second run slips. -/
theorem overlooked_iff (h : Lines.Unbroken '\n' ls rest)
    (hrange : InRange (Lines.joined '\n' ls rest)) :
    Overlooked strtod (Lines.joined '\n' ls rest) ↔
      Slips (fun t (z : LinePair) => step jsValues t z.2) (slip strtod) {} (linePairs ls rest) := by
  have valid : ∀ {before later : List LinePair} {z : LinePair},
      linePairs ls rest = before ++ z :: later →
      ((∃ u, Passes (step jsValues) {} (before.map Prod.snd ++ [z.2]) u) ↔
        Valid strtod (before.map Prod.snd ++ [z.2])) := by
    intro before later z hsplit
    have hmem : ∀ l ∈ before.map Prod.snd ++ [z.2], ∃ y ∈ linePairs ls rest, y.2 = l := by
      intro l hl
      rw [← List.map_singleton (f := Prod.snd), ← List.map_append] at hl
      obtain ⟨y, hy, rfl⟩ := List.mem_map.mp hl
      refine ⟨y, ?_, rfl⟩
      rw [hsplit, List.append_cons]
      exact List.mem_append_left _ hy
    apply js_passes_iff
    · intro l hl
      obtain ⟨y, hy, rfl⟩ := hmem l hl
      exact linePairs_one_line h hy
    · intro l hl
      obtain ⟨y, hy, rfl⟩ := hmem l hl
      exact linePairs_inRange h hrange hy
  constructor
  · rintro ⟨before, q, later, hsplit, hlater, hvalid, hcomment⟩
    rw [Lines.splitOn_joined h] at hsplit
    obtain ⟨b, last, rfl⟩ := (List.eq_nil_or_concat' later).resolve_left hlater
    rw [← List.cons_append, ← List.append_assoc] at hsplit
    obtain ⟨rfl, _⟩ := List.append_inj' hsplit rfl
    have hq : dropReturn (q ++ ['\r', '\r']) = q ++ ['\r'] := by
      rw [List.append_cons, dropReturn_concat]
    have hpairs : linePairs (before ++ (q ++ ['\r', '\r']) :: b) rest =
        before.map (fun p => (dropReturn p, dropReturn (dropReturn p))) ++ (q ++ ['\r'], q) ::
          linePairs b rest := by
      simp [linePairs, hq, dropReturn_concat]
    refine ⟨_, _, _, hpairs, ?_⟩
    have hpass := (valid hpairs).mpr (by rw [List.map_map]; exact hvalid)
    obtain ⟨u, hu⟩ := hpass
    obtain ⟨m, hm, hlast⟩ := FirstFailure.passes_concat.mp hu
    exact ⟨m, (FirstFailure.passes_map Prod.snd).mpr hm, rfl, ⟨u, hlast⟩, hcomment⟩
  · rintro ⟨before, z, later, hsplit, m, hm, hreturn, ⟨u, hu⟩, hcomment⟩
    obtain ⟨a, b, rfl, hbefore⟩ := linePairs_slip hsplit hreturn
    refine ⟨a, z.2, b ++ [rest], ?_, by simp, ?_, hcomment⟩
    · rw [Lines.splitOn_joined h, List.append_assoc, List.cons_append]
    · rw [hbefore]
      apply (valid hsplit).mp
      exact ⟨u, FirstFailure.passes_concat.mpr ⟨m, (FirstFailure.passes_map Prod.snd).mp hm, hu⟩⟩

end Difference

theorem parse_errorLine_eq (strtod : Strtod) (text : List Char) {ln : ℕ} {e : Complaint}
    (h : (FirstFailure.run (step (cppValues strtod)) 0 {} (lines text)).failure = some (ln, e)) :
    (parse strtod text).ok = false ∧ (parse strtod text).errorLine = ln := by
  constructor
  · have hnone := mt (ok_ofOutcome _).mp (by rw [h]; exact Option.some_ne_none _)
    exact Bool.eq_false_iff.mpr hnone
  · rw [parse, ParseResult.ofOutcome, h]

section Outcomes
variable {text : List Char}

theorem parseToml_ok (h : (FirstFailure.run (step jsValues) 0 {} (jsLines text)).failure = none) :
    parseToml text = .ok (FirstFailure.run (step jsValues) 0 {} (jsLines text)).state.values := by
  rw [parseToml, h]

theorem parseToml_error {ln : ℕ} {e : Complaint}
    (h : (FirstFailure.run (step jsValues) 0 {} (jsLines text)).failure = some (ln, e)) :
    parseToml text = .error ⟨ln, e.message⟩ := by
  rw [parseToml, h]

theorem run_of_ok {values : List (List Char × JsValue)} (h : parseToml text = .ok values) :
    (FirstFailure.run (step jsValues) 0 {} (jsLines text)).failure = none ∧
      (FirstFailure.run (step jsValues) 0 {} (jsLines text)).state.values = values := by
  cases hrun : (FirstFailure.run (step jsValues) 0 {} (jsLines text)).failure with
  | none => exact ⟨rfl, Except.ok.inj ((parseToml_ok hrun).symm.trans h)⟩
  | some f => exact nomatch (parseToml_error hrun).symm.trans h

theorem run_of_error {e : ParseError} (h : parseToml text = .error e) :
    ∃ d, (FirstFailure.run (step jsValues) 0 {} (jsLines text)).failure = some (e.ln, d) := by
  cases hrun : (FirstFailure.run (step jsValues) 0 {} (jsLines text)).failure with
  | none => exact nomatch (parseToml_ok hrun).symm.trans h
  | some f =>
    obtain ⟨ln, d⟩ := f
    obtain rfl := Except.error.inj ((parseToml_error hrun).symm.trans h)
    exact ⟨d, rfl⟩

/-- Parsers that agree stop at the same line. -/
theorem Agree.same_failure {strtod : Strtod} (h : Agree strtod text) :
    (FirstFailure.run (step (cppValues strtod)) 0 {} (lines text)).failure.map Prod.fst =
      (FirstFailure.run (step jsValues) 0 {} (jsLines text)).failure.map Prod.fst := by
  cases hjs : (FirstFailure.run (step jsValues) 0 {} (jsLines text)).failure with
  | none =>
    have hok := (h.success _ (parseToml_ok hjs)).1
    rw [(ok_ofOutcome _).mp hok]
  | some f =>
    obtain ⟨ln, d⟩ := f
    obtain ⟨hfail, hline⟩ := h.failure _ (parseToml_error hjs)
    cases hcpp : (FirstFailure.run (step (cppValues strtod)) 0 {} (lines text)).failure with
    | none =>
      have hok := (ok_ofOutcome _).mpr hcpp
      exact absurd (hok.symm.trans hfail) (by decide)
    | some g =>
      obtain ⟨ln', e⟩ := g
      have hln := (parse_errorLine_eq strtod _ hcpp).2
      exact congrArg some (hln.symm.trans hline)

/-- Runs that end alike are parsers that agree. -/
theorem agree_of_same_end {strtod : Strtod}
    (hnumber : (FirstFailure.run (step (cppValues strtod)) 0 {} (lines text)).failure.map Prod.fst =
      (FirstFailure.run (step jsValues) 0 {} (jsLines text)).failure.map Prod.fst)
    (hstate : (FirstFailure.run (step (cppValues strtod)) 0 {} (lines text)).failure = none →
      SameState (FirstFailure.run (step (cppValues strtod)) 0 {} (lines text)).state
        (FirstFailure.run (step jsValues) 0 {} (jsLines text)).state) : Agree strtod text := by
  constructor
  · intro values hvalues
    obtain ⟨hjs, rfl⟩ := run_of_ok hvalues
    rw [hjs, Option.map_none, Option.map_eq_none_iff] at hnumber
    refine ⟨(ok_ofOutcome _).mpr hnumber, ?_⟩
    rw [parse, ParseResult.ofOutcome, hnumber]
    exact (hstate hnumber).values.lookup
  · intro e he
    obtain ⟨d, hjs⟩ := run_of_error he
    rw [hjs] at hnumber
    obtain ⟨⟨ln, d'⟩, hcpp, hln⟩ := Option.map_eq_some_iff.mp hnumber
    obtain ⟨hfail, hline⟩ := parse_errorLine_eq strtod _ hcpp
    exact ⟨hfail, hline.trans hln⟩

end Outcomes

/-- **When the two parsers agree.** On texts whose numbers both can represent, they
agree unless a line of two carriage returns is overlooked. -/
theorem parsers_agree_iff (strtod : Strtod) (text : List Char) (hrange : InRange text) :
    Agree strtod text ↔ ¬ Overlooked strtod text := by
  obtain ⟨ls, rest, rfl, h⟩ := Lines.exists_joined '\n' text
  have alike : ∀ s t, ∀ z ∈ linePairs ls rest, SameState s t → ¬ slip strtod t z →
      Alike SameState (step (cppValues strtod) s z.1) (step jsValues t z.2) :=
    fun s t z hz hst => pair_alike hz (linePairs_one_line h hz) (linePairs_inRange h hrange hz) hst
  have slips : ∀ s t, ∀ z ∈ linePairs ls rest, SameState s t → slip strtod t z →
      (∃ e, step (cppValues strtod) s z.1 = .error e) ∧ ∃ u, step jsValues t z.2 = .ok u :=
    fun s t z hz _ => pair_slips (linePairs_one_line h hz)
  have hfirst : FirstFailure.run (fun s (z : LinePair) => step (cppValues strtod) s z.1) 0 {}
      (linePairs ls rest) =
        FirstFailure.run (step (cppValues strtod)) 0 {} (lines (Lines.joined '\n' ls rest)) := by
    rw [lines_joined h]
    exact FirstFailure.run_map Prod.fst 0 _ _
  have hsecond : FirstFailure.run (fun t (z : LinePair) => step jsValues t z.2) 0 {}
      (linePairs ls rest) =
        FirstFailure.run (step jsValues) 0 {} (jsLines (Lines.joined '\n' ls rest)) := by
    rw [js_run_joined h]
    exact FirstFailure.run_map Prod.snd 0 _ _
  rw [overlooked_iff h hrange]
  constructor
  · intro hagree
    apply FirstFailure.no_slip alike slips 0 empty_sameState
    rw [hfirst, hsecond]
    exact hagree.same_failure
  · intro hno
    have hend := FirstFailure.same_end alike 0 empty_sameState hno
    rw [hfirst, hsecond] at hend
    exact agree_of_same_end hend.1 hend.2

def crlfText : List Char := "a = 1\r\n".toList

def doubledReturn : List Char := "a = 1\r\r\n".toList

theorem representable_one : Representable ['1'] := by
  show |integerValue ['1']| ≤ 2 ^ 53 - 1
  decide +kernel

theorem inRange_one {text : List Char} (h : jsLines text = ["a = 1".toList]) : InRange text := by
  intro line hline token htoken
  rw [h] at hline
  obtain rfl := List.mem_singleton.mp hline
  have hvalue : valueToken "a = 1".toList = some ['1'] := by decide +kernel
  rw [hvalue] at htoken
  obtain rfl := Option.some.inj htoken
  exact representable_one

theorem crlfText_agree : Agree strict crlfText := by
  have hlines : jsLines crlfText = ["a = 1".toList] := by decide +kernel
  have hnone : ∀ p ∈ crlfText.splitOn '\n', ¬ ['\r', '\r'] <:+ p := by decide +kernel
  have hno : ¬ Overlooked strict crlfText := by
    rintro ⟨before, q, later, hsplit, _⟩
    rw [hsplit] at hnone
    exact hnone _ (List.mem_append_right _ List.mem_cons_self) (List.suffix_append _ _)
  exact (parsers_agree_iff strict crlfText (inRange_one hlines)).mpr hno

/-- The second carriage return is part of the value for one parser only. -/
theorem doubledReturn_differs : InRange doubledReturn ∧ ¬ Agree strict doubledReturn := by
  refine ⟨inRange_one (by decide +kernel), fun hagree => ?_⟩
  have hcpp : (parse strict doubledReturn).ok = false := by decide +kernel
  have hjs : (parseToml doubledReturn).isOk = true := by decide +kernel
  cases hresult : parseToml doubledReturn with
  | error e =>
    rw [hresult] at hjs
    cases hjs
  | ok values => exact absurd (hcpp.symm.trans (hagree.success values hresult).1) (by decide)

end Olv.Toml
