import OrbitalViewer.Lib.FromChars
import OrbitalViewer.Protocol

/-!
# Mission files

`tools/simulator/src/csv_reader.cpp`: a text to its rows, or to the line and the
reason of the first error. A text is a list of characters, one a byte; a blank is
a blank of the C locale. Every number of an accepted file is finite
(`parseCsv_finite`).
-/

namespace Olv.Sim
open Ieee (F32 F64 Format Datum)
open Proto (ObjectRecord ObjectType)

structure CsvRow where
  timeS : F64 := ⟨0⟩
  isSat : Bool := false
  record : ObjectRecord := {}
  deriving DecidableEq

structure CsvError where
  line : Nat
  message : String
  deriving DecidableEq

structure ParseResult where
  rows : List CsvRow := []
  error : Option CsvError := none
  deriving DecidableEq

def kNumFields : Nat := 13

def kHeaderLine : String :=
  "time_s,kind,id,type,px_m,py_m,pz_m,vx_mps,vy_mps,vz_mps,confidence,intensity,flags"

/-! ## Cells -/

/-- `std::isspace`. -/
def isSpace (c : Char) : Bool := c.toNat = 0x20 || (0x09 ≤ c.toNat && c.toNat ≤ 0x0D)

def trim (s : List Char) : List Char := (s.dropWhile isSpace).rdropWhile isSpace

def splitFields (line : List Char) : List (List Char) := (line.splitOn ',').map trim

def parseInt (s : List Char) : Option Int := FromChars.integer (-2 ^ 31) (2 ^ 31 - 1) s

def parseUInt32 (s : List Char) : Option U32 :=
  (FromChars.integer 0 (2 ^ 32 - 1) s).map (BitVec.ofInt 32)

/-- `parseFloating<double>`. -/
def parseDouble (s : List Char) : Option F64 :=
  ((FromChars.floating Ieee.binary64 s).map F64.ofDatum).filter fun v => v.datum.isFinite

/-- `parseFloating<float>`. -/
def parseFloat (s : List Char) : Option F32 :=
  ((FromChars.floating Ieee.binary32 s).map F32.ofDatum).filter fun v => v.datum.isFinite

def kNames : List (String × U8) :=
  [("unknown", 0), ("debris", 1), ("star", 2), ("comet", 3), ("satellite", 4), ("ground_hot", 5)]

def typeFromName (s : List Char) : Option U8 :=
  (kNames.find? fun name => name.1.toList = s).map Prod.snd

def parseType (s : List Char) : Option U8 :=
  if s = [] then some ObjectType.kUnknown.value
  else
    match parseInt s with
    | some n => if 0 ≤ n ∧ n ≤ 5 then some (BitVec.ofInt 8 n) else none
    | none => typeFromName s

/-! ## Rows -/

def quoted (s : List Char) : String := "'" ++ String.ofList s ++ "'"

/-- What `parse` makes of a cell, or `complaint` with the cell. -/
def cell {α : Type} (parse : List Char → Option α) (complaint : String) (s : List Char) :
    Except String α :=
  match parse s with
  | some v => .ok v
  | none => .error (complaint ++ quoted s)

def parseKind (s : List Char) : Option Bool :=
  if s = "sat".toList then some true else if s = "obj".toList then some false else none

def typeComplaint (s : List Char) : String :=
  "type: unrecognized value " ++ quoted s ++
    " (expected 0-5, empty, or unknown|debris|star|comet|satellite|ground_hot)"

/-- The type of an object; a satellite's is not looked at. -/
def rowType (isSat : Bool) (s : List Char) : Except String U8 :=
  if isSat then .ok 0
  else
    match parseType s with
    | some t => .ok t
    | none => .error (typeComplaint s)

/-- The velocity, when its three cells are not empty. -/
def rowVelocity (vx vy vz : List Char) : Except String (Option (F32 × F32 × F32)) :=
  if vx = [] ∧ vy = [] ∧ vz = [] then .ok none
  else if vx ≠ [] ∧ vy ≠ [] ∧ vz ≠ [] then do
    let x ← cell parseFloat "vx_mps: not a number: " vx
    let y ← cell parseFloat "vy_mps: not a number: " vy
    let z ← cell parseFloat "vz_mps: not a number: " vz
    .ok (some (x, y, z))
  else .error "partial velocity: vx_mps/vy_mps/vz_mps must be all empty or all present"

def parseConfidence (s : List Char) : Option U8 :=
  if s = [] then some 100
  else ((parseInt s).filter fun n => 0 ≤ n ∧ n ≤ 100).map (BitVec.ofInt 8)

def parseIntensity (s : List Char) : Option F32 := if s = [] then some ⟨0⟩ else parseFloat s

def parseFlags (s : List Char) : Option U8 :=
  if s = [] then some 0
  else
    ((parseInt s).filter fun n : Int => n = 0 ∨ n = Proto.kFlagHighlight.toNat).map (BitVec.ofInt 8)

def flagsComplaint : String :=
  "flags: only 0 or " ++ toString Proto.kFlagHighlight.toNat ++
    " (highlight) may be set in CSV, got "

def parseRow (f : List (List Char)) : Except String CsvRow :=
  match f with
  | [time_s, kind, id, type, px, py, pz, vx, vy, vz, confidence, intensity, flags] => do
    let timeS ← cell parseDouble "time_s: not a number: " time_s
    let isSat ← cell parseKind "kind must be 'sat' or 'obj', got " kind
    let id ← cell parseUInt32 "id: not a valid non-negative integer: " id
    let type ← rowType isSat type
    let px ← cell parseDouble "px_m: not a number: " px
    let py ← cell parseDouble "py_m: not a number: " py
    let pz ← cell parseDouble "pz_m: not a number: " pz
    let velocity ← rowVelocity vx vy vz
    let confidence ← cell parseConfidence "confidence: must be an integer 0-100, got " confidence
    let intensity ← cell parseIntensity "intensity: not a number: " intensity
    let userFlags ← cell parseFlags flagsComplaint flags
    let (vx, vy, vz) := velocity.getD (⟨0⟩, ⟨0⟩, ⟨0⟩)
    .ok {
      timeS, isSat
      record := {
        id, type, px, py, pz, vx, vy, vz, confidence, intensity
        flags := userFlags ||| (if velocity.isSome then Proto.kFlagHasVelocity else 0) } }
  | f => .error ("expected " ++ toString kNumFields ++ " columns, found " ++ toString f.length)

/-! ## Files -/

/-- What `std::getline` yields: a last line that is empty is no line. -/
def getLines (text : List Char) : List (List Char) :=
  let lines := text.splitOn '\n'
  if lines.getLast? = some [] then lines.dropLast else lines

def dropReturn (line : List Char) : List Char :=
  if line.getLast? = some '\r' then line.dropLast else line

def fail (line : Nat) (message : String) : ParseResult := { error := some ⟨line, message⟩ }

def parseLines (lineNo : Nat) (haveHeader : Bool) (rows : List CsvRow) :
    List (List Char) → ParseResult
  | [] =>
    if haveHeader then { rows }
    else fail (if lineNo = 0 then 1 else lineNo) "missing required header row"
  | line :: lines =>
    let lineNo := lineNo + 1
    let line := dropReturn line
    let trimmed := trim line
    if trimmed = [] ∨ trimmed.head? = some '#' then parseLines lineNo haveHeader rows lines
    else if !haveHeader then
      if trimmed ≠ kHeaderLine.toList then
        fail lineNo ("header row must be exactly: " ++ kHeaderLine)
      else parseLines lineNo true rows lines
    else
      match parseRow (splitFields line) with
      | .error message => fail lineNo message
      | .ok row => parseLines lineNo haveHeader (rows ++ [row]) lines

def parseCsv (text : List Char) : ParseResult := parseLines 0 false [] (getLines text)

/-! ## Accepted files -/

/-- Every float of a record is finite. -/
structure FiniteRecord (r : ObjectRecord) : Prop where
  px : r.px.datum.isFinite = true
  py : r.py.datum.isFinite = true
  pz : r.pz.datum.isFinite = true
  vx : r.vx.datum.isFinite = true
  vy : r.vy.datum.isFinite = true
  vz : r.vz.datum.isFinite = true
  intensity : r.intensity.datum.isFinite = true

structure FiniteRow (row : CsvRow) : Prop where
  timeS : row.timeS.datum.isFinite = true
  record : FiniteRecord row.record

theorem bind_ok {α β : Type} {x : Except String α} {f : α → Except String β} {r : β}
    (h : x >>= f = .ok r) : ∃ a, x = .ok a ∧ f a = .ok r :=
  match x, h with
  | .ok a, h => ⟨a, rfl, h⟩

theorem cell_ok {α : Type} {parse : List Char → Option α} {complaint : String} {s : List Char} {v : α}
    (h : cell parse complaint s = .ok v) : parse s = some v := by
  unfold cell at h
  split at h
  · rename_i hv
    rw [hv, Except.ok.inj h]
  · cases h

theorem parseDouble_finite {s : List Char} {v : F64} (h : parseDouble s = some v) :
    v.datum.isFinite = true := (Option.filter_eq_some_iff.mp h).2

theorem parseFloat_finite {s : List Char} {v : F32} (h : parseFloat s = some v) :
    v.datum.isFinite = true := (Option.filter_eq_some_iff.mp h).2

theorem zero_finite : (F32.mk 0).datum.isFinite = true := by decide +kernel

theorem parseIntensity_finite {s : List Char} {v : F32} (h : parseIntensity s = some v) :
    v.datum.isFinite = true := by
  unfold parseIntensity at h
  split at h
  · exact Option.some.inj h ▸ zero_finite
  · exact parseFloat_finite h

theorem rowVelocity_finite {vx vy vz : List Char} {velocity : Option (F32 × F32 × F32)}
    (h : rowVelocity vx vy vz = .ok velocity) : ∀ v ∈ velocity,
    v.1.datum.isFinite = true ∧ v.2.1.datum.isFinite = true ∧ v.2.2.datum.isFinite = true := by
  unfold rowVelocity at h
  split at h
  · cases h
    exact fun _ hv => nomatch hv
  · split at h
    · obtain ⟨x, hx, h⟩ := bind_ok h
      obtain ⟨y, hy, h⟩ := bind_ok h
      obtain ⟨z, hz, h⟩ := bind_ok h
      cases h
      intro v hv
      obtain rfl := Option.some.inj hv
      exact ⟨parseFloat_finite (cell_ok hx), parseFloat_finite (cell_ok hy),
        parseFloat_finite (cell_ok hz)⟩
    · cases h

theorem parseRow_finite {f : List (List Char)} {row : CsvRow} (h : parseRow f = .ok row) :
    FiniteRow row := by
  unfold parseRow at h
  split at h
  · obtain ⟨timeS, htime, h⟩ := bind_ok h
    obtain ⟨isSat, _, h⟩ := bind_ok h
    obtain ⟨id, _, h⟩ := bind_ok h
    obtain ⟨type, _, h⟩ := bind_ok h
    obtain ⟨px, hpx, h⟩ := bind_ok h
    obtain ⟨py, hpy, h⟩ := bind_ok h
    obtain ⟨pz, hpz, h⟩ := bind_ok h
    obtain ⟨velocity, hvelocity, h⟩ := bind_ok h
    obtain ⟨confidence, _, h⟩ := bind_ok h
    obtain ⟨intensity, hintensity, h⟩ := bind_ok h
    obtain ⟨userFlags, _, h⟩ := bind_ok h
    have hfinite := rowVelocity_finite hvelocity
    obtain rfl := Except.ok.inj h
    have hpx := parseDouble_finite (cell_ok hpx)
    have hpy := parseDouble_finite (cell_ok hpy)
    have hpz := parseDouble_finite (cell_ok hpz)
    have hintensity := parseIntensity_finite (cell_ok hintensity)
    refine ⟨parseDouble_finite (cell_ok htime), ?_⟩
    cases velocity with
    | none => exact ⟨hpx, hpy, hpz, zero_finite, zero_finite, zero_finite, hintensity⟩
    | some v =>
      obtain ⟨hvx, hvy, hvz⟩ := hfinite v rfl
      exact ⟨hpx, hpy, hpz, hvx, hvy, hvz, hintensity⟩
  · cases h

/-- Every number of an accepted file is finite. -/
theorem parseLines_finite (lineNo : Nat) (haveHeader : Bool) {rows : List CsvRow}
    (lines : List (List Char)) (hrows : ∀ row ∈ rows, FiniteRow row) :
    ∀ row ∈ (parseLines lineNo haveHeader rows lines).rows, FiniteRow row := by
  fun_induction parseLines lineNo haveHeader rows lines with
  | case1 => exact hrows
  | case2 => rintro _ ⟨⟩
  | case3 lineNo haveHeader rows line lines _ _ _ _ ih => exact ih hrows
  | case4 => rintro _ ⟨⟩
  | case5 lineNo haveHeader rows line lines _ _ _ _ _ _ ih => exact ih hrows
  | case6 => rintro _ ⟨⟩
  | case7 lineNo haveHeader rows line lines _ _ _ _ _ row hrow ih =>
    apply ih
    intro row' hrow'
    rcases List.mem_append.mp hrow' with hold | hnew
    · exact hrows row' hold
    · exact List.mem_singleton.mp hnew ▸ parseRow_finite hrow

theorem parseCsv_finite (text : List Char) : ∀ row ∈ (parseCsv text).rows, FiniteRow row :=
  parseLines_finite 0 false (getLines text) fun _ hrow => nomatch hrow

end Olv.Sim
