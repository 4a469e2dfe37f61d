import OrbitalViewer.Lib.Settings
import OrbitalViewer.Toml

/-!
# Command lines

What `parseArgs` and `parseSimArgs` share: their first pass over the arguments,
which looks for the configuration file, how they read numbers, and the ranges of
ports, rates and exercise ids. The arguments are those after the name of the program.
-/

namespace Olv
open Ieee (F64 binary64)

/-- An `int`, by its bits. -/
abbrev I32 := BitVec 32

def str (s : List Char) : String := String.ofList s

def configFlag : List Char := "--config".toList

/-- The first pass, with what it says of a second file and of a missing path. -/
def locateConfig (twice missing : String) (found : Option (List Char)) :
    List (List Char) → Except String (Option (List Char))
  | [] => .ok found
  | arg :: rest =>
    if arg = configFlag then
      if found.isSome then .error twice
      else
        match rest with
        | [] => .error missing
        | path :: rest => locateConfig twice missing (some path) rest
    else locateConfig twice missing found rest

/-! ## Ranges -/

def validPort (v : ℤ) : Bool := 1 ≤ v && v ≤ 65535

def validExpiry (v : Int) : Bool := 1 ≤ v && v ≤ 3600

def validHz (v : F64) : Bool :=
  Ieee.Datum.lt (.fin false 0) v.datum && v.datum.le (F64.ofNat 60).datum

def validExerciseId (v : ℤ) : Bool := 0 ≤ v && v ≤ 255

/-- A rate above zero and at most `limit`. -/
def validRate (limit : ℚ) (v : F64) : Bool :=
  Ieee.Datum.lt (.fin false 0) v.datum && v.datum.le (.fin false limit)

/-! ## Numbers -/

/-- `std::from_chars` of a 64-bit integer; a `long` has as many. -/
def parseInt64 (value : List Char) : Option ℤ := FromChars.integer (-2 ^ 63) (2 ^ 63 - 1) value

def parseDouble (value : List Char) : Option F64 :=
  (FromChars.floating binary64 value).map F64.ofDatum

/-- `static_cast<double>` of an integer. -/
def toDouble (i : ℤ) : F64 := .ofDatum (.fin (i < 0) |i|)

/-! ## Entity ids -/

/-- A decimal number up to 65535, after `v`. -/
def decimalU16 (v : ℕ) : List Char → Option ℕ
  | [] => some v
  | c :: t =>
    if !c.isDigit then none
    else if 65535 < v * 10 + (c.toNat - '0'.toNat) then none
    else decimalU16 (v * 10 + (c.toNat - '0'.toNat)) t

def parseDisEntityId (s : List Char) : Option (U16 × U16 × U16) :=
  match (s.splitOn ':').mapM fun tok => if tok = [] then none else decimalU16 0 tok with
  | some [site, application, entity] =>
    some (BitVec.ofNat 16 site, BitVec.ofNat 16 application, BitVec.ofNat 16 entity)
  | _ => none

/-! ## The first pass -/

section Locate
variable (twice missing : String) {found : Option (List Char)} {args rest : List (List Char)}

theorem locateConfig_cons {arg : List Char} (h : arg ≠ configFlag) :
    locateConfig twice missing found (arg :: rest) = locateConfig twice missing found rest := by
  rw [locateConfig.eq_def]
  exact if_neg h

/-- Other arguments are passed over. -/
theorem locateConfig_append (h : configFlag ∉ args) :
    locateConfig twice missing found (args ++ rest) = locateConfig twice missing found rest := by
  induction args with
  | nil => rfl
  | cons arg args ih =>
    obtain ⟨harg, hargs⟩ : configFlag ≠ arg ∧ configFlag ∉ args := by simpa using h
    rw [List.cons_append, locateConfig_cons twice missing harg.symm, ih hargs]

theorem locateConfig_none (h : configFlag ∉ args) :
    locateConfig twice missing found args = .ok found := by
  rw [← List.append_nil args]
  exact locateConfig_append twice missing h

/-- The one file is found wherever its flag stands. -/
theorem locateConfig_inserted (path : List Char) (hargs : configFlag ∉ args)
    (hrest : configFlag ∉ rest) :
    locateConfig twice missing none (args ++ configFlag :: path :: rest) = .ok (some path) := by
  rw [locateConfig_append twice missing hargs, locateConfig.eq_def]
  exact locateConfig_none twice missing hrest

end Locate

/-! ## Groups -/

section Groups
variable {G C R : Type} {tokens : G → List (List Char)} {apply : C → List (List Char) → R}
  {run : C → G → (C → R) → R} {path : List Char} {before after : List G}

/-- Groups without the flag of the file. -/
theorem tokens_apart (h : ∀ g, configFlag ∉ tokens g) (gs : List G) :
    configFlag ∉ gs.flatMap tokens := by
  intro hmem
  obtain ⟨g, _, hg⟩ := List.mem_flatMap.mp hmem
  exact h g hg

/-- A pass that takes a group at a time skips the group of the file wherever it stands. -/
theorem skips_config (hgroup : ∀ c g rest, apply c (tokens g ++ rest) = run c g fun c => apply c rest)
    (hconfig : ∀ c path rest, apply c (configFlag :: path :: rest) = apply c rest) (c : C) :
    apply c (before.flatMap tokens ++ configFlag :: path :: after.flatMap tokens) =
      apply c ((before ++ after).flatMap tokens) := by
  induction before generalizing c with
  | nil => exact hconfig c path _
  | cons g before ih =>
    rw [List.cons_append, List.flatMap_cons, List.flatMap_cons, List.append_assoc, hgroup, hgroup]
    exact congrArg (run c g) (funext ih)

end Groups
end Olv
