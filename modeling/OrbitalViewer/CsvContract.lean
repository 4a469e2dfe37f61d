import OrbitalViewer.CsvReader
import OrbitalViewer.Lib.FirstFailure
import OrbitalViewer.Lib.Lines

/-!
# The contract of mission files

What `csv_reader.hpp` promises of a file, column by column (`RowOf`) and line by
line (`Lawful`, `FirstOffence`), and that `parseCsv` keeps it (`csv_contract`).
A file is taken whole or not at all, and an error names the first line that
offends.
-/

namespace Olv.Sim
open Ieee (F32 F64 Format Datum)
open Proto (ObjectType)

/-! ## Columns -/

/-- `v` is the double that a number in the text rounds to. -/
def WritesDouble (s : List Char) (v : F64) : Prop :=
  ∃ neg mag, FromChars.floating Ieee.binary64 s = some (.fin neg mag) ∧
    v = F64.ofDatum (.fin neg mag)

def WritesFloat (s : List Char) (v : F32) : Prop :=
  ∃ neg mag, FromChars.floating Ieee.binary32 s = some (.fin neg mag) ∧
    v = F32.ofDatum (.fin neg mag)

/-- The number of a type, its name, or nothing for a type that is not known. -/
def WritesType (s : List Char) (t : U8) : Prop :=
  s = [] ∧ t = ObjectType.kUnknown.value ∨ FromChars.Writes true s t.toNat ∧ t.toNat ≤ 5 ∨
    ∃ name, (name, t) ∈ kNames ∧ name.toList = s

/-- The flags of a row but for the one that says whether it has a velocity. -/
def CsvRow.userFlags (row : CsvRow) : U8 := row.record.flags &&& ~~~Proto.kFlagHasVelocity

/-- The columns of a row, in the order of the header. -/
structure Cells where
  timeS : List Char
  kind : List Char
  id : List Char
  type : List Char
  px : List Char
  py : List Char
  pz : List Char
  vx : List Char
  vy : List Char
  vz : List Char
  confidence : List Char
  intensity : List Char
  flags : List Char

namespace Cells

def columns (c : Cells) : List (List Char) :=
  [c.timeS, c.kind, c.id, c.type, c.px, c.py, c.pz, c.vx, c.vy, c.vz, c.confidence, c.intensity,
    c.flags]

def HasVelocity (c : Cells) : Prop := c.vx ≠ [] ∧ c.vy ≠ [] ∧ c.vz ≠ []

/-- The row that the columns stand for. -/
structure Contract (c : Cells) (row : CsvRow) : Prop where
  timeS : WritesDouble c.timeS row.timeS
  kind : c.kind = (if row.isSat then "sat" else "obj").toList
  id : FromChars.Writes false c.id row.record.id.toNat
  type : if row.isSat then row.record.type = 0 else WritesType c.type row.record.type
  px : WritesDouble c.px row.record.px
  py : WritesDouble c.py row.record.py
  pz : WritesDouble c.pz row.record.pz
  velocity :
    c.HasVelocity ∧ WritesFloat c.vx row.record.vx ∧ WritesFloat c.vy row.record.vy ∧
        WritesFloat c.vz row.record.vz ∨
      (c.vx = [] ∧ c.vy = [] ∧ c.vz = []) ∧
        row.record.vx = ⟨0⟩ ∧ row.record.vy = ⟨0⟩ ∧ row.record.vz = ⟨0⟩
  confidence : c.confidence = [] ∧ row.record.confidence = 100 ∨
    FromChars.Writes true c.confidence row.record.confidence.toNat ∧
      row.record.confidence.toNat ≤ 100
  intensity : c.intensity = [] ∧ row.record.intensity = ⟨0⟩ ∨
    WritesFloat c.intensity row.record.intensity
  /-- Only HIGHLIGHT may be written. -/
  flags : (c.flags = [] ∧ row.userFlags = 0 ∨ FromChars.Writes true c.flags row.userFlags.toNat) ∧
    (row.userFlags = 0 ∨ row.userFlags = Proto.kFlagHighlight)
  hasVelocity : row.record.flags &&& Proto.kFlagHasVelocity = Proto.kFlagHasVelocity ↔ c.HasVelocity

end Cells

/-! ## Lines -/

/-- The white space of C. -/
def Blank (c : Char) : Prop := c ∈ [' ', '\t', '\n', '\x0b', '\x0c', '\r']

/-- `content` is what a text holds between the blanks at its ends. -/
def Strips (text content : List Char) : Prop := Lines.Trimmed Blank text content

/-- A line that is a valid row, and the row: the cells stand between commas, with or
without blanks around them. -/
def RowOf (line : List Char) (row : CsvRow) : Prop :=
  ∃ (cells : List (List Char)) (c : Cells), line = [','].intercalate cells ∧
    (∀ cell ∈ cells, ',' ∉ cell) ∧ List.Forall₂ Strips cells c.columns ∧ c.Contract row

/-- A line that is neither blank nor a comment. -/
def IsContent (line : List Char) : Prop :=
  ∃ content, Strips line content ∧ content ≠ [] ∧ content.head? ≠ some '#'

theorem isSpace_iff (c : Char) : isSpace c = true ↔ Blank c := by
  have hnat : ∀ d : Char, c = d ↔ c.toNat = d.toNat := fun d => Char.toNat_inj.symm
  have hlist : Blank c ↔ c.toNat = 0x20 ∨ c.toNat = 0x09 ∨ c.toNat = 0x0A ∨ c.toNat = 0x0B ∨
      c.toNat = 0x0C ∨ c.toNat = 0x0D := by
    simp only [Blank, List.mem_cons, List.not_mem_nil, or_false, hnat]
    rfl
  rw [hlist, isSpace, Bool.or_eq_true, Bool.and_eq_true]
  simp only [decide_eq_true_eq]
  omega

theorem trim_iff {text content : List Char} : trim text = content ↔ Strips text content :=
  Lines.trimmed_iff isSpace_iff

theorem isContent_iff {line : List Char} :
    IsContent line ↔ trim line ≠ [] ∧ (trim line).head? ≠ some '#' := by
  simp only [IsContent, ← trim_iff, exists_eq_left']

instance (line : List Char) : Decidable (IsContent line) :=
  decidable_of_iff _ isContent_iff.symm

theorem splitFields_iff {line : List Char} {c : Cells} : splitFields line = c.columns ↔
    ∃ cells, line = [','].intercalate cells ∧ (∀ cell ∈ cells, ',' ∉ cell) ∧
      List.Forall₂ Strips cells c.columns := by
  have hcells : ∀ cells : List (List Char),
      cells.map trim = c.columns ↔ List.Forall₂ Strips cells c.columns := by
    intro cells
    rw [← List.forall₂_eq_eq_eq, List.forall₂_map_left_iff]
    simp only [trim_iff]
  constructor
  · intro h
    have hsplit := (Lines.splitOn_eq_iff (List.splitOn_ne_nil ',' line)).mp rfl
    exact ⟨line.splitOn ',', hsplit.1, hsplit.2, (hcells _).mp h⟩
  · rintro ⟨cells, hline, hfree, hall⟩
    have hne : cells ≠ [] := by
      rintro rfl
      cases hall
    rw [splitFields, (Lines.splitOn_eq_iff hne).mpr ⟨hline, hfree⟩]
    exact (hcells cells).mpr hall

def contents (ls : List (List Char)) : List (List Char) := ls.filter (IsContent ·)

/-- The header comes first, and only valid rows after it. -/
def Lawful (ls : List (List Char)) : Prop :=
  ∃ header rest, contents ls = header :: rest ∧ Strips header kHeaderLine.toList ∧
    ∀ line ∈ rest, ∃ row, RowOf line row

/-- Line `k` is the first with content and not the header, or a later one and no valid row. -/
def OffendsAt (ls : List (List Char)) (k : ℕ) : Prop :=
  ∃ before line after, ls = before ++ line :: after ∧ k = before.length + 1 ∧ IsContent line ∧
    if contents before = [] then ¬ Strips line kHeaderLine.toList else ¬ ∃ row, RowOf line row

/-- A file without any content lacks its header where it ends. -/
def FirstOffence (ls : List (List Char)) (k : ℕ) : Prop :=
  contents ls = [] ∧ k = max 1 ls.length ∨ OffendsAt ls k ∧ ∀ j, OffendsAt ls j → k ≤ j

/-! ## Cells are read as they are written -/

theorem filter_floating {α : Type} {f : Format} {ofDatum : Datum → α} {datum : α → Datum}
    (hround : ∀ d, datum (ofDatum d) = f.round d) {s : List Char} {v : α} :
    ((FromChars.floating f s).map ofDatum).filter (fun v => (datum v).isFinite) = some v ↔
      ∃ neg mag, FromChars.floating f s = some (.fin neg mag) ∧ v = ofDatum (.fin neg mag) := by
  rw [Option.filter_eq_some_iff]
  constructor
  · rintro ⟨hread, hfinite⟩
    obtain ⟨d, hd, rfl⟩ := Option.map_eq_some_iff.mp hread
    rw [hround] at hfinite
    cases d with
    | fin neg mag => exact ⟨neg, mag, hd, rfl⟩
    | inf neg => cases hfinite
    | nan neg => cases hfinite
  · rintro ⟨neg, mag, hd, rfl⟩
    refine ⟨by rw [hd]; rfl, ?_⟩
    rw [hround]
    exact FromChars.floating_finite hd

variable {s : List Char}

theorem parseDouble_iff {v : F64} : parseDouble s = some v ↔ WritesDouble s v :=
  filter_floating F64.datum_ofDatum

theorem parseFloat_iff {v : F32} : parseFloat s = some v ↔ WritesFloat s v :=
  filter_floating F32.datum_ofDatum

theorem ofInt_eq_iff {w : ℕ} {n : ℤ} {v : BitVec w} (hlo : 0 ≤ n) (hhi : n < 2 ^ w) :
    BitVec.ofInt w n = v ↔ n = v.toNat := by
  lift n to ℕ using hlo
  have hn : n < 2 ^ w := by exact_mod_cast hhi
  rw [BitVec.ofInt_natCast, ← BitVec.toNat_inj, BitVec.toNat_ofNat, Nat.mod_eq_of_lt hn,
    Nat.cast_inj]

theorem parseUInt32_iff {v : U32} : parseUInt32 s = some v ↔ FromChars.Writes false s v.toNat := by
  have hv := v.isLt
  unfold parseUInt32
  rw [Option.map_eq_some_iff]
  simp only [FromChars.integer_eq_some]
  constructor
  · rintro ⟨n, ⟨hn, hlo, hhi⟩, heq⟩
    exact (ofInt_eq_iff hlo (by omega)).mp heq ▸ hn
  · intro h
    exact ⟨v.toNat, ⟨h, by omega, by omega⟩, (ofInt_eq_iff (by omega) (by omega)).mpr rfl⟩

theorem parseInt_iff {n : ℤ} (hlo : -2 ^ 31 ≤ n) (hhi : n ≤ 2 ^ 31 - 1) :
    parseInt s = some n ↔ FromChars.Writes true s n :=
  FromChars.integer_eq_some.trans (and_iff_left ⟨hlo, hhi⟩)

/-- A small number with a check. -/
theorem filter_parseInt {valid : ℤ → Bool} (hvalid : ∀ n, valid n = true → 0 ≤ n ∧ n < 2 ^ 8)
    {v : U8} : ((parseInt s).filter valid).map (BitVec.ofInt 8) = some v ↔
      FromChars.Writes true s v.toNat ∧ valid v.toNat = true := by
  have hv := v.isLt
  rw [Option.map_eq_some_iff]
  simp only [Option.filter_eq_some_iff]
  constructor
  · rintro ⟨n, ⟨hn, hvalidn⟩, heq⟩
    obtain ⟨hlo, hhi⟩ := hvalid n hvalidn
    obtain rfl := (ofInt_eq_iff hlo hhi).mp heq
    exact ⟨(parseInt_iff (by omega) (by omega)).mp hn, hvalidn⟩
  · rintro ⟨hwrites, hvalidv⟩
    exact ⟨v.toNat, ⟨(parseInt_iff (by omega) (by omega)).mpr hwrites, hvalidv⟩,
      (ofInt_eq_iff (by omega) (by omega)).mpr rfl⟩

theorem not_writes_nil {sign : Bool} {n : ℤ} : ¬ FromChars.Writes sign [] n := by
  rintro (⟨h, _⟩ | ⟨_, ds, h, _⟩) <;> cases h

theorem typeFromName_iff {t : U8} :
    typeFromName s = some t ↔ ∃ name, (name, t) ∈ kNames ∧ name.toList = s := by
  have hread : ∀ e ∈ kNames, typeFromName e.1.toList = some e.2 := by decide
  constructor
  · intro h
    obtain ⟨⟨name, t⟩, hfind, rfl⟩ := Option.map_eq_some_iff.mp h
    exact ⟨name, List.mem_of_find?_eq_some hfind, by simpa using List.find?_some hfind⟩
  · rintro ⟨name, hname, rfl⟩
    exact hread (name, t) hname

theorem parseType_iff {t : U8} : parseType s = some t ↔ WritesType s t := by
  have hnames : ∀ e ∈ kNames, parseInt e.1.toList = none := by decide
  have hv := t.isLt
  unfold parseType WritesType
  by_cases hs : s = []
  · subst hs
    have hne : ∀ e ∈ kNames, e.1.toList ≠ [] := by decide
    rw [if_pos rfl, Option.some_inj]
    constructor
    · rintro rfl
      exact .inl ⟨rfl, rfl⟩
    · rintro (⟨_, rfl⟩ | ⟨hwrites, _⟩ | ⟨name, hname, hnil⟩)
      · rfl
      · exact absurd hwrites not_writes_nil
      · exact absurd hnil (hne _ hname)
  · rw [if_neg hs]
    simp only [hs, false_and, false_or]
    cases hint : parseInt s with
    | none =>
      have hno : ¬ (FromChars.Writes true s t.toNat ∧ t.toNat ≤ 5) := by
        rintro ⟨hwrites, _⟩
        rw [(parseInt_iff (by omega) (by omega)).mpr hwrites] at hint
        cases hint
      rw [or_iff_right hno]
      exact typeFromName_iff
    | some n =>
      have hname : ¬ ∃ name, (name, t) ∈ kNames ∧ name.toList = s := by
        rintro ⟨name, hname, rfl⟩
        rw [hnames _ hname] at hint
        cases hint
      rw [or_iff_left hname]
      dsimp only
      rw [Option.ite_none_right_eq_some, Option.some_inj]
      constructor
      · rintro ⟨⟨hlo, hhi⟩, heq⟩
        obtain rfl := (ofInt_eq_iff hlo (by omega)).mp heq
        exact ⟨(parseInt_iff (by omega) (by omega)).mp hint, by omega⟩
      · rintro ⟨hwrites, hle⟩
        have hsame := hint.symm.trans ((parseInt_iff (by omega) (by omega)).mpr hwrites)
        obtain rfl := Option.some.inj hsame
        exact ⟨⟨by omega, by omega⟩, (ofInt_eq_iff (by omega) (by omega)).mpr rfl⟩

theorem parseConfidence_iff {v : U8} : parseConfidence s = some v ↔
    s = [] ∧ v = 100 ∨ FromChars.Writes true s v.toNat ∧ v.toNat ≤ 100 := by
  unfold parseConfidence
  by_cases hs : s = []
  · subst hs
    simp only [if_pos, not_writes_nil, false_and, or_false, true_and, Option.some_inj, eq_comm]
  · rw [if_neg hs, filter_parseInt fun n hn => by simp only [decide_eq_true_eq] at hn; omega]
    simp [hs]

theorem parseIntensity_iff {v : F32} :
    parseIntensity s = some v ↔ s = [] ∧ v = ⟨0⟩ ∨ WritesFloat s v := by
  unfold parseIntensity
  by_cases hs : s = []
  · subst hs
    have hno : ¬ WritesFloat [] v := by
      rintro ⟨neg, mag, h, _⟩
      cases h
    simp only [if_pos, hno, or_false, true_and, Option.some_inj, eq_comm]
  · rw [if_neg hs, parseFloat_iff]
    simp [hs]

theorem parseFlags_iff {v : U8} : parseFlags s = some v ↔
    (s = [] ∧ v = 0 ∨ FromChars.Writes true s v.toNat) ∧ (v = 0 ∨ v = Proto.kFlagHighlight) := by
  unfold parseFlags
  by_cases hs : s = []
  · subst hs
    simp only [if_pos, not_writes_nil, or_false, true_and, Option.some_inj, eq_comm]
    constructor
    · rintro rfl
      exact ⟨rfl, .inl rfl⟩
    · exact And.left
  · have hcheck : ∀ n : ℤ, decide (n = 0 ∨ n = Proto.kFlagHighlight.toNat) = true → 0 ≤ n ∧ n < 2 ^ 8 := by
      intro n hn
      rcases of_decide_eq_true hn with rfl | rfl <;> decide
    rw [if_neg hs, filter_parseInt hcheck]
    simp only [hs, false_and, false_or, decide_eq_true_eq, Nat.cast_inj, BitVec.toNat_inj]
    refine and_congr_right' (or_congr_left ?_)
    rw [Nat.cast_eq_zero, ← BitVec.toNat_inj]
    rfl

/-! ## Rows -/

theorem bind_ok_iff {α β : Type} {x : Except String α} {f : α → Except String β} {r : β} :
    x >>= f = .ok r ↔ ∃ a, x = .ok a ∧ f a = .ok r :=
  ⟨bind_ok, fun ⟨_, hx, hf⟩ => hx ▸ hf⟩

theorem cell_ok_iff {α : Type} {parse : List Char → Option α} {complaint : String} {v : α} :
    cell parse complaint s = .ok v ↔ parse s = some v := by
  refine ⟨cell_ok, fun h => ?_⟩
  rw [cell, h]

theorem parseKind_iff {isSat : Bool} :
    parseKind s = some isSat ↔ s = (if isSat then "sat" else "obj").toList := by
  unfold parseKind
  by_cases hsat : s = "sat".toList
  · subst hsat
    cases isSat <;> decide
  · rw [if_neg hsat, Option.ite_none_right_eq_some]
    cases isSat with
    | false => exact and_iff_left rfl
    | true => exact iff_of_false (fun h => nomatch h.2) hsat

theorem rowType_iff {isSat : Bool} {t : U8} :
    rowType isSat s = .ok t ↔ if isSat then t = 0 else WritesType s t := by
  unfold rowType
  cases isSat with
  | true => exact ⟨fun h => (Except.ok.inj h).symm, fun h => congrArg Except.ok (Eq.symm h)⟩
  | false =>
    rw [if_neg Bool.false_ne_true, if_neg Bool.false_ne_true, ← parseType_iff]
    cases parseType s with
    | none => exact iff_of_false (fun h => nomatch h) fun h => nomatch h
    | some u => exact ⟨fun h => congrArg some (Except.ok.inj h),
        fun h => congrArg Except.ok (Option.some.inj h)⟩

theorem not_writesFloat_nil {v : F32} : ¬ WritesFloat [] v := by
  rintro ⟨neg, mag, h, _⟩
  cases h

/-- The velocity cells are read together. -/
theorem rowVelocity_iff {vx vy vz : List Char} {velocity : Option (F32 × F32 × F32)} :
    rowVelocity vx vy vz = .ok velocity ↔
      (vx = [] ∧ vy = [] ∧ vz = []) ∧ velocity = none ∨
        ∃ x y z, velocity = some (x, y, z) ∧ WritesFloat vx x ∧ WritesFloat vy y ∧
          WritesFloat vz z := by
  unfold rowVelocity
  by_cases hnone : vx = [] ∧ vy = [] ∧ vz = []
  · rw [if_pos hnone]
    constructor
    · rintro ⟨⟩
      exact .inl ⟨hnone, rfl⟩
    · rintro (⟨_, rfl⟩ | ⟨x, y, z, _, hx, _⟩)
      · rfl
      · exact absurd (hnone.1 ▸ hx) not_writesFloat_nil
  · rw [if_neg hnone]
    by_cases hall : vx ≠ [] ∧ vy ≠ [] ∧ vz ≠ []
    · rw [if_pos hall]
      simp only [bind_ok_iff, cell_ok_iff, parseFloat_iff]
      constructor
      · rintro ⟨x, hx, y, hy, z, hz, ⟨⟩⟩
        exact .inr ⟨x, y, z, rfl, hx, hy, hz⟩
      · rintro (⟨hno, _⟩ | ⟨x, y, z, rfl, hx, hy, hz⟩)
        · exact absurd hno hnone
        · exact ⟨x, hx, y, hy, z, hz, rfl⟩
    · rw [if_neg hall]
      refine iff_of_false (fun h => nomatch h) ?_
      rintro (⟨hno, _⟩ | ⟨x, y, z, _, hx, hy, hz⟩)
      · exact hnone hno
      · refine hall ⟨?_, ?_, ?_⟩ <;> rintro rfl <;> exact absurd ‹_› not_writesFloat_nil

/-- The flag that says that there is a velocity is apart from those a file may set. -/
theorem flags_split (flags : U8) {user : U8} (huser : user = 0 ∨ user = Proto.kFlagHighlight)
    (velocity : Bool) :
    flags = user ||| (if velocity then Proto.kFlagHasVelocity else 0) ↔
      flags &&& ~~~Proto.kFlagHasVelocity = user ∧
        (flags &&& Proto.kFlagHasVelocity = Proto.kFlagHasVelocity ↔ velocity = true) := by
  have hall : ∀ user flags : U8, (user = 0 ∨ user = Proto.kFlagHighlight) → ∀ velocity : Bool,
      (flags = user ||| (if velocity then Proto.kFlagHasVelocity else 0) ↔
        flags &&& ~~~Proto.kFlagHasVelocity = user ∧
          (flags &&& Proto.kFlagHasVelocity = Proto.kFlagHasVelocity ↔ velocity = true)) := by
    rintro user flags (rfl | rfl) <;> revert flags <;> decide +kernel
  exact hall user flags huser velocity

theorem columns_of_row {f : List (List Char)} {row : CsvRow} (h : parseRow f = .ok row) :
    ∃ c : Cells, f = c.columns := by
  unfold parseRow at h
  split at h
  · rename_i timeS kind id type px py pz vx vy vz confidence intensity flags
    exact ⟨⟨timeS, kind, id, type, px, py, pz, vx, vy, vz, confidence, intensity, flags⟩, rfl⟩
  · cases h

/-- **A row is read when it keeps the contract**, and as the contract says. -/
theorem parseRow_iff (c : Cells) (row : CsvRow) :
    parseRow c.columns = .ok row ↔ c.Contract row := by
  unfold parseRow Cells.columns
  simp only [bind_ok_iff, cell_ok_iff, parseDouble_iff, parseKind_iff, parseUInt32_iff, rowType_iff,
    rowVelocity_iff, parseConfidence_iff, parseIntensity_iff, parseFlags_iff]
  constructor
  · rintro ⟨timeS, htime, isSat, hkind, id, hid, type, htype, px, hpx, py, hpy, pz, hpz, velocity,
      hvelocity, confidence, hconfidence, intensity, hintensity, user, ⟨hflags, huser⟩, ⟨⟩⟩
    obtain ⟨hkept, hset⟩ := (flags_split _ huser velocity.isSome).mp rfl
    rcases hvelocity with ⟨hnone, rfl⟩ | ⟨x, y, z, rfl, hx, hy, hz⟩
    · have hno : ¬ c.HasVelocity := fun h => h.1 hnone.1
      exact {
        timeS := htime, kind := hkind, id := hid, type := htype, px := hpx, py := hpy, pz := hpz
        velocity := .inr ⟨hnone, rfl, rfl, rfl⟩
        confidence := hconfidence, intensity := hintensity
        flags := ⟨by rwa [CsvRow.userFlags, hkept], by rwa [CsvRow.userFlags, hkept]⟩
        hasVelocity := hset.trans (iff_of_false Bool.false_ne_true hno) }
    · have hall : c.HasVelocity := by
        refine ⟨?_, ?_, ?_⟩ <;> intro hnil
        · exact not_writesFloat_nil (hnil ▸ hx)
        · exact not_writesFloat_nil (hnil ▸ hy)
        · exact not_writesFloat_nil (hnil ▸ hz)
      exact {
        timeS := htime, kind := hkind, id := hid, type := htype, px := hpx, py := hpy, pz := hpz
        velocity := .inl ⟨hall, hx, hy, hz⟩
        confidence := hconfidence, intensity := hintensity
        flags := ⟨by rwa [CsvRow.userFlags, hkept], by rwa [CsvRow.userFlags, hkept]⟩
        hasVelocity := hset.trans (iff_of_true rfl hall) }
  · obtain ⟨timeS, isSat, ⟨id, type, flags, confidence, px, py, pz, vx, vy, vz, intensity⟩⟩ := row
    intro h
    have hread := flags_split flags h.flags.2
    rcases h.velocity with ⟨hall, hx, hy, hz⟩ | ⟨hnone, rfl, rfl, rfl⟩
    · have hflags := (hread true).mpr ⟨rfl, h.hasVelocity.trans (iff_of_true hall rfl)⟩
      refine ⟨timeS, h.timeS, isSat, h.kind, id, h.id, type, h.type, px, h.px, py, h.py, pz, h.pz,
        some (vx, vy, vz), .inr ⟨vx, vy, vz, rfl, hx, hy, hz⟩, confidence, h.confidence,
        intensity, h.intensity, _, h.flags, ?_⟩
      rw [Option.isSome_some, ← hflags]
      rfl
    · have hno : ¬ c.HasVelocity := fun hall => hall.1 hnone.1
      have hflags := (hread false).mpr
        ⟨rfl, h.hasVelocity.trans (iff_of_false hno Bool.false_ne_true)⟩
      refine ⟨timeS, h.timeS, isSat, h.kind, id, h.id, type, h.type, px, h.px, py, h.py, pz, h.pz,
        none, .inl ⟨hnone, rfl⟩, confidence, h.confidence, intensity, h.intensity, _, h.flags, ?_⟩
      rw [Option.isSome_none, ← hflags]
      rfl

theorem parseRow_rowOf {line : List Char} {row : CsvRow} :
    parseRow (splitFields line) = .ok row ↔ RowOf line row := by
  constructor
  · intro h
    obtain ⟨c, hc⟩ := columns_of_row h
    obtain ⟨cells, hline, hfree, hall⟩ := splitFields_iff.mp hc
    exact ⟨cells, c, hline, hfree, hall, (parseRow_iff c row).mp (hc ▸ h)⟩
  · rintro ⟨cells, c, hline, hfree, hall, h⟩
    rw [splitFields_iff.mpr ⟨cells, hline, hfree, hall⟩]
    exact (parseRow_iff c row).mpr h

/-- A line stands for one row. -/
theorem RowOf.unique {line : List Char} {row row' : CsvRow} (h : RowOf line row)
    (h' : RowOf line row') : row = row' :=
  Except.ok.inj ((parseRow_rowOf.mpr h).symm.trans (parseRow_rowOf.mpr h'))

/-! ## Lines are taken as they are, with or without their carriage return -/

theorem trim_return (k : List Char) : trim (k ++ ['\r']) = trim k := by
  have hspace : isSpace '\r' = true := by decide
  unfold trim
  rw [List.dropWhile_append]
  split
  · rename_i hblank
    rw [List.isEmpty_iff] at hblank
    rw [hblank, List.dropWhile_cons_of_pos hspace]
    rfl
  · rw [List.rdropWhile_concat_pos _ _ _ hspace]

theorem splitFields_return (k : List Char) : splitFields (k ++ ['\r']) = splitFields k := by
  obtain ⟨fields, rest, rfl, h⟩ := Lines.exists_joined ',' k
  have h' : Lines.Unbroken ',' fields (rest ++ ['\r']) :=
    ⟨h.lines, by simpa using h.rest⟩
  have happend : Lines.joined ',' fields rest ++ ['\r'] = Lines.joined ',' fields (rest ++ ['\r']) := by
    rw [Lines.joined, Lines.joined, List.append_assoc]
  rw [splitFields, splitFields, happend, Lines.splitOn_joined h, Lines.splitOn_joined h',
    List.map_append, List.map_append, List.map_singleton, List.map_singleton, trim_return]

theorem dropReturn_cases (line : List Char) :
    dropReturn line = line ∨ ∃ k, line = k ++ ['\r'] ∧ dropReturn line = k := by
  unfold dropReturn
  split
  · rename_i hlast
    rcases List.eq_nil_or_concat' line with rfl | ⟨k, c, rfl⟩
    · cases hlast
    · rw [List.getLast?_concat] at hlast
      obtain rfl := Option.some.inj hlast
      exact .inr ⟨k, rfl, List.dropLast_concat⟩
  · exact .inl rfl

theorem trim_dropReturn (line : List Char) : trim (dropReturn line) = trim line := by
  rcases dropReturn_cases line with h | ⟨k, rfl, h⟩
  · rw [h]
  · rw [h, trim_return]

theorem splitFields_dropReturn (line : List Char) :
    splitFields (dropReturn line) = splitFields line := by
  rcases dropReturn_cases line with h | ⟨k, rfl, h⟩
  · rw [h]
  · rw [h, splitFields_return]

/-! ## Files -/

/-- One line: whether there was a header, and the rows so far. -/
def readLine (st : Bool × List CsvRow) (line : List Char) : Except String (Bool × List CsvRow) :=
  if ¬ IsContent line then .ok st
  else if !st.1 then
    if trim line ≠ kHeaderLine.toList then .error ("header row must be exactly: " ++ kHeaderLine)
    else .ok (true, st.2)
  else
    match parseRow (splitFields line) with
    | .error message => .error message
    | .ok row => .ok (st.1, st.2 ++ [row])

/-- What a file amounts to, once its lines are read. -/
def finishFile (lines : ℕ) (run : FirstFailure.Outcome (Bool × List CsvRow) String) : ParseResult :=
  match run.failure with
  | some (k, message) => fail k message
  | none =>
    if run.state.1 then { rows := run.state.2 }
    else fail (if lines = 0 then 1 else lines) "missing required header row"

theorem parseLines_eq (n : ℕ) (haveHeader : Bool) (rows : List CsvRow) (ls : List (List Char)) :
    parseLines n haveHeader rows ls =
      finishFile (n + ls.length) (FirstFailure.run readLine n (haveHeader, rows) ls) := by
  induction ls generalizing n haveHeader rows with
  | nil => rfl
  | cons line ls ih =>
    have hlength : n + (line :: ls).length = n + 1 + ls.length := by
      rw [List.length_cons]
      omega
    rw [parseLines, FirstFailure.run, readLine, hlength]
    simp only [trim_dropReturn, splitFields_dropReturn]
    by_cases hskip : trim line = [] ∨ (trim line).head? = some '#'
    · have hno : ¬ IsContent line := fun h => hskip.elim (isContent_iff.mp h).1 (isContent_iff.mp h).2
      rw [if_pos hskip, if_pos hno]
      exact ih (n + 1) haveHeader rows
    · have hcontent : IsContent line := isContent_iff.mpr (not_or.mp hskip)
      rw [if_neg hskip, if_neg (not_not_intro hcontent)]
      cases haveHeader with
      | false =>
        by_cases hheader : trim line ≠ kHeaderLine.toList
        · simp only [Bool.not_false, if_pos, if_pos hheader]
          rfl
        · simp only [Bool.not_false, if_pos, if_neg hheader]
          exact ih (n + 1) true rows
      | true =>
        simp only [Bool.not_true, Bool.false_eq_true, if_false]
        cases parseRow (splitFields line) with
        | error message => rfl
        | ok row => exact ih (n + 1) true (rows ++ [row])

theorem readLine_error {st : Bool × List CsvRow} {line : List Char} :
    (∃ message, readLine st line = .error message) ↔ IsContent line ∧
      if st.1 = false then ¬ Strips line kHeaderLine.toList else ¬ ∃ row, RowOf line row := by
  rw [← trim_iff]
  obtain ⟨haveHeader, rows⟩ := st
  unfold readLine
  by_cases hcontent : IsContent line
  · rw [if_neg (not_not_intro hcontent), and_iff_right hcontent]
    cases haveHeader with
    | false =>
      by_cases hheader : trim line ≠ kHeaderLine.toList
      · simp [hheader]
      · simp [not_not.mp hheader]
    | true =>
      simp only [← parseRow_rowOf, Bool.not_true, Bool.false_eq_true, if_false]
      cases parseRow (splitFields line) <;> simp
  · rw [if_pos hcontent]
    simp [hcontent]

theorem contents_cons (line : List Char) (ls : List (List Char)) :
    contents (line :: ls) = if IsContent line then line :: contents ls else contents ls := by
  simp [contents, List.filter_cons]

theorem readLine_skip {st : Bool × List CsvRow} {line : List Char} (h : ¬ IsContent line) :
    readLine st line = .ok st := if_pos h

theorem readLine_header {rows : List CsvRow} {line : List Char} {st : Bool × List CsvRow}
    (h : IsContent line) :
    readLine (false, rows) line = .ok st ↔
      Strips line kHeaderLine.toList ∧ st = (true, rows) := by
  unfold readLine
  rw [← trim_iff, if_neg (not_not_intro h), if_pos (show (!(false, rows).1) = true from rfl)]
  by_cases hheader : trim line = kHeaderLine.toList
  · rw [if_neg (not_not_intro hheader), and_iff_right hheader]
    exact ⟨fun h => (Except.ok.inj h).symm, fun h => congrArg Except.ok h.symm⟩
  · rw [if_pos hheader]
    exact iff_of_false (fun h => nomatch h) fun h => hheader h.1

theorem readLine_row {rows : List CsvRow} {line : List Char} {st : Bool × List CsvRow}
    (h : IsContent line) :
    readLine (true, rows) line = .ok st ↔ ∃ row, RowOf line row ∧ st = (true, rows ++ [row]) := by
  unfold readLine
  rw [if_neg (not_not_intro h), if_neg (by simp)]
  simp only [← parseRow_rowOf]
  cases parseRow (splitFields line) with
  | error message => exact iff_of_false (fun h => nomatch h) fun ⟨_, h, _⟩ => nomatch h
  | ok row =>
    constructor
    · rintro ⟨⟩
      exact ⟨row, rfl, rfl⟩
    · rintro ⟨_, ⟨⟩, rfl⟩
      rfl

/-- After the header every line with content is a row. -/
theorem passes_rows {rows : List CsvRow} {ls : List (List Char)} {st : Bool × List CsvRow} :
    FirstFailure.Passes readLine (true, rows) ls st ↔
      ∃ new, List.Forall₂ RowOf (contents ls) new ∧ st = (true, rows ++ new) := by
  induction ls generalizing rows with
  | nil =>
    rw [FirstFailure.passes_nil]
    constructor
    · rintro rfl
      exact ⟨[], .nil, by rw [List.append_nil]⟩
    · rintro ⟨_, ⟨⟩, rfl⟩
      rw [List.append_nil]
  | cons line ls ih =>
    rw [FirstFailure.passes_cons, contents_cons]
    by_cases hcontent : IsContent line
    · simp only [readLine_row hcontent, if_pos hcontent]
      constructor
      · rintro ⟨_, ⟨row, hrow, rfl⟩, hrest⟩
        obtain ⟨new, hnew, rfl⟩ := ih.mp hrest
        exact ⟨row :: new, .cons hrow hnew, by rw [List.append_assoc, List.singleton_append]⟩
      · rintro ⟨_, hall, rfl⟩
        obtain ⟨row, new, hrow, hnew, rfl⟩ := List.forall₂_cons_left_iff.mp hall
        refine ⟨_, ⟨row, hrow, rfl⟩, ih.mpr ⟨new, hnew, ?_⟩⟩
        rw [List.append_assoc, List.singleton_append]
    · simp only [readLine_skip hcontent, if_neg hcontent]
      rw [← ih]
      exact ⟨fun ⟨_, hsame, hrest⟩ => Except.ok.inj hsame ▸ hrest, fun hrest => ⟨_, rfl, hrest⟩⟩

/-- What has been read of some lines. -/
def Reads (ls : List (List Char)) (st : Bool × List CsvRow) : Prop :=
  match contents ls with
  | [] => st = (false, [])
  | header :: rest =>
    Strips header kHeaderLine.toList ∧ ∃ rows, List.Forall₂ RowOf rest rows ∧ st = (true, rows)

theorem passes_reads {ls : List (List Char)} {st : Bool × List CsvRow} :
    FirstFailure.Passes readLine (false, []) ls st ↔ Reads ls st := by
  unfold Reads
  induction ls with
  | nil => exact FirstFailure.passes_nil.trans eq_comm
  | cons line ls ih =>
    rw [FirstFailure.passes_cons, contents_cons]
    by_cases hcontent : IsContent line
    · simp only [readLine_header hcontent, if_pos hcontent]
      constructor
      · rintro ⟨_, ⟨hheader, rfl⟩, hrest⟩
        exact ⟨hheader, passes_rows.mp hrest⟩
      · rintro ⟨hheader, hrest⟩
        exact ⟨_, ⟨hheader, rfl⟩, passes_rows.mpr hrest⟩
    · simp only [readLine_skip hcontent, if_neg hcontent]
      rw [← ih]
      exact ⟨fun ⟨_, hsame, hrest⟩ => Except.ok.inj hsame ▸ hrest, fun hrest => ⟨_, rfl, hrest⟩⟩

theorem Reads.haveHeader {ls : List (List Char)} {st : Bool × List CsvRow} (h : Reads ls st) :
    st.1 = false ↔ contents ls = [] := by
  unfold Reads at h
  split at h
  · rename_i hnone
    rw [h, hnone]
    exact iff_of_true rfl rfl
  · rename_i header rest hsome
    obtain ⟨_, rows, _, rfl⟩ := h
    rw [hsome]
    exact iff_of_false (fun h => nomatch h) (List.cons_ne_nil header rest)

theorem forall_exists_iff {α β : Type} {R : α → β → Prop} {xs : List α} :
    (∀ x ∈ xs, ∃ y, R x y) ↔ ∃ ys, List.Forall₂ R xs ys := by
  induction xs with
  | nil => exact iff_of_true (fun _ h => nomatch h) ⟨[], .nil⟩
  | cons x xs ih =>
    rw [List.forall_mem_cons, ih]
    constructor
    · rintro ⟨⟨y, hy⟩, ys, hys⟩
      exact ⟨y :: ys, .cons hy hys⟩
    · rintro ⟨_, hall⟩
      obtain ⟨y, ys, hy, hys, rfl⟩ := List.forall₂_cons_left_iff.mp hall
      exact ⟨⟨y, hy⟩, ys, hys⟩

theorem lawful_iff {ls : List (List Char)} : Lawful ls ↔ ∃ rows, Reads ls (true, rows) := by
  unfold Lawful Reads
  cases contents ls with
  | nil => simp
  | cons header rest =>
    simp only [forall_exists_iff]
    constructor
    · rintro ⟨_, _, ⟨⟩, hheader, rows, hrows⟩
      exact ⟨rows, hheader, rows, hrows, rfl⟩
    · rintro ⟨_, hheader, rows, hrows, _⟩
      exact ⟨header, rest, rfl, hheader, rows, hrows⟩

/-- An offending line is not read after the lines before it. -/
theorem OffendsAt.not_read {ls : List (List Char)} {k : ℕ} (h : OffendsAt ls k) :
    ∃ before line after, ls = before ++ line :: after ∧ k = before.length + 1 ∧
      ∀ st, FirstFailure.Passes readLine (false, []) before st →
        ∃ message, readLine st line = .error message := by
  obtain ⟨before, line, after, hls, hk, hcontent, hoffends⟩ := h
  refine ⟨before, line, after, hls, hk, fun st hst => readLine_error.mpr ⟨hcontent, ?_⟩⟩
  simpa only [(passes_reads.mp hst).haveHeader] using hoffends

theorem failure_offends {ls : List (List Char)} {k : ℕ} {message : String}
    (h : (FirstFailure.run readLine 0 (false, []) ls).failure = some (k, message)) :
    FirstOffence ls k := by
  obtain ⟨before, line, after, hls, hk, st, hst, hline⟩ := FirstFailure.failure_prefix h
  obtain ⟨hcontent, hoffends⟩ := readLine_error.mp ⟨message, hline⟩
  simp only [(passes_reads.mp hst).haveHeader] at hoffends
  refine .inr ⟨⟨before, line, after, hls, by omega, hcontent, hoffends⟩, fun j hj => ?_⟩
  obtain ⟨before', line', after', hls', hj, herror⟩ := hj.not_read
  by_contra hlt
  rcases List.append_eq_append_iff.mp (hls.symm.trans hls') with ⟨mid, hmid, _⟩ | ⟨mid, hmid, hrest⟩
  · rw [hmid, List.length_append] at hj
    omega
  · cases mid with
    | nil =>
      rw [List.append_nil] at hmid
      rw [hmid] at hk
      omega
    | cons c mid =>
      obtain ⟨rfl, _⟩ := List.cons.inj hrest
      rw [hmid] at hst
      obtain ⟨m, hbefore, hlater⟩ := FirstFailure.passes_append.mp hst
      obtain ⟨u, hu, _⟩ := FirstFailure.passes_cons.mp hlater
      obtain ⟨message', herror⟩ := herror m hbefore
      rw [hu] at herror
      cases herror

/-- **A mission file is taken whole, as its contract says, or not at all.** -/
theorem csv_contract (text : List Char) :
    ((parseCsv text).error = none ↔ Lawful (getLines text)) ∧
      (Lawful (getLines text) →
        List.Forall₂ RowOf (contents (getLines text)).tail (parseCsv text).rows) ∧
      (¬ Lawful (getLines text) → (parseCsv text).rows = [] ∧
        ∃ e, (parseCsv text).error = some e ∧ FirstOffence (getLines text) e.line) := by
  generalize hls : getLines text = ls
  have hparse : parseCsv text =
      finishFile ls.length (FirstFailure.run readLine 0 (false, []) ls) := by
    rw [parseCsv, parseLines_eq, hls, Nat.zero_add]
  rw [hparse, lawful_iff]
  unfold finishFile
  cases hfailure : (FirstFailure.run readLine 0 (false, []) ls).failure with
  | some f =>
    obtain ⟨k, message⟩ := f
    have hno : ¬ ∃ rows, Reads ls (true, rows) := by
      rintro ⟨rows, hrows⟩
      have hnone := (FirstFailure.passes_iff_failure 0).mp ⟨_, passes_reads.mpr hrows⟩
      rw [hnone] at hfailure
      cases hfailure
    exact ⟨iff_of_false (fun h => nomatch h) hno, fun h => absurd h hno,
      fun _ => ⟨rfl, _, rfl, failure_offends hfailure⟩⟩
  | none =>
    have hreads := passes_reads.mp (FirstFailure.passes_of_run hfailure)
    revert hreads
    generalize (FirstFailure.run readLine 0 (false, []) ls).state = st
    intro hreads
    obtain ⟨haveHeader, rows⟩ := st
    cases haveHeader with
    | true =>
      refine ⟨iff_of_true rfl ⟨rows, hreads⟩, fun _ => ?_, fun h => absurd ⟨rows, hreads⟩ h⟩
      unfold Reads at hreads
      split at hreads
      · cases hreads
      · rename_i header rest hcontents
        obtain ⟨_, rows', hrows, heq⟩ := hreads
        obtain ⟨_, rfl⟩ := Prod.mk.inj heq
        rw [hcontents]
        exact hrows
    | false =>
      have hnone : contents ls = [] := hreads.haveHeader.mp rfl
      have hno : ¬ ∃ rows, Reads ls (true, rows) := by
        rintro ⟨rows', hrows⟩
        exact nomatch hrows.haveHeader.mpr hnone
      refine ⟨iff_of_false (fun h => nomatch h) hno, fun h => absurd h hno,
        fun _ => ⟨rfl, _, rfl, .inl ⟨hnone, ?_⟩⟩⟩
      dsimp only
      split <;> omega

/-- A comment, the header with a carriage return, a satellite and an object between blanks. -/
def missionFile : List Char :=
  ("# mission\n" ++ kHeaderLine ++ "\r\n0.5,sat,1,,7000000,0,0,,,,,,\r\n" ++
    "\n 1 , obj , 9 , debris ,1,2,4, 1,2,4 ,,,2\n").toList

def missionRows : List CsvRow :=
  [{ timeS := ⟨0x3FE0000000000000⟩, isSat := true,
     record := { id := 1, confidence := 100, px := ⟨0x415AB3F000000000⟩ } },
   { timeS := ⟨0x3FF0000000000000⟩,
     record :=
      { id := 9, type := 1, flags := 3, confidence := 100, px := ⟨0x3FF0000000000000⟩,
        py := ⟨0x4000000000000000⟩, pz := ⟨0x4010000000000000⟩, vx := ⟨0x3F800000⟩,
        vy := ⟨0x40000000⟩, vz := ⟨0x40800000⟩ } }]

/-- The file is taken with both rows; with a row of kind `sun` after them it is not taken, and
the error names the sixth line. -/
theorem csv_contract_sample :
    (Lawful (getLines missionFile) ∧
      List.Forall₂ RowOf (contents (getLines missionFile)).tail missionRows) ∧
    ¬ Lawful (getLines (missionFile ++ "2,sun,1,,0,0,0,,,,,,".toList)) ∧
      FirstOffence (getLines (missionFile ++ "2,sun,1,,0,0,0,,,,,,".toList)) 6 := by
  have hparse : parseCsv missionFile = { rows := missionRows } := by decide +kernel
  obtain ⟨htaken, hrows, _⟩ := csv_contract missionFile
  have hlawful := htaken.mp (by rw [hparse])
  rw [hparse] at hrows
  refine ⟨⟨hlawful, hrows hlawful⟩, ?_⟩
  obtain ⟨htaken, _, hoffence⟩ :=
    csv_contract (missionFile ++ "2,sun,1,,0,0,0,,,,,,".toList)
  have hfails : ((parseCsv (missionFile ++ "2,sun,1,,0,0,0,,,,,,".toList)).error.map (·.line)) =
      some 6 := by decide +kernel
  obtain ⟨e, herror, hline⟩ := Option.map_eq_some_iff.mp hfails
  have hno : ¬ Lawful _ := fun h => by
    rw [htaken.mpr h] at herror
    cases herror
  obtain ⟨_, e', herror', hfirst⟩ := hoffence hno
  obtain rfl := Option.some.inj (herror.symm.trans herror')
  exact ⟨hno, hline ▸ hfirst⟩

end Olv.Sim
