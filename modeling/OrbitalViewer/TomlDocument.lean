import OrbitalViewer.Lib.Lines
import OrbitalViewer.TomlGrammar

/-!
# Documents of the TOML subset

A document is a list of lines of the grammar. Its entries are its pairs, each key
qualified by the latest header. `parse_exact`: the C++ parser accepts the texts
whose lines are a document without a repeated key, and returns its entries.
-/

namespace Olv.Toml
open FirstFailure (Passes)
open Sim (getLines dropReturn)

/-! ## Entries -/

section Items
variable {V : Type}

/-- The table that the lines after this one are in. -/
def Item.table (table : List Char) : Item V → List Char
  | header name => name
  | _ => table

/-- What a line in a table adds. -/
def Item.entry (table : List Char) : Item V → List (List Char × V)
  | pair key value => [(flat table key, value)]
  | _ => []

def entriesFrom (table : List Char) : List (Item V) → List (List Char × V)
  | [] => []
  | item :: items => item.entry table ++ entriesFrom (item.table table) items

def tableAfter (table : List Char) (items : List (Item V)) : List Char :=
  items.foldl (fun table item => item.table table) table

def keys (values : List (List Char × V)) : List (List Char) := values.map Prod.fst

/-- The items that a list of lines is read as. -/
def Reads (values : Values V) (ls : List (List Char)) (items : List (Item V)) : Prop :=
  List.Forall₂ (fun l item => parseLine values l = .ok item) ls items

variable {values : Values V} {st st' : State V} {ls : List (List Char)}

theorem step_iff {l : List Char} (hst : (keys st.values).Nodup) :
    step values st l = .ok st' ↔
      ∃ item, parseLine values l = .ok item ∧ (keys (st.values ++ item.entry st.table)).Nodup ∧
        st' = ⟨item.table st.table, st.values ++ item.entry st.table⟩ := by
  unfold step
  cases hread : parseLine values l with
  | error e => simp
  | ok item =>
    cases item with
    | nothing =>
      show Except.ok st = .ok st' ↔ _
      simp only [Except.ok.injEq, exists_eq_left', Item.entry, Item.table, List.append_nil, hst,
        true_and]
      exact eq_comm
    | header name => simp [Item.entry, Item.table, hst, eq_comm]
    | pair key value =>
      have hfresh : (keys (st.values ++ [(flat st.table key, value)])).Nodup ↔
          ¬ st.values.any (·.1 = flat st.table key) := by
        have hst' : (st.values.map Prod.fst).Nodup := hst
        simp only [keys, List.map_append, List.nodup_append, hst', List.map_cons, List.map_nil]
        simp
        exact ⟨fun h v hv => h _ v hv rfl, fun h k v hv hk => h v (hk ▸ hv)⟩
      dsimp only
      split
      · rename_i hdup
        simp [Item.entry, hfresh, hdup]
      · rename_i hnew
        simp [Item.entry, Item.table, hfresh, hnew, eq_comm]

theorem step_nodup {l : List Char} (hst : (keys st.values).Nodup) (h : step values st l = .ok st') :
    (keys st'.values).Nodup := by
  obtain ⟨item, _, hnodup, rfl⟩ := (step_iff hst).mp h
  exact hnodup

/-- A run over lines reads each and repeats no key. -/
theorem passes_iff (hst : (keys st.values).Nodup) :
    Passes (step values) st ls st' ↔
      ∃ items, Reads values ls items ∧
        (keys (st.values ++ entriesFrom st.table items)).Nodup ∧
        st' = ⟨tableAfter st.table items, st.values ++ entriesFrom st.table items⟩ := by
  induction ls generalizing st with
  | nil =>
    rw [FirstFailure.passes_nil]
    constructor
    · rintro rfl
      exact ⟨[], .nil, by simpa [entriesFrom] using hst, by simp [entriesFrom, tableAfter]⟩
    · rintro ⟨items, hreads, _, rfl⟩
      obtain rfl := List.forall₂_nil_left_iff.mp hreads
      simp [entriesFrom, tableAfter]
  | cons l ls ih =>
    rw [FirstFailure.passes_cons]
    constructor
    · rintro ⟨m, hstep, hrest⟩
      obtain ⟨items, hreads, hnodup, rfl⟩ := (ih (step_nodup hst hstep)).mp hrest
      obtain ⟨item, hread, _, rfl⟩ := (step_iff hst).mp hstep
      refine ⟨item :: items, .cons hread hreads, ?_, ?_⟩
      · rwa [entriesFrom, ← List.append_assoc]
      · rw [entriesFrom, ← List.append_assoc]
        rfl
    · rintro ⟨items, hreads, hnodup, hend⟩
      obtain ⟨item, items, hread, hrest, rfl⟩ := List.forall₂_cons_left_iff.mp hreads
      have hentries : st.values ++ entriesFrom st.table (item :: items) =
          (st.values ++ item.entry st.table) ++ entriesFrom (item.table st.table) items := by
        rw [entriesFrom, List.append_assoc]
      rw [hentries] at hnodup hend
      have hfirst : (keys (st.values ++ item.entry st.table)).Nodup := by
        rw [keys, List.map_append] at hnodup
        exact (List.nodup_append.mp hnodup).1
      refine ⟨⟨item.table st.table, st.values ++ item.entry st.table⟩,
        (step_iff hst).mpr ⟨item, hread, hfirst, rfl⟩, ?_⟩
      exact (ih hfirst).mpr ⟨items, hrest, hnodup, hend⟩

end Items

/-! ## Documents -/

section Documents
variable {strtod : Strtod} {doc : List (Line strtod)} {ls : List (List Char)}

/-- The pairs of a document, each key qualified by the latest header. -/
def entries (doc : List (Line strtod)) : List (List Char × Value) :=
  entriesFrom [] (doc.map Line.item)

/-- The lines are a document, and no key of it repeats. -/
structure Writes (doc : List (Line strtod)) (ls : List (List Char)) : Prop where
  text : doc.map Line.text = ls
  distinct : (keys (entries doc)).Nodup

def Valid (strtod : Strtod) (ls : List (List Char)) : Prop :=
  ∃ doc : List (Line strtod), Writes doc ls

theorem reads_document (hls : ∀ l ∈ ls, '\n' ∉ l) {items : List (Item Value)} :
    Reads (cppValues strtod) ls items ↔
      ∃ doc : List (Line strtod), doc.map Line.text = ls ∧ doc.map Line.item = items := by
  constructor
  · intro h
    induction h with
    | nil => exact ⟨[], rfl, rfl⟩
    | cons hread _ ih =>
      obtain ⟨hl, hrest⟩ := List.forall_mem_cons.mp hls
      obtain ⟨L, rfl, rfl⟩ := parseLine_sound hl hread
      obtain ⟨doc, rfl, rfl⟩ := ih hrest
      exact ⟨L :: doc, rfl, rfl⟩
  · rintro ⟨doc, rfl, rfl⟩
    clear hls
    induction doc with
    | nil => exact .nil
    | cons L doc ih => exact .cons (parseLine_complete L) ih

theorem passes_document (hls : ∀ l ∈ ls, '\n' ∉ l) {st : State Value} :
    Passes (step (cppValues strtod)) {} ls st ↔
      ∃ doc : List (Line strtod), Writes doc ls ∧
        st = ⟨tableAfter [] (doc.map Line.item), entries doc⟩ := by
  have hempty : (keys (State.values ({} : State Value))).Nodup := List.nodup_nil
  rw [passes_iff hempty]
  constructor
  · rintro ⟨items, hreads, hnodup, rfl⟩
    obtain ⟨doc, htext, rfl⟩ := (reads_document hls).mp hreads
    exact ⟨doc, ⟨htext, hnodup⟩, rfl⟩
  · rintro ⟨doc, hdoc, rfl⟩
    exact ⟨doc.map Line.item, (reads_document hls).mpr ⟨doc, hdoc.text, rfl⟩, hdoc.distinct, rfl⟩

theorem exists_passes (hls : ∀ l ∈ ls, '\n' ∉ l) :
    (∃ st, Passes (step (cppValues strtod)) {} ls st) ↔ Valid strtod ls := by
  simp only [passes_document hls]
  constructor
  · rintro ⟨_, doc, hdoc, _⟩
    exact ⟨doc, hdoc⟩
  · rintro ⟨doc, hdoc⟩
    exact ⟨_, doc, hdoc, rfl⟩

end Documents

/-! ## Flattened keys -/

theorem point_not_bare : isBareKeyChar '.' = false := by decide

/-- The table of a root key has no name. -/
def tableText (table : Option BareName) : List Char := (table.map BareName.text).getD []

theorem flat_root (key : List Char) : flat (tableText none) key = key := rfl

theorem flat_table (table : BareName) (key : List Char) :
    flat (tableText (some table)) key = table.text ++ '.' :: key := if_neg table.nonempty

theorem BareName.no_point (name : BareName) : '.' ∉ name.text := fun h =>
  absurd (name.bare '.' h) (by decide)

/-- A flattened key tells its table and its key. -/
theorem flat_injective {table table' : Option BareName} {key key' : BareName}
    (h : flat (tableText table) key.text = flat (tableText table') key'.text) :
    tableText table = tableText table' ∧ key.text = key'.text := by
  cases table with
  | none =>
    cases table' with
    | none => exact ⟨rfl, h⟩
    | some table' =>
      rw [flat_root, flat_table] at h
      exact absurd (h ▸ by simp : '.' ∈ key.text) key.no_point
  | some table =>
    cases table' with
    | none =>
      rw [flat_root, flat_table] at h
      exact absurd (h ▸ by simp : '.' ∈ key'.text) key'.no_point
    | some table' =>
      rw [flat_table, flat_table] at h
      have htake := congrArg (List.takeWhile isBareKeyChar) h
      have hdrop := congrArg (List.dropWhile isBareKeyChar) h
      rw [takeWhile_stop table.bare point_not_bare, takeWhile_stop table'.bare point_not_bare] at htake
      rw [dropWhile_stop table.bare point_not_bare, dropWhile_stop table'.bare point_not_bare] at hdrop
      exact ⟨htake, (List.cons.inj hdrop).2⟩

/-! ## Ends of lines -/

section Ends
variable {strtod : Strtod}

/-- A line up to what may follow. -/
def Line.front : Line strtod → List Char
  | empty _ => []
  | header indent name _ => indent.text ++ '[' :: (name.text ++ [']'])
  | pair indent key left right value _ =>
    indent.text ++ (key.text ++ (left.text ++ '=' :: (right.text ++ value.text)))

def Line.withTail (tail : Tail) : Line strtod → Line strtod
  | empty _ => empty tail
  | header indent name _ => header indent name tail
  | pair indent key left right value _ => pair indent key left right value tail

theorem Line.text_front (L : Line strtod) : L.text = L.front ++ L.tail.text := by
  cases L <;> simp [Line.text, Line.front, Line.tail]

theorem Line.withTail_text (L : Line strtod) (tail : Tail) :
    (L.withTail tail).text = L.front ++ tail.text := by
  cases L <;> simp [Line.withTail, Line.text, Line.front]

theorem Line.withTail_item (L : Line strtod) (tail : Tail) : (L.withTail tail).item = L.item := by
  cases L <;> rfl

theorem Line.withTail_tail (L : Line strtod) (tail : Tail) : (L.withTail tail).tail = tail := by
  cases L <;> rfl

theorem Literal.last (L : Literal strtod) : L.text.getLast? ≠ some '\r' := by
  intro h
  by_cases hL : L.IsScalar
  · exact absurd (Literal.scalarChars hL _ (List.mem_of_getLast? h)) (by decide)
  · cases L with
    | string pieces =>
      rw [Literal.text, ← List.cons_append, List.getLast?_concat] at h
      exact absurd (Option.some.inj h) (by decide)
    | _ => exact absurd trivial hL

theorem getLast?_append_ne {s t : List Char} {c : Char} (hs : s.getLast? ≠ some c)
    (ht : t.getLast? ≠ some c) : (s ++ t).getLast? ≠ some c := by
  cases t with
  | nil => rwa [List.append_nil]
  | cons d t => rwa [List.getLast?_append_of_ne_nil _ (List.cons_ne_nil d t)]

theorem Line.front_last (L : Line strtod) : L.front.getLast? ≠ some '\r' := by
  cases L with
  | empty _ => exact nofun
  | header indent name _ =>
    rw [Line.front, ← List.cons_append, ← List.append_assoc, List.getLast?_concat]
    decide
  | pair indent key left right value _ =>
    have hsplit : (Line.pair indent key left right value ‹_›).front =
        (indent.text ++ (key.text ++ (left.text ++ '=' :: right.text))) ++ value.text := by
      simp [Line.front]
    rw [hsplit, List.getLast?_append_of_ne_nil _ value.text_ne_nil]
    exact value.last

/-- Only a comment can end in a carriage return. -/
theorem Line.last (L : Line strtod) (hL : L.tail.comment = none) :
    L.text.getLast? ≠ some '\r' := by
  rw [L.text_front]
  apply getLast?_append_ne L.front_last
  rw [Tail.text, hL, Option.map_none, Option.getD_none, List.append_nil]
  intro h
  exact absurd (L.tail.blanks.blank _ (List.mem_of_getLast? h)) (by decide)

/-- What a line says does not depend on a carriage return at its end, which lies
in its comment. -/
theorem Line.of_return {L : Line strtod} {s : List Char} (h : L.text = s ++ ['\r']) :
    ∃ L' : Line strtod, L'.text = s ∧ L'.item = L.item ∧ L'.tail.comment ≠ none := by
  have hlast : L.text.getLast? = some '\r' := by rw [h, List.getLast?_concat]
  cases hcomment : L.tail.comment with
  | none => exact absurd hlast (L.last hcomment)
  | some c =>
    have htail : L.text = L.front ++ (L.tail.blanks.text ++ '#' :: c.text) := by
      rw [L.text_front, Tail.text, hcomment]
      rfl
    rcases List.eq_nil_or_concat' c.text with hnil | ⟨u, x, hu⟩
    · rw [htail, hnil, ← List.append_assoc, List.getLast?_concat] at hlast
      exact absurd (Option.some.inj hlast) (by decide)
    · have hsplit : L.text = (L.front ++ (L.tail.blanks.text ++ '#' :: u)) ++ [x] := by
        simp [htail, hu]
      rw [hsplit] at h
      obtain ⟨rfl, _⟩ := List.append_inj' h rfl
      have hu' : '\n' ∉ u := fun hmem => c.one_line (by simp [hu, hmem])
      refine ⟨L.withTail ⟨L.tail.blanks, some ⟨u, hu'⟩⟩, ?_, L.withTail_item _, ?_⟩
      · rw [L.withTail_text]
        rfl
      · rw [L.withTail_tail]
        exact Option.some_ne_none _

/-- A comment may as well end in a carriage return. -/
theorem Line.with_return {L : Line strtod} (hL : L.tail.comment ≠ none) :
    ∃ L' : Line strtod, L'.text = L.text ++ ['\r'] ∧ L'.item = L.item := by
  obtain ⟨c, hc⟩ := Option.ne_none_iff_exists'.mp hL
  have hone : '\n' ∉ c.text ++ ['\r'] := by simp [c.one_line]
  refine ⟨L.withTail ⟨L.tail.blanks, some ⟨c.text ++ ['\r'], hone⟩⟩, ?_, L.withTail_item _⟩
  rw [L.withTail_text, L.text_front, Tail.text, Tail.text, hc]
  simp [Comment.full]

theorem dropReturn_concat (l : List Char) : dropReturn (l ++ ['\r']) = l := by
  simp [dropReturn]

theorem dropReturn_of_ne {l : List Char} (h : l.getLast? ≠ some '\r') : dropReturn l = l := if_neg h

theorem mem_of_mem_dropReturn {l : List Char} {c : Char} (h : c ∈ dropReturn l) : c ∈ l := by
  unfold dropReturn at h
  split at h
  · exact List.mem_of_mem_dropLast h
  · exact h

theorem Line.dropReturn_text (L : Line strtod) :
    ∃ L' : Line strtod, L'.text = dropReturn L.text ∧ L'.item = L.item := by
  rcases List.eq_nil_or_concat' L.text with hnil | ⟨s, c, hs⟩
  · exact ⟨L, by rw [hnil]; rfl, rfl⟩
  · by_cases hc : c = '\r'
    · subst hc
      obtain ⟨L', htext, hitem, _⟩ := L.of_return hs
      exact ⟨L', by rw [hs, dropReturn_concat, htext], hitem⟩
    · refine ⟨L, (dropReturn_of_ne ?_).symm, rfl⟩
      rw [hs, List.getLast?_concat]
      exact fun h => hc (Option.some.inj h)

end Ends

/-! ## Lines of a text -/

theorem getLines_joined {ls : List (List Char)} {rest : List Char}
    (h : Lines.Unbroken '\n' ls rest) :
    getLines (Lines.joined '\n' ls rest) = ls ++ if rest = [] then [] else [rest] := by
  rw [getLines, Lines.splitOn_joined h]
  by_cases hrest : rest = []
  · simp [hrest]
  · simp [hrest]

theorem lines_one_line (text : List Char) : ∀ l ∈ lines text, '\n' ∉ l := by
  obtain ⟨ls, rest, rfl, h⟩ := Lines.exists_joined '\n' text
  intro l hl hmem
  rw [lines, getLines_joined h] at hl
  obtain ⟨k, hk, rfl⟩ := List.mem_map.mp hl
  have hk' : '\n' ∈ k := mem_of_mem_dropReturn hmem
  rcases List.mem_append.mp hk with hk | hk
  · exact h.lines k hk hk'
  · split at hk
    · cases hk
    · exact h.rest (List.mem_singleton.mp hk ▸ hk')

section Parse
variable {strtod : Strtod} {text : List Char}

theorem parse_of_writes {doc : List (Line strtod)} (h : Writes doc (lines text)) :
    parse strtod text = { values := entries doc } := by
  have hpass := (passes_document (lines_one_line text)).mpr ⟨doc, h, rfl⟩
  rw [parse, FirstFailure.run_passes 0 hpass]
  rfl

theorem parse_ok_iff : (parse strtod text).ok = true ↔ Valid strtod (lines text) := by
  constructor
  · intro hok
    have hnone := (ok_ofOutcome _).mp hok
    exact (exists_passes (lines_one_line text)).mp ⟨_, FirstFailure.passes_of_run hnone⟩
  · rintro ⟨doc, hdoc⟩
    rw [parse_of_writes hdoc]
    rfl

/-- The keys of a result are distinct. -/
theorem keys_nodup (h : (parse strtod text).ok = true) : (keys (parse strtod text).values).Nodup := by
  obtain ⟨doc, hdoc⟩ := parse_ok_iff.mp h
  rw [parse_of_writes hdoc]
  exact hdoc.distinct

theorem valid_take_iff (k : ℕ) :
    (∃ st, Passes (step (cppValues strtod)) {} ((lines text).take k) st) ↔
      Valid strtod ((lines text).take k) :=
  exists_passes fun l hl => lines_one_line text l (List.mem_of_mem_take hl)

/-- On failure the line is the first that no document can have there. -/
theorem parse_errorLine (h : (parse strtod text).ok = false) :
    ∃ k < (lines text).length, (parse strtod text).errorLine = k + 1 ∧
      Valid strtod ((lines text).take k) ∧ ¬ Valid strtod ((lines text).take (k + 1)) := by
  cases hrun : (FirstFailure.run (step (cppValues strtod)) 0 {} (lines text)).failure with
  | none =>
    have hok := (ok_ofOutcome _).mpr hrun
    exact absurd (hok.symm.trans h) (by decide)
  | some f =>
    obtain ⟨ln, e⟩ := f
    obtain ⟨before, _, _, _, rfl, _⟩ := FirstFailure.failure_prefix hrun
    rw [Nat.zero_add] at hrun
    obtain ⟨hk, hpass, hno⟩ := FirstFailure.failure_take hrun
    refine ⟨before.length, hk, ?_, (valid_take_iff _).mp hpass, mt (valid_take_iff _).mpr hno⟩
    rw [parse, ParseResult.ofOutcome, hrun]

end Parse

/-! ## Rendering -/

inductive Ending
  | lf | crlf
  deriving DecidableEq

def Ending.before : Ending → List Char
  | lf => []
  | crlf => ['\r']

theorem Ending.one_line (e : Ending) : '\n' ∉ e.before := by cases e <;> decide

section Render
variable {strtod : Strtod}

/-- Lines each with its ending, and perhaps a last one without. -/
def render (doc : List (Line strtod × Ending)) (last : Option (Line strtod)) : List Char :=
  Lines.joined '\n' (doc.map fun e => e.1.text ++ e.2.before) ((last.map Line.text).getD [])

theorem Blanks.one_line (b : Blanks) : '\n' ∉ b.text :=
  fun h => absurd (b.blank _ h) (by decide)

theorem BareName.one_line (name : BareName) : '\n' ∉ name.text :=
  fun h => absurd (name.bare _ h) (by decide)

theorem Piece.one_line (p : Piece) : '\n' ∉ p.text := by
  cases p with
  | raw c => simpa [Piece.text] using c.one_line.symm
  | escape e => cases e <;> decide

theorem Literal.one_line (L : Literal strtod) : '\n' ∉ L.text := by
  intro h
  by_cases hL : L.IsScalar
  · exact absurd (Literal.scalarChars hL _ h) (by decide)
  · cases L with
    | string pieces =>
      simp only [Literal.text, List.mem_cons, List.mem_append, List.mem_flatMap] at h
      rcases h with h | ⟨p, _, hp⟩ | h
      · exact absurd h (by decide)
      · exact p.one_line hp
      · simp at h
    | _ => exact absurd trivial hL

theorem Tail.one_line (t : Tail) : '\n' ∉ t.text := by
  rw [Tail.text, List.mem_append]
  refine not_or.mpr ⟨t.blanks.one_line, ?_⟩
  cases t.comment with
  | none => exact List.not_mem_nil
  | some c => simpa [Comment.full] using c.one_line

theorem Line.one_line (L : Line strtod) : '\n' ∉ L.text := by
  cases L with
  | empty tail => exact tail.one_line
  | header indent name tail =>
    simp [Line.text, indent.one_line, name.one_line, tail.one_line]
  | pair indent key left right value tail =>
    simp [Line.text, indent.one_line, key.one_line, left.one_line, right.one_line, value.one_line,
      tail.one_line]

/-- A line that is written as nothing says nothing. -/
theorem Line.item_of_nil {L : Line strtod} (h : L.text = []) : L.item = .nothing := by
  have hread := parseLine_complete L
  rw [h] at hread
  exact (Except.ok.inj hread).symm

theorem entriesFrom_nothing (table : List Char) (items : List (Item Value)) :
    entriesFrom table (items ++ [.nothing]) = entriesFrom table items := by
  induction items generalizing table with
  | nil => rfl
  | cons item items ih => rw [List.cons_append, entriesFrom, entriesFrom, ih]

theorem Line.ending (L : Line strtod) (e : Ending) :
    ∃ L' : Line strtod, L'.text = dropReturn (L.text ++ e.before) ∧ L'.item = L.item := by
  cases e with
  | lf =>
    rw [Ending.before, List.append_nil]
    exact L.dropReturn_text
  | crlf => exact ⟨L, (dropReturn_concat L.text).symm, rfl⟩

theorem exists_lines (doc : List (Line strtod × Ending)) :
    ∃ doc' : List (Line strtod),
      doc'.map Line.text = (doc.map fun e => e.1.text ++ e.2.before).map dropReturn ∧
        doc'.map Line.item = (doc.map Prod.fst).map Line.item := by
  induction doc with
  | nil => exact ⟨[], rfl, rfl⟩
  | cons e doc ih =>
    obtain ⟨doc', htext, hitem⟩ := ih
    obtain ⟨L, hL, hL'⟩ := e.1.ending e.2
    exact ⟨L :: doc', by simp [hL, htext], by simp [hL', hitem]⟩

theorem render_unbroken (doc : List (Line strtod × Ending)) (last : Option (Line strtod)) :
    Lines.Unbroken '\n' (doc.map fun e => e.1.text ++ e.2.before)
      ((last.map Line.text).getD []) := by
  constructor
  · intro l hl
    obtain ⟨⟨L, e⟩, _, rfl⟩ := List.mem_map.mp hl
    rw [List.mem_append]
    exact not_or.mpr ⟨L.one_line, e.one_line⟩
  · cases last with
    | none => exact List.not_mem_nil
    | some L => exact L.one_line

/-- The lines of a rendered document are a document with the same entries. -/
theorem writes_render (doc : List (Line strtod × Ending)) (last : Option (Line strtod)) :
    ∃ doc' : List (Line strtod), doc'.map Line.text = lines (render doc last) ∧
      entries doc' = entries (doc.map Prod.fst ++ last.toList) := by
  obtain ⟨doc', htext, hitem⟩ := exists_lines doc
  rw [lines, render, getLines_joined (render_unbroken doc last), List.map_append, ← htext]
  unfold entries
  cases last with
  | none => exact ⟨doc', by simp, by simp [hitem]⟩
  | some L =>
    by_cases hnil : L.text = []
    · refine ⟨doc', by simp [hnil], ?_⟩
      rw [hitem, List.map_append, Option.toList_some, List.map_singleton, L.item_of_nil hnil,
        entriesFrom_nothing]
    · obtain ⟨L', hL', hitem'⟩ := L.dropReturn_text
      exact ⟨doc' ++ [L'], by simp [hnil, hL'], by simp [hitem, hitem']⟩

theorem parse_render {doc : List (Line strtod × Ending)} {last : Option (Line strtod)}
    (h : (keys (entries (doc.map Prod.fst ++ last.toList))).Nodup) :
    parse strtod (render doc last) = { values := entries (doc.map Prod.fst ++ last.toList) } := by
  obtain ⟨doc', htext, hentries⟩ := writes_render doc last
  rw [← hentries] at h ⊢
  exact parse_of_writes ⟨htext, h⟩

end Render

/-! ## The parser and the grammar -/

/-- **The parser accepts its grammar.** A text is accepted when its lines are a
document, and the result is the entries of that document; a rejected one is
rejected at the first line that no document can have. Flattened keys tell tables
and keys apart, and a rendered document is read back. -/
theorem parse_exact (strtod : Strtod) (text : List Char) :
    ((parse strtod text).ok = true ↔ Valid strtod (lines text)) ∧
      (∀ doc : List (Line strtod), Writes doc (lines text) →
        (parse strtod text).values = entries doc) ∧
      ((parse strtod text).ok = false →
        ∃ k < (lines text).length, (parse strtod text).errorLine = k + 1 ∧
          Valid strtod ((lines text).take k) ∧ ¬ Valid strtod ((lines text).take (k + 1))) ∧
      (∀ (table table' : Option BareName) (key key' : BareName),
        flat (tableText table) key.text = flat (tableText table') key'.text →
        tableText table = tableText table' ∧ key.text = key'.text) ∧
      (∀ (doc : List (Line strtod × Ending)) (last : Option (Line strtod)),
        (keys (entries (doc.map Prod.fst ++ last.toList))).Nodup →
        parse strtod (render doc last) =
          { values := entries (doc.map Prod.fst ++ last.toList) }) := by
  refine ⟨parse_ok_iff, fun doc hdoc => ?_, parse_errorLine, fun _ _ _ _ => flat_injective,
    fun _ _ => parse_render⟩
  rw [parse_of_writes hdoc]

end Olv.Toml
