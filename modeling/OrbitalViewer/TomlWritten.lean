import OrbitalViewer.TomlDocument

/-!
# Values as they are written

The scanner with numbers left as their tokens. What a parser makes of the values
has no part in how a text is scanned: it accepts the texts that are scanned and
whose values it can all represent (`passes_written`).
-/

namespace Olv.Toml
open FirstFailure (Passes)

inductive Written
  | string (s : List Char)
  | boolean (b : Bool)
  | integer (token : List Char)
  | float (token : List Char)
  deriving DecidableEq

def writtenValues : Values Written where
  string := .string
  boolean := .boolean
  integer token := some (.integer token)
  float token := some (.float token)

section Read
variable {V : Type} (values : Values V)

/-- What a parser makes of a value. -/
def Values.read : Written → Option V
  | .string s => some (values.string s)
  | .boolean b => some (values.boolean b)
  | .integer token => values.integer token
  | .float token => values.float token

def Item.read : Item Written → Option (Item V)
  | .nothing => some .nothing
  | .header name => some (.header name)
  | .pair key w => (values.read w).map (.pair key)

/-- The same key, and the value read. -/
def ReadsAs (e : List Char × Written) (e' : List Char × V) : Prop :=
  e.1 = e'.1 ∧ values.read e.2 = some e'.2

/-! ## One line -/

theorem parseScalar_written (token : List Char) :
    (parseScalar values token).toOption =
      (parseScalar writtenValues token).toOption.bind values.read := by
  unfold parseScalar
  split
  · rfl
  · split
    · rfl
    · split
      · rfl
      · rename_i dot digit _
        cases digit with
        | false => rfl
        | true =>
          cases dot with
          | false =>
            dsimp only [writtenValues]
            cases h : values.integer token <;> exact h.symm
          | true =>
            dsimp only [writtenValues]
            cases h : values.float token <;> exact h.symm

theorem parseValue_written (key s : List Char) :
    (parseValue values key s).toOption =
      (parseValue writtenValues key s).toOption.bind fun r =>
        (values.read r.1).map fun v => (v, r.2) := by
  cases s with
  | nil => rfl
  | cons c t =>
    rw [parseValue, parseValue]
    split
    · rfl
    · split
      · cases parseQuotedString [] t <;> rfl
      · split
        · rfl
        · split
          · rfl
          · have hscalar := parseScalar_written values ((c :: t).takeWhile isTokenChar)
            revert hscalar
            generalize parseScalar values _ = a
            generalize parseScalar writtenValues _ = b
            intro hscalar
            cases b with
            | error e =>
              cases a with
              | error d => rfl
              | ok v => cases hscalar
            | ok w =>
              have hread : values.read w = a.toOption := hscalar.symm
              show _ = (values.read w).map _
              rw [hread]
              cases a <;> rfl

theorem parseHeader_written (s : List Char) :
    (parseHeader s : Except Complaint (Item V)).toOption =
      (parseHeader s : Except Complaint (Item Written)).toOption.bind (Item.read values) := by
  unfold parseHeader
  dsimp only
  split
  · rfl
  · split
    · rfl
    · split
      · rfl
      · split <;> rfl

/-- The end of a pair, after its value. -/
theorem pairEnd_toOption {W : Type} (key : List Char) (x : Except Complaint (W × List Char)) :
    (match x with
      | .error e => .error e
      | .ok (value, rest) =>
        if onlyTrailing rest then .ok (.pair key value) else .error .afterValue :
          Except Complaint (Item W)).toOption =
      x.toOption.bind fun r => if onlyTrailing r.2 then some (.pair key r.1) else none := by
  cases x with
  | error e => rfl
  | ok r =>
    dsimp only
    show _ = if onlyTrailing r.2 then some (Item.pair key r.1) else none
    split <;> rfl

theorem parsePair_written (s : List Char) :
    (parsePair values s).toOption =
      (parsePair writtenValues s).toOption.bind (Item.read values) := by
  unfold parsePair
  dsimp only
  split
  · rfl
  · split
    · rfl
    · rename_i c t _
      split
      · have hvalue := parseValue_written values (s.takeWhile isBareKeyChar) (skipSpace t)
        refine (pairEnd_toOption _ _).trans ?_
        refine Eq.trans ?_ (congrArg (·.bind (Item.read values)) (pairEnd_toOption _ _).symm)
        rw [hvalue, Option.bind_assoc, Option.bind_assoc]
        congr 1
        funext r
        obtain ⟨w, rest⟩ := r
        cases hread : values.read w <;> cases htrail : onlyTrailing rest <;>
          simp [Item.read, hread, htrail]
      · split <;> rfl

theorem parseLine_written (l : List Char) :
    (parseLine values l).toOption =
      (parseLine writtenValues l).toOption.bind (Item.read values) := by
  unfold parseLine
  split
  · rfl
  · rename_i c t _
    split
    · rfl
    · split
      · exact parseHeader_written values t
      · exact parsePair_written values (c :: t)

theorem toOption_eq_some {ε α : Type} {x : Except ε α} {a : α} :
    x.toOption = some a ↔ x = .ok a := by
  cases x with
  | error e => exact ⟨(fun h => nomatch h), fun h => nomatch h⟩
  | ok b =>
    constructor
    · exact fun h => congrArg Except.ok (Option.some.inj h)
    · exact fun h => congrArg some (Except.ok.inj h)

theorem parseLine_iff {l : List Char} {item' : Item V} :
    parseLine values l = .ok item' ↔
      ∃ item, parseLine writtenValues l = .ok item ∧ item.read values = some item' := by
  rw [← toOption_eq_some, parseLine_written, Option.bind_eq_some_iff]
  simp only [toOption_eq_some]

/-! ## Lines in order -/

theorem Item.read_table {item : Item Written} {item' : Item V} (h : item.read values = some item')
    (table : List Char) : item'.table table = item.table table := by
  cases item with
  | nothing =>
    obtain rfl := Option.some.inj h
    rfl
  | header name =>
    obtain rfl := Option.some.inj h
    rfl
  | pair key w =>
    obtain ⟨v, _, rfl⟩ := Option.map_eq_some_iff.mp h
    rfl

/-- The entries of a line are read if and only if the line is. -/
theorem Item.read_entry {item : Item Written} {table : List Char} {es' : List (List Char × V)} :
    List.Forall₂ (ReadsAs values) (item.entry table) es' ↔
      ∃ item', item.read values = some item' ∧ item'.entry table = es' := by
  cases item with
  | nothing => simp [Item.entry, Item.read, eq_comm]
  | header name => simp [Item.entry, Item.read, eq_comm]
  | pair key w =>
    constructor
    · intro h
      obtain ⟨⟨k, v⟩, es, ⟨hk, hread⟩, hnil, rfl⟩ := List.forall₂_cons_left_iff.mp h
      obtain rfl := List.forall₂_nil_left_iff.mp hnil
      obtain rfl : flat table key = k := hk
      exact ⟨.pair key v, congrArg (Option.map _) hread, rfl⟩
    · rintro ⟨item', hread, rfl⟩
      obtain ⟨v, hv, rfl⟩ := Option.map_eq_some_iff.mp hread
      exact .cons ⟨rfl, hv⟩ .nil

theorem forall₂_append_left {α β : Type} {R : α → β → Prop} {xs₁ xs₂ : List α} {ys : List β}
    (h : List.Forall₂ R (xs₁ ++ xs₂) ys) :
    ∃ ys₁ ys₂, List.Forall₂ R xs₁ ys₁ ∧ List.Forall₂ R xs₂ ys₂ ∧ ys₁ ++ ys₂ = ys := by
  induction xs₁ generalizing ys with
  | nil => exact ⟨[], ys, .nil, h, rfl⟩
  | cons x xs₁ ih =>
    obtain ⟨y, ys, hxy, hrest, rfl⟩ := List.forall₂_cons_left_iff.mp h
    obtain ⟨ys₁, ys₂, h₁, h₂, rfl⟩ := ih hrest
    exact ⟨y :: ys₁, ys₂, .cons hxy h₁, h₂, rfl⟩

theorem entries_read {items : List (Item Written)} {table : List Char}
    {es' : List (List Char × V)} :
    List.Forall₂ (ReadsAs values) (entriesFrom table items) es' ↔
      ∃ items', List.Forall₂ (fun a b => Item.read values a = some b) items items' ∧
        entriesFrom table items' = es' := by
  induction items generalizing table es' with
  | nil => simp [entriesFrom, eq_comm]
  | cons item items ih =>
    rw [entriesFrom]
    constructor
    · intro h
      obtain ⟨es₁, es₂, h₁, h₂, rfl⟩ := forall₂_append_left h
      obtain ⟨item', hitem, rfl⟩ := (Item.read_entry values).mp h₁
      obtain ⟨items', hitems, rfl⟩ := ih.mp h₂
      refine ⟨item' :: items', .cons hitem hitems, ?_⟩
      rw [entriesFrom, Item.read_table values hitem]
    · rintro ⟨items', hitems, rfl⟩
      obtain ⟨item', items'', hitem, hrest, rfl⟩ := List.forall₂_cons_left_iff.mp hitems
      rw [entriesFrom, Item.read_table values hitem]
      exact List.rel_append ((Item.read_entry values).mpr ⟨item', hitem, rfl⟩) (ih.mpr ⟨items'', hrest, rfl⟩)

theorem reads_written {ls : List (List Char)} {items' : List (Item V)} :
    Reads values ls items' ↔
      ∃ items, Reads writtenValues ls items ∧
        List.Forall₂ (fun a b => Item.read values a = some b) items items' := by
  induction ls generalizing items' with
  | nil => simp [Reads]
  | cons l ls ih =>
    constructor
    · intro h
      obtain ⟨item', items', hline, hrest, rfl⟩ := List.forall₂_cons_left_iff.mp h
      obtain ⟨item, hitem, hread⟩ := (parseLine_iff values).mp hline
      obtain ⟨items, hitems, hreads⟩ := ih.mp hrest
      exact ⟨item :: items, .cons hitem hitems, .cons hread hreads⟩
    · rintro ⟨items, h, hreads⟩
      obtain ⟨item, items, hline, hrest, rfl⟩ := List.forall₂_cons_left_iff.mp h
      obtain ⟨item', items', hread, hlater, rfl⟩ := List.forall₂_cons_left_iff.mp hreads
      exact .cons ((parseLine_iff values).mpr ⟨item, hline, hread⟩) (ih.mpr ⟨items, hrest, hlater⟩)

theorem keys_readsAs {es : List (List Char × Written)} {es' : List (List Char × V)}
    (h : List.Forall₂ (ReadsAs values) es es') : keys es = keys es' := by
  induction h with
  | nil => rfl
  | cons he _ ih => exact congrArg₂ List.cons he.1 ih

theorem passes_start {ls : List (List Char)} {table : List Char} {es : List (List Char × V)} :
    Passes (step values) {} ls ⟨table, es⟩ ↔
      ∃ items, Reads values ls items ∧ (keys es).Nodup ∧ table = tableAfter [] items ∧
        es = entriesFrom [] items := by
  have hstart : (keys (State.values ({} : State V))).Nodup := List.nodup_nil
  rw [passes_iff hstart]
  constructor
  · rintro ⟨items, hreads, hnodup, hend⟩
    obtain ⟨htable, rfl⟩ := State.mk.inj hend
    exact ⟨items, hreads, hnodup, htable, rfl⟩
  · rintro ⟨items, hreads, hnodup, rfl, rfl⟩
    exact ⟨items, hreads, hnodup, rfl⟩

/-- **A text is scanned and then its values are read.** -/
theorem passes_written {ls : List (List Char)} {es' : List (List Char × V)} :
    (∃ table, Passes (step values) {} ls ⟨table, es'⟩) ↔
      ∃ table es, Passes (step writtenValues) {} ls ⟨table, es⟩ ∧
        List.Forall₂ (ReadsAs values) es es' := by
  constructor
  · rintro ⟨table, h⟩
    obtain ⟨items', hreads', hnodup, _, rfl⟩ := (passes_start values).mp h
    obtain ⟨items, hreads, hitems⟩ := (reads_written values).mp hreads'
    have hentries : List.Forall₂ (ReadsAs values) (entriesFrom [] items) (entriesFrom [] items') :=
      (entries_read values).mpr ⟨items', hitems, rfl⟩
    rw [← keys_readsAs values hentries] at hnodup
    exact ⟨_, _, (passes_start writtenValues).mpr ⟨items, hreads, hnodup, rfl, rfl⟩, hentries⟩
  · rintro ⟨table, es, h, hentries⟩
    obtain ⟨items, hreads, hnodup, _, rfl⟩ := (passes_start writtenValues).mp h
    rw [keys_readsAs values hentries] at hnodup
    obtain ⟨items', hitems, rfl⟩ := (entries_read values).mp hentries
    have hreads' := (reads_written values).mpr ⟨items, hreads, hitems⟩
    exact ⟨_, (passes_start values).mpr ⟨items', hreads', hnodup, rfl, rfl⟩⟩

end Read

/-! ## One key -/

/-- The text gives this value to this key and says nothing else. -/
structure Says (text key : List Char) (w : Written) : Prop where
  accepted : (FirstFailure.run (step writtenValues) 0 {} (lines text)).failure = none
  values : (FirstFailure.run (step writtenValues) 0 {} (lines text)).state.values = [(key, w)]

section Says
variable {strtod : Strtod} {text key : List Char} {w : Written}

theorem Says.passes (h : Says text key w) :
    ∃ table, Passes (step writtenValues) {} (lines text) ⟨table, [(key, w)]⟩ := by
  have hpass := FirstFailure.passes_of_run h.accepted
  refine ⟨(FirstFailure.run (step writtenValues) 0 {} (lines text)).state.table, ?_⟩
  rw [← h.values]
  exact hpass

theorem Says.parse_ok (h : Says text key w) {v : Value} (hv : (cppValues strtod).read w = some v) :
    parse strtod text = { values := [(key, v)] } := by
  obtain ⟨table, hpass⟩ := h.passes
  obtain ⟨table', hcpp⟩ := (passes_written (cppValues strtod)).mpr
    ⟨table, _, hpass, .cons (show ReadsAs _ _ (key, v) from ⟨rfl, hv⟩) .nil⟩
  rw [parse, FirstFailure.run_passes 0 hcpp]
  rfl

theorem Says.parse_error (h : Says text key w) (hw : (cppValues strtod).read w = none) :
    (parse strtod text).ok = false := by
  rw [Bool.eq_false_iff]
  intro hok
  have hcpp := FirstFailure.passes_of_run ((ok_ofOutcome _).mp hok)
  obtain ⟨table, hpass⟩ := h.passes
  obtain ⟨table', es, hwritten, hentries⟩ := (passes_written (cppValues strtod)).mp ⟨_, hcpp⟩
  obtain ⟨_, rfl⟩ := State.mk.inj (Except.ok.inj (hpass.symm.trans hwritten))
  obtain ⟨_, _, ⟨_, hread⟩, _⟩ := List.forall₂_cons_left_iff.mp hentries
  exact nomatch hw.symm.trans hread

end Says
end Olv.Toml
