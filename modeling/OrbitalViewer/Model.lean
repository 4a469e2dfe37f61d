import OrbitalViewer.NetParse

/-!
# The frontend's model

`createModel` of `frontend/js/model.js`: the last state received, and the shapes
of it that the renderer and the panels show. A state replaces all that was there.
-/

namespace ClientModel
open NetParse (ObjectRow parseStateMessage)

/-- The variables `createModel` closes over; `null` is `none`. -/
structure Model where
  satellite : Option NetParse.Satellite := none
  objects : List ObjectRow := []
  lastDataTime : Option String := none
  serverTime : Option String := none
  stats : Option (List (String × Json.Value)) := none
  trailPoints : List NetParse.TrailPointRow := []
  lastAppliedAtMs : Option ℚ := none

structure Counts where
  debris : ℕ := 0
  star : ℕ := 0
  comet : ℕ := 0
  satellite : ℕ := 0
  groundHot : ℕ := 0
  unknown : ℕ := 0
  total : ℕ := 0
  deriving DecidableEq

/-- `counts[cat] += 1`, if `counts` has that property. -/
def Counts.bump (counts : Counts) (cat : String) : Counts :=
  if cat = "debris" then { counts with debris := counts.debris + 1 }
  else if cat = "star" then { counts with star := counts.star + 1 }
  else if cat = "comet" then { counts with comet := counts.comet + 1 }
  else if cat = "satellite" then { counts with satellite := counts.satellite + 1 }
  else if cat = "groundHot" then { counts with groundHot := counts.groundHot + 1 }
  else if cat = "unknown" then { counts with unknown := counts.unknown + 1 }
  else if cat = "total" then { counts with total := counts.total + 1 }
  else counts

structure ListRows where
  rows : List ObjectRow
  total : ℕ

namespace Model

def applyState (_ : Model) (msg : NetParse.State) (nowMs : ℚ) : Model where
  satellite := msg.satellite
  objects := msg.objects
  lastDataTime := msg.lastDataTime
  serverTime := some msg.serverTime
  stats := some msg.stats
  trailPoints := msg.trailPoints
  lastAppliedAtMs := some nowMs

/-- No filter, and an empty one, let everything through. The sort is stable. -/
def getListRows (m : Model) (filter : Option String) (cap : ℕ := 1000) : ListRows :=
  let filtered := match filter with
    | none => m.objects
    | some f => if f = "" then m.objects else m.objects.filter fun o => o.cat = f
  let filtered := filtered.mergeSort fun a b => a.id ≤ b.id
  ⟨filtered.take cap, filtered.length⟩

def getCounts (m : Model) : Counts :=
  m.objects.foldl (fun counts obj =>
    let counts := counts.bump obj.cat
    { counts with total := counts.total + 1 }) {}

/-- `none` is `Infinity`. -/
def secondsSinceLastState (m : Model) (nowMs : ℚ) : Option ℚ :=
  m.lastAppliedAtMs.map fun t => (nowMs - t) / 1000

/-- A frame of the current socket: `onState` applies it if it is a state. -/
def receive (m : Model) (frame : List Char × ℚ) : Model :=
  match parseStateMessage frame.1 with
  | .ok (.state s) => m.applyState s frame.2
  | _ => m

def run (frames : List (List Char × ℚ)) : Model := frames.foldl receive {}

end Model

/-! ## The categories of a state -/

def categories : List String := ["debris", "star", "comet", "satellite", "groundHot", "unknown"]

theorem categoryName_mem (cat : ℤ) :
    (NetParse.CATEGORY_NAMES.lookup cat).getD "unknown" ∈ categories := by
  have hnames : ∀ entry ∈ NetParse.CATEGORY_NAMES, entry.2 ∈ categories := by decide
  cases h : NetParse.CATEGORY_NAMES.lookup cat with
  | none => decide
  | some name =>
    obtain ⟨before, after, heq, _⟩ := List.lookup_eq_some_iff.mp h
    exact hnames (cat, name) (heq ▸ List.mem_append_right before (.head after))

/-- An object of any other category was made unknown. -/
theorem parseObjectRow_cat {index : ℕ} {row : Json.Value} {o : ObjectRow}
    (h : NetParse.parseObjectRow index row = .ok o) : o.cat ∈ categories := by
  unfold NetParse.parseObjectRow at h
  simp only [bind, Except.bind, pure, Except.pure, NetParse.violation] at h
  repeat' split at h
  all_goals cases h
  exact categoryName_mem _

theorem mapRows_forall {α : Type} {parse : ℕ → Json.Value → Except NetParse.ParseError α}
    {P : α → Prop} (hparse : ∀ index row a, parse index row = .ok a → P a) {rows : List Json.Value}
    {index : ℕ} {as : List α} (h : NetParse.mapRows parse index rows = .ok as) : ∀ a ∈ as, P a := by
  induction rows generalizing index as with
  | nil =>
    cases h
    exact fun a ha => absurd ha List.not_mem_nil
  | cons row rows ih =>
    simp only [NetParse.mapRows, bind, Except.bind, pure, Except.pure] at h
    split at h
    · cases h
    · rename_i a hrow
      split at h
      · cases h
      · rename_i rest hrest
        cases h
        intro b hb
        rcases List.mem_cons.mp hb with rfl | hb
        · exact hparse _ _ _ hrow
        · exact ih hrest b hb

theorem parseState_cat {msg : List (String × Json.Value)} {s : NetParse.State}
    (h : NetParse.parseState msg = .ok s) : ∀ o ∈ s.objects, o.cat ∈ categories := by
  unfold NetParse.parseState at h
  simp only [bind, Except.bind, pure, Except.pure, NetParse.violation] at h
  repeat' split at h
  all_goals cases h
  all_goals exact mapRows_forall (fun _ _ _ => parseObjectRow_cat) (by assumption)

theorem parseStateMessage_cat {data : List Char} {s : NetParse.State}
    (h : parseStateMessage data = .ok (.state s)) : ∀ o ∈ s.objects, o.cat ∈ categories := by
  unfold NetParse.parseStateMessage at h
  simp only [bind, Except.bind, pure, Except.pure, NetParse.violation] at h
  repeat' split at h
  all_goals cases h
  exact parseState_cat (by assumption)

/-! ## What the panels show -/

/-- The count shown with a category. -/
def Counts.of (counts : Counts) (cat : String) : ℕ :=
  if cat = "debris" then counts.debris
  else if cat = "star" then counts.star
  else if cat = "comet" then counts.comet
  else if cat = "satellite" then counts.satellite
  else if cat = "groundHot" then counts.groundHot
  else counts.unknown

theorem bump_of (counts : Counts) {name cat : String} (hname : name ∈ categories)
    (hcat : cat ∈ categories) : (counts.bump name).of cat = counts.of cat + if name = cat then 1 else 0 := by
  simp only [categories, List.mem_cons, List.not_mem_nil, or_false] at hname hcat
  rcases hname with rfl | rfl | rfl | rfl | rfl | rfl <;>
    rcases hcat with rfl | rfl | rfl | rfl | rfl | rfl <;> rfl

theorem bump_total (counts : Counts) {name : String} (hname : name ∈ categories) :
    (counts.bump name).total = counts.total := by
  simp only [categories, List.mem_cons, List.not_mem_nil, or_false] at hname
  rcases hname with rfl | rfl | rfl | rfl | rfl | rfl <;> rfl

/-- All that is counted but the total. -/
def Counts.sum (counts : Counts) : ℕ := (categories.map counts.of).sum

theorem bump_sum (counts : Counts) {name : String} (hname : name ∈ categories) :
    (counts.bump name).sum = counts.sum + 1 := by
  have hsum (counts : Counts) : counts.sum = counts.debris + (counts.star + (counts.comet +
      (counts.satellite + (counts.groundHot + (counts.unknown + 0))))) := rfl
  simp only [categories, List.mem_cons, List.not_mem_nil, or_false] at hname
  rw [hsum, hsum]
  rcases hname with rfl | rfl | rfl | rfl | rfl | rfl <;> simp [Counts.bump] <;> omega

namespace Model
variable {m : Model}

/-- Every object of the model is of a category that is counted. -/
def Categorized (m : Model) : Prop := ∀ o ∈ m.objects, o.cat ∈ categories

theorem Categorized.receive (h : m.Categorized) (frame : List Char × ℚ) :
    (m.receive frame).Categorized := by
  unfold Model.receive
  split
  · rename_i s hparse
    exact parseStateMessage_cat hparse
  · exact h

/-- What counting objects adds to the counts. -/
theorem counted {objects : List ObjectRow} (h : ∀ o ∈ objects, o.cat ∈ categories) (counts : Counts) :
    let counted := objects.foldl (fun counts obj =>
      let counts := counts.bump obj.cat
      { counts with total := counts.total + 1 }) counts
    counted.total = counts.total + objects.length ∧ counted.sum = counts.sum + objects.length ∧
      ∀ cat ∈ categories, counted.of cat = counts.of cat + objects.countP fun o => o.cat = cat := by
  induction objects generalizing counts with
  | nil => exact ⟨rfl, rfl, fun _ _ => rfl⟩
  | cons o objects ih =>
    have ho := h o (.head objects)
    have hbump := bump_total counts ho
    have hsum := bump_sum counts ho
    obtain ⟨next, hnext, hnexttotal, hnextsum, hnextof⟩ : ∃ next : Counts,
        { counts.bump o.cat with total := (counts.bump o.cat).total + 1 } = next ∧
        next.total = counts.total + 1 ∧ next.sum = counts.sum + 1 ∧
        ∀ cat, next.of cat = (counts.bump o.cat).of cat :=
      ⟨_, rfl, congrArg Nat.succ hbump, hsum, fun _ => rfl⟩
    obtain ⟨htotal, hsums, hof⟩ := ih (fun o ho => h o (.tail _ ho)) next
    simp only [List.foldl_cons, hnext]
    refine ⟨?_, ?_, fun cat hcat => ?_⟩
    · rw [htotal, hnexttotal, List.length_cons]
      omega
    · rw [hsums, hnextsum, List.length_cons]
      omega
    · rw [hof cat hcat, hnextof, bump_of counts ho hcat, List.countP_cons]
      simp only [decide_eq_true_eq]
      omega

theorem Categorized.getCounts (h : m.Categorized) :
    m.getCounts.total = m.objects.length ∧ m.getCounts.sum = m.objects.length ∧
    ∀ cat ∈ categories, m.getCounts.of cat = m.objects.countP fun o => o.cat = cat := by
  obtain ⟨htotal, hsum, hof⟩ := counted h {}
  refine ⟨htotal.trans (Nat.zero_add _), hsum.trans (Nat.zero_add _), fun cat hcat =>
    (hof cat hcat).trans ?_⟩
  have hzero : Counts.of {} cat = 0 := by
    unfold Counts.of
    repeat' split
    all_goals rfl
  rw [hzero, Nat.zero_add]

/-- The rows are the first of the filtered objects by id, and `total` counts all. -/
theorem getListRows_spec (m : Model) (filter : Option String) (cap : ℕ) :
    ∃ rest, ((m.getListRows filter cap).rows ++ rest).Perm (m.objects.filter fun o =>
        filter.all fun f => f = "" ∨ o.cat = f) ∧
      ((m.getListRows filter cap).rows ++ rest).Pairwise (fun a b => a.id ≤ b.id) ∧
      (m.getListRows filter cap).total = ((m.getListRows filter cap).rows ++ rest).length ∧
      (m.getListRows filter cap).rows.length = min cap (m.getListRows filter cap).total := by
  obtain ⟨filtered, hfiltered, hsame⟩ : ∃ filtered,
      m.getListRows filter cap = ⟨(filtered.mergeSort fun a b => a.id ≤ b.id).take cap,
        (filtered.mergeSort fun a b => a.id ≤ b.id).length⟩ ∧
      filtered = m.objects.filter fun o => filter.all fun f => f = "" ∨ o.cat = f := by
    cases filter with
    | none => exact ⟨m.objects, rfl, by simp⟩
    | some f =>
      by_cases hf : f = ""
      · refine ⟨m.objects, ?_, by simp [hf]⟩
        rw [getListRows, if_pos hf]
      · refine ⟨m.objects.filter fun o => o.cat = f, ?_, by simp [hf]⟩
        rw [getListRows, if_neg hf]
  rw [hfiltered, ← hsame]
  refine ⟨(filtered.mergeSort fun a b => a.id ≤ b.id).drop cap, ?_, ?_, ?_, ?_⟩
  · rw [List.take_append_drop]
    exact List.mergeSort_perm ..
  · rw [List.take_append_drop]
    have hsorted : (filtered.mergeSort fun a b => a.id ≤ b.id).Pairwise
        fun a b => decide (a.id ≤ b.id) = true :=
      List.pairwise_mergeSort (fun a b c => by simpa using le_trans)
        (fun a b => by simpa using le_total a.id b.id) filtered
    exact hsorted.imp of_decide_eq_true
  · rw [List.take_append_drop]
  · exact List.length_take

theorem run_categorized (frames : List (List Char × ℚ)) : (run frames).Categorized := by
  have hfold (m : Model) (h : m.Categorized) : (frames.foldl receive m).Categorized := by
    induction frames generalizing m with
    | nil => exact h
    | cons frame frames ih => exact ih _ (h.receive frame)
  exact hfold {} fun o ho => absurd ho List.not_mem_nil

/-- What the panels show of a model is consistent. -/
structure Consistent (m : Model) : Prop where
  objects : m.getCounts.total = m.objects.length
  sum : m.getCounts.sum = m.getCounts.total
  unfiltered : ∀ cap, (m.getListRows none cap).total = m.getCounts.total
  filtered : ∀ cat ∈ categories, ∀ cap, (m.getListRows (some cat) cap).total = m.getCounts.of cat
  /-- The rows are the first of the filtered objects, by id. -/
  rows : ∀ filter cap, ∃ rest,
    ((m.getListRows filter cap).rows ++ rest).Perm
      (m.objects.filter fun o => filter.all fun f => f = "" ∨ o.cat = f) ∧
    ((m.getListRows filter cap).rows ++ rest).Pairwise (fun a b => a.id ≤ b.id) ∧
    (m.getListRows filter cap).rows.length = min cap (m.getListRows filter cap).total

/-- **The panels agree**, after any frames, well formed or not. The six counts add
up to the total, which is the number of objects; the list under a category counts
what its count says, and shows the first `cap` of them by id. -/
theorem panels_agree (frames : List (List Char × ℚ)) : (Model.run frames).Consistent := by
  have hcat := run_categorized frames
  obtain ⟨htotal, hsum, hof⟩ := hcat.getCounts
  refine ⟨htotal, hsum.trans htotal.symm, fun cap => ?_, fun cat hmem cap => ?_,
    fun filter cap => ?_⟩
  · obtain ⟨rest, hperm, _, hlength, _⟩ := getListRows_spec (run frames) none cap
    rw [hlength, hperm.length_eq, htotal]
    simp
  · obtain ⟨rest, hperm, _, hlength, _⟩ := getListRows_spec (run frames) (some cat) cap
    have hne : cat ≠ "" := by
      rintro rfl
      exact absurd hmem (by decide)
    rw [hlength, hperm.length_eq, hof cat hmem, List.countP_eq_length_filter]
    simp [hne]
  · obtain ⟨rest, hperm, hsorted, _, hcap⟩ := getListRows_spec (run frames) filter cap
    exact ⟨rest, hperm, hsorted, hcap⟩

end Model

end ClientModel
