import Mathlib

/-!
# High-water marks

A reader keeps one mark a key and lets an item through when all of it lies above
its key's mark, which then rises to the item's top. What it lets through is
ordered key by key (`passed_pairwise`) and depends only on the order within each
key (`passed_filter`), so that interleaving the keys differently permutes it
(`perm_of_filter`).

A mark may be sent as a serial number: an unbounded index is stamped with its low
`w` bits, from any start. Two stamps whose indices are less than `2 ^ (w - 1)`
apart compare as the indices do, when their difference is read as a signed number.
-/

namespace Serial

variable {w : Nat}

def stamp (start : BitVec w) (k : Nat) : BitVec w := start + BitVec.ofNat w k

@[simp] theorem stamp_zero (start : BitVec w) : stamp start 0 = start := BitVec.add_zero start

theorem stamp_add (start : BitVec w) (j k : Nat) : stamp (stamp start j) k = stamp start (j + k) := by
  rw [stamp, stamp, stamp, BitVec.add_assoc, BitVec.ofNat_add]

theorem stamp_sub_stamp (start : BitVec w) (j k : Nat) :
    stamp start k - stamp start j = BitVec.ofInt w (k - j) := by
  apply BitVec.eq_of_toInt_eq
  simp [stamp, BitVec.toInt_sub, BitVec.toInt_ofInt, BitVec.toInt_ofNat']

/-- **The signed difference** of two stamps is the difference of their indices. -/
theorem toInt_stamp_sub (start : BitVec w) {j k : Nat} (hw : 0 < w) (hk : k < j + 2 ^ (w - 1))
    (hj : j < k + 2 ^ (w - 1)) : (stamp start k - stamp start j).toInt = (k : Int) - j := by
  have hhalf : (2 : Int) ^ w = 2 * 2 ^ (w - 1) := by
    rw [← pow_succ', Nat.sub_add_cancel hw]
  rw [stamp_sub_stamp, BitVec.toInt_ofInt]
  zify at hk hj
  apply Int.bmod_eq_of_le <;> push_cast <;> omega

end Serial

namespace HighWater

variable {ι K α : Type} [DecidableEq K] [LinearOrder α] (key : ι → K) (lo hi : ι → α)

def Fresh (mark : K → Option α) (x : ι) : Prop := ∀ m ∈ mark (key x), m < lo x

instance (mark : K → Option α) (x : ι) : Decidable (Fresh key lo mark x) :=
  match h : mark (key x) with
  | none => isTrue fun m hm => by rw [h] at hm; cases hm
  | some m => decidable_of_iff (m < lo x) (by simp [Fresh, h])

def raise (mark : K → Option α) (x : ι) : K → Option α := Function.update mark (key x) (some (hi x))

/-- What a reader that starts at `mark` lets through. -/
def passed (mark : K → Option α) : List ι → List ι
  | [] => []
  | x :: xs =>
    if Fresh key lo mark x then x :: passed (raise key hi mark x) xs else passed mark xs

/-- The marks after reading. -/
def marks (mark : K → Option α) : List ι → K → Option α
  | [] => mark
  | x :: xs => if Fresh key lo mark x then marks (raise key hi mark x) xs else marks mark xs

variable {key lo hi}

theorem passed_append (mark : K → Option α) (xs ys : List ι) :
    passed key lo hi mark (xs ++ ys) =
      passed key lo hi mark xs ++ passed key lo hi (marks key lo hi mark xs) ys := by
  induction xs generalizing mark with
  | nil => rfl
  | cons x xs ih =>
    simp only [List.cons_append, passed, marks]
    split
    · rw [ih, List.cons_append]
    · exact ih mark

theorem passed_sublist (mark : K → Option α) (xs : List ι) :
    (passed key lo hi mark xs).Sublist xs := by
  induction xs generalizing mark with
  | nil => exact List.Sublist.refl _
  | cons x xs ih =>
    simp only [passed]
    split
    · exact (ih _).cons_cons x
    · exact (ih _).cons x

/-- A key's mark is the top of the last item it let through. -/
theorem marks_eq (mark : K → Option α) (xs : List ι) (k : K) :
    marks key lo hi mark xs k =
      (((passed key lo hi mark xs).filter (key · = k)).getLast?.map hi).or (mark k) := by
  induction xs generalizing mark with
  | nil => rfl
  | cons x xs ih =>
    simp only [passed, marks]
    split
    · rw [ih]
      by_cases hk : key x = k
      · have hraise : raise key hi mark x k = some (hi x) := by
          subst hk
          exact Function.update_self ..
        rw [List.filter_cons_of_pos (by simpa using hk), List.getLast?_cons, hraise]
        cases ((passed key lo hi (raise key hi mark x) xs).filter (key · = k)).getLast? <;> rfl
      · have hraise : raise key hi mark x k = mark k := Function.update_of_ne (Ne.symm hk) ..
        rw [List.filter_cons_of_neg (by simpa using hk), hraise]
    · exact ih mark

/-- Only the mark of the items' own key matters. -/
theorem passed_congr {mark mark' : K → Option α} {k : K} (h : mark k = mark' k) (xs : List ι)
    (hk : ∀ x ∈ xs, key x = k) : passed key lo hi mark xs = passed key lo hi mark' xs := by
  induction xs generalizing mark mark' with
  | nil => rfl
  | cons x xs ih =>
    have hx : key x = k := hk x List.mem_cons_self
    have hxs : ∀ y ∈ xs, key y = k := fun y hy => hk y (List.mem_cons_of_mem x hy)
    have hfresh : Fresh key lo mark x ↔ Fresh key lo mark' x := by simp only [Fresh, hx, h]
    have hraise : raise key hi mark x k = raise key hi mark' x k := by
      simp only [raise, hx, Function.update_self]
    simp only [passed, hfresh, ih h hxs, ih hraise hxs]

/-- **Only the order within a key matters.** -/
theorem passed_filter (mark : K → Option α) (xs : List ι) (k : K) :
    (passed key lo hi mark xs).filter (key · = k) =
      passed key lo hi mark (xs.filter (key · = k)) := by
  induction xs generalizing mark with
  | nil => rfl
  | cons x xs ih =>
    by_cases hk : key x = k
    · simp only [List.filter_cons, hk, decide_true, if_true, passed]
      split
      · rw [List.filter_cons_of_pos (by simpa using hk), ih]
      · exact ih mark
    · have hsame : passed key lo hi (raise key hi mark x) (xs.filter (key · = k)) =
          passed key lo hi mark (xs.filter (key · = k)) :=
        passed_congr (Function.update_of_ne (Ne.symm hk) ..) _
          fun y hy => of_decide_eq_true (List.mem_filter.mp hy).2
      simp only [List.filter_cons, hk, decide_false, Bool.false_eq_true, if_false, passed]
      split
      · rw [List.filter_cons_of_neg (by simpa using hk), ih, hsame]
      · exact ih mark

theorem mark_lt_of_mem {mark : K → Option α} {xs : List ι} (hspan : ∀ x ∈ xs, lo x ≤ hi x) {x : ι}
    (hx : x ∈ passed key lo hi mark xs) : ∀ m ∈ mark (key x), m < lo x := by
  induction xs generalizing mark with
  | nil => cases hx
  | cons y xs ih =>
    have hrest : ∀ x ∈ xs, lo x ≤ hi x := fun x hx => hspan x (List.mem_cons_of_mem y hx)
    intro m hm
    simp only [passed] at hx
    split at hx
    · rename_i hy
      rcases List.mem_cons.mp hx with rfl | hx
      · exact hy m hm
      · by_cases hk : key x = key y
        · have htop : hi y < lo x :=
            ih hrest hx (hi y) (by rw [hk]; exact Function.update_self ..)
          have hbelow : lo y ≤ hi y := hspan y List.mem_cons_self
          exact ((hy m (hk ▸ hm)).trans_le hbelow).trans htop
        · exact ih hrest hx m (by rw [raise, Function.update_of_ne hk]; exact hm)
    · exact ih hrest hx m hm

/-- Of two items of a key that pass, the second lies above the first. -/
theorem passed_pairwise (mark : K → Option α) {xs : List ι} (hspan : ∀ x ∈ xs, lo x ≤ hi x) :
    (passed key lo hi mark xs).Pairwise fun x y => key x = key y → hi x < lo y := by
  induction xs generalizing mark with
  | nil => exact List.Pairwise.nil
  | cons x xs ih =>
    have hrest : ∀ x ∈ xs, lo x ≤ hi x := fun y hy => hspan y (List.mem_cons_of_mem x hy)
    simp only [passed]
    split
    · refine List.pairwise_cons.mpr ⟨fun y hy hk => ?_, ih _ hrest⟩
      exact mark_lt_of_mem hrest hy (hi x) (by rw [← hk]; exact Function.update_self ..)
    · exact ih mark hrest

/-- Items that ascend within each key all pass. -/
theorem passed_eq_self {mark : K → Option α} {xs : List ι} (hfresh : ∀ x ∈ xs, Fresh key lo mark x)
    (h : xs.Pairwise fun x y => key x = key y → hi x < lo y) : passed key lo hi mark xs = xs := by
  induction xs generalizing mark with
  | nil => rfl
  | cons x xs ih =>
    obtain ⟨habove, hrest⟩ := List.pairwise_cons.mp h
    rw [passed, if_pos (hfresh x List.mem_cons_self), ih (fun y hy => ?_) hrest]
    intro m hm
    by_cases hk : key y = key x
    · rw [raise, hk, Function.update_self] at hm
      exact Option.some.inj hm ▸ habove y hy hk.symm
    · rw [raise, Function.update_of_ne hk] at hm
      exact hfresh y (List.mem_cons_of_mem x hy) m hm

/-- The last item of a key that passes tops everything of the key that did. -/
theorem le_last {xs : List ι} (hspan : ∀ x ∈ xs, lo x ≤ hi x) {mark : K → Option α} {x y : ι}
    (hx : x ∈ passed key lo hi mark xs)
    (hy : ((passed key lo hi mark xs).filter (key · = key x)).getLast? = some y) : hi x ≤ hi y := by
  have hmem : x ∈ (passed key lo hi mark xs).filter (key · = key x) :=
    List.mem_filter.mpr ⟨hx, by simp⟩
  obtain ⟨front, hfront⟩ := List.getLast?_eq_some_iff.mp hy
  have hpassed : (passed key lo hi mark xs).Pairwise fun x y => key x = key y → hi x < lo y :=
    passed_pairwise mark hspan
  have hpair := hpassed.sublist (List.filter_sublist (p := fun z => decide (key z = key x)))
  have hylast : y ∈ (passed key lo hi mark xs).filter (key · = key x) := List.mem_of_getLast? hy
  obtain ⟨hypassed, hykey⟩ := List.mem_filter.mp hylast
  rw [hfront] at hmem hpair
  rcases List.mem_append.mp hmem with h | h
  · have hlt := (List.pairwise_append.mp hpair).2.2 x h y List.mem_cons_self
      (of_decide_eq_true hykey).symm
    exact (hlt.trans_le (hspan y ((passed_sublist mark xs).subset hypassed))).le
  · rw [List.mem_singleton.mp h]

/-- An item passes exactly when it lies above everything of its key that did. -/
theorem fresh_iff {xs : List ι} (hspan : ∀ x ∈ xs, lo x ≤ hi x) (x : ι) :
    Fresh key lo (marks key lo hi (fun _ => none) xs) x ↔
      ∀ y ∈ passed key lo hi (fun _ => none) xs, key y = key x → hi y < lo x := by
  simp only [Fresh, marks_eq, Option.or_none, Option.mem_def, Option.map_eq_some_iff,
    forall_exists_index, and_imp, forall_apply_eq_imp_iff₂]
  constructor
  · intro h y hy hk
    have hmem : y ∈ (passed key lo hi (fun _ => none) xs).filter (key · = key y) :=
      List.mem_filter.mpr ⟨hy, by simp⟩
    obtain ⟨z, hz⟩ := Option.isSome_iff_exists.mp
      (List.getLast?_isSome.mpr (List.ne_nil_of_mem hmem))
    exact (le_last hspan hy hz).trans_lt (h z (hk ▸ hz))
  · intro h y hy
    obtain ⟨hmem, hk⟩ := List.mem_filter.mp (List.mem_of_getLast? hy)
    exact h y hmem (of_decide_eq_true hk)

/-- Lists that agree key by key are permutations of each other. -/
theorem perm_of_filter {xs ys : List ι}
    (h : ∀ k, xs.filter (key · = k) = ys.filter (key · = k)) : xs.Perm ys := by
  classical
  apply List.perm_iff_count.mpr
  intro x
  have hcount (zs : List ι) : zs.count x = (zs.filter (key · = key x)).count x :=
    (List.count_filter (by simp)).symm
  rw [hcount xs, hcount ys, h]

end HighWater
