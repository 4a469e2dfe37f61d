import Mathlib

/-!
# Ordered maps

An association list in the order of its keys, with a comparison that is only
asked which of two keys comes first. Keys that compare equal are one key. A map
filled item by item (`collect`) groups the items by key: every entry folds the
items of its key in their order (`valueAt_collect`), and the entries ascend
(`collect_ascending`).
-/

namespace OrderedMap

variable {K V α : Type}

section Operations
variable (before : K → K → Bool)

/-- The value at `k` changed by `f`, from `fresh` when there is none. -/
def upsert (fresh : V) (k : K) (f : V → V) : List (K × V) → List (K × V)
  | [] => [(k, f fresh)]
  | e :: m =>
    if before e.1 k then e :: upsert fresh k f m
    else if before k e.1 then (k, f fresh) :: e :: m
    else (e.1, f e.2) :: m

/-- A map filled item by item. -/
def collect (fresh : V) (key : α → K) (add : V → α → V) (xs : List α) : List (K × V) :=
  xs.foldl (fun m x => upsert before fresh (key x) (fun v => add v x) m) []

end Operations

variable {R : Type} [LinearOrder R]

/-- On the keys in `S`, the comparison is that of their ranks. -/
def Ranks (before : K → K → Bool) (rank : K → R) (S : Set K) : Prop :=
  ∀ a ∈ S, ∀ b ∈ S, before a b = true ↔ rank a < rank b

/-- Keys in `S`, in ascending order. -/
structure Ascending (rank : K → R) (S : Set K) (m : List (K × V)) : Prop where
  mem : ∀ e ∈ m, e.1 ∈ S
  ranks : m.Pairwise fun a b => rank a.1 < rank b.1

/-- The entry of the key with rank `r`. -/
def entryAt (rank : K → R) (r : R) (m : List (K × V)) : Option (K × V) :=
  m.find? fun e => rank e.1 = r

/-- The value of the key with rank `r`. -/
def valueAt (rank : K → R) (r : R) (m : List (K × V)) : Option V :=
  (m.find? fun e => rank e.1 = r).map Prod.snd

section Upsert
variable {before : K → K → Bool} {rank : K → R} {S : Set K}

theorem rank_upsert (fresh : V) (k : K) (f : V → V) (m : List (K × V)) :
    ∀ e ∈ upsert before fresh k f m, e.1 = k ∨ ∃ e' ∈ m, e'.1 = e.1 := by
  induction m with
  | nil =>
    intro e he
    exact .inl (List.mem_singleton.mp he ▸ rfl)
  | cons a m ih =>
    intro e he
    rw [upsert] at he
    split at he
    · rcases List.mem_cons.mp he with rfl | he
      · exact .inr ⟨e, List.mem_cons_self, rfl⟩
      · rcases ih e he with hk | ⟨e', he', hkey⟩
        · exact .inl hk
        · exact .inr ⟨e', List.mem_cons_of_mem a he', hkey⟩
    · split at he
      · rcases List.mem_cons.mp he with rfl | he
        · exact .inl rfl
        · exact .inr ⟨e, he, rfl⟩
      · rcases List.mem_cons.mp he with rfl | he
        · exact .inr ⟨a, List.mem_cons_self, rfl⟩
        · exact .inr ⟨e, List.mem_cons_of_mem a he, rfl⟩

/-- What holds of every value, and is kept by `f`. -/
theorem forall_upsert {P : V → Prop} {fresh : V} {f : V → V} (hf : ∀ v, P v → P (f v))
    (hfresh : P fresh) (k : K) {m : List (K × V)} (hm : ∀ e ∈ m, P e.2) :
    ∀ e ∈ upsert before fresh k f m, P e.2 := by
  induction m with
  | nil =>
    intro e he
    exact List.mem_singleton.mp he ▸ hf fresh hfresh
  | cons a m ih =>
    obtain ⟨ha, hrest⟩ := List.forall_mem_cons.mp hm
    rw [upsert]
    split
    · exact List.forall_mem_cons.mpr ⟨ha, ih hrest⟩
    · split
      · exact List.forall_mem_cons.mpr ⟨hf fresh hfresh, hm⟩
      · exact List.forall_mem_cons.mpr ⟨hf a.2 ha, hrest⟩

theorem Ascending.upsert (hrank : Ranks before rank S) (fresh : V) {k : K} (hk : k ∈ S) (f : V → V)
    {m : List (K × V)} (h : Ascending rank S m) :
    Ascending rank S (upsert before fresh k f m) := by
  constructor
  · intro e he
    rcases rank_upsert fresh k f m e he with rfl | ⟨e', he', hkey⟩
    · exact hk
    · exact hkey ▸ h.mem e' he'
  · induction m with
    | nil => exact List.pairwise_singleton _ _
    | cons a m ih =>
      obtain ⟨habove, hrest⟩ := List.pairwise_cons.mp h.ranks
      have ha : a.1 ∈ S := h.mem a List.mem_cons_self
      rw [OrderedMap.upsert]
      by_cases hbefore : before a.1 k = true
      · rw [if_pos hbefore]
        refine List.pairwise_cons.mpr ⟨fun e he => ?_,
          ih ⟨fun e he => h.mem e (List.mem_cons_of_mem a he), hrest⟩⟩
        rcases rank_upsert fresh k f m e he with rfl | ⟨e', he', hkey⟩
        · exact (hrank _ ha _ hk).mp hbefore
        · exact hkey ▸ habove e' he'
      · rw [if_neg hbefore]
        by_cases hafter : before k a.1 = true
        · rw [if_pos hafter]
          have hlt : rank k < rank a.1 := (hrank _ hk _ ha).mp hafter
          refine List.pairwise_cons.mpr ⟨fun e he => ?_, h.ranks⟩
          rcases List.mem_cons.mp he with rfl | he
          · exact hlt
          · exact hlt.trans (habove e he)
        · rw [if_neg hafter]
          exact List.pairwise_cons.mpr ⟨habove, hrest⟩

theorem entryAt_cons (r : R) (e : K × V) (m : List (K × V)) :
    entryAt rank r (e :: m) = if rank e.1 = r then some e else entryAt rank r m := by
  unfold entryAt
  rw [List.find?_cons]
  by_cases h : rank e.1 = r <;> simp [h]

theorem entryAt_none {r : R} {m : List (K × V)} (h : ∀ e ∈ m, rank e.1 ≠ r) :
    entryAt rank r m = none := List.find?_eq_none.mpr (by simpa using h)

theorem valueAt_cons (r : R) (e : K × V) (m : List (K × V)) :
    valueAt rank r (e :: m) = if rank e.1 = r then some e.2 else valueAt rank r m := by
  refine (congrArg (Option.map Prod.snd) (entryAt_cons r e m)).trans ?_
  split <;> rfl

/-- No entry lies at a rank below all of them. -/
theorem valueAt_none {r : R} {m : List (K × V)} (h : ∀ e ∈ m, rank e.1 ≠ r) :
    valueAt rank r m = none := congrArg (Option.map Prod.snd) (entryAt_none h)

theorem Ascending.tail {a : K × V} {m : List (K × V)} (h : Ascending rank S (a :: m)) :
    (∀ e ∈ m, rank a.1 < rank e.1) ∧ Ascending rank S m :=
  have hranks := List.pairwise_cons.mp h.ranks
  ⟨hranks.1, fun e he => h.mem e (List.mem_cons_of_mem a he), hranks.2⟩

theorem Ascending.entryAt_mem {m : List (K × V)} (h : Ascending rank S m) {e : K × V}
    (he : e ∈ m) : entryAt rank (rank e.1) m = some e := by
  induction m with
  | nil => cases he
  | cons a m ih =>
    obtain ⟨habove, htail⟩ := h.tail
    rw [entryAt_cons]
    rcases List.mem_cons.mp he with rfl | he
    · exact if_pos rfl
    · rw [if_neg (habove e he).ne, ih htail he]

/-- Maps are the same when they have the same entry at every rank. -/
theorem Ascending.ext {m m' : List (K × V)} (h : Ascending rank S m) (h' : Ascending rank S m')
    (hsame : ∀ r, entryAt rank r m = entryAt rank r m') : m = m' := by
  induction m generalizing m' with
  | nil =>
    cases m' with
    | nil => rfl
    | cons b m' => exact nomatch (hsame (rank b.1)).trans (h'.entryAt_mem List.mem_cons_self)
  | cons a m ih =>
    cases m' with
    | nil => exact nomatch (hsame (rank a.1)).symm.trans (h.entryAt_mem List.mem_cons_self)
    | cons b m' =>
      obtain ⟨ha, hm⟩ := h.tail
      obtain ⟨hb, hm'⟩ := h'.tail
      have hain := (hsame (rank a.1)).symm.trans (h.entryAt_mem List.mem_cons_self)
      have hbin := (hsame (rank b.1)).trans (h'.entryAt_mem List.mem_cons_self)
      have hrank : rank a.1 = rank b.1 := by
        rcases lt_trichotomy (rank a.1) (rank b.1) with hlt | heq | hgt
        · have hnone : ∀ e ∈ b :: m', rank e.1 ≠ rank a.1 :=
            List.forall_mem_cons.mpr ⟨hlt.ne', fun e he => (hlt.trans (hb e he)).ne'⟩
          exact nomatch (entryAt_none hnone).symm.trans hain
        · exact heq
        · have hnone : ∀ e ∈ a :: m, rank e.1 ≠ rank b.1 :=
            List.forall_mem_cons.mpr ⟨hgt.ne', fun e he => (hgt.trans (ha e he)).ne'⟩
          exact nomatch (entryAt_none hnone).symm.trans hbin
      rw [entryAt_cons, if_pos hrank.symm] at hain
      obtain rfl := Option.some.inj hain
      refine congrArg (b :: ·) (ih hm hm' fun r => ?_)
      have hr := hsame r
      rw [entryAt_cons, entryAt_cons] at hr
      by_cases hfirst : rank b.1 = r
      · rw [entryAt_none fun e he => hfirst ▸ (ha e he).ne',
          entryAt_none fun e he => hfirst ▸ (hb e he).ne']
      · rwa [if_neg hfirst, if_neg hfirst] at hr

theorem entryAt_upsert (hrank : Ranks before rank S) (fresh : V) {k : K} (hk : k ∈ S) (f : V → V)
    {m : List (K × V)} (h : Ascending rank S m) (r : R) :
    entryAt rank r (upsert before fresh k f m) =
      if rank k = r then
        let e := (entryAt rank r m).getD (k, fresh)
        some (e.1, f e.2)
      else entryAt rank r m := by
  induction m with
  | nil => exact entryAt_cons r _ []
  | cons a m ih =>
    obtain ⟨habove, htail⟩ := h.tail
    have ha : a.1 ∈ S := h.mem a List.mem_cons_self
    rw [upsert]
    by_cases hbefore : before a.1 k = true
    · have hlt : rank a.1 < rank k := (hrank _ ha _ hk).mp hbefore
      rw [if_pos hbefore, entryAt_cons, entryAt_cons, ih htail]
      by_cases hr : rank a.1 = r
      · rw [if_pos hr, if_neg (by rw [← hr]; exact hlt.ne'), if_pos hr]
      · rw [if_neg hr, if_neg hr]
    · rw [if_neg hbefore]
      by_cases hafter : before k a.1 = true
      · have hlt : rank k < rank a.1 := (hrank _ hk _ ha).mp hafter
        rw [if_pos hafter, entryAt_cons]
        by_cases hr : rank k = r
        · have hnone : entryAt rank r (a :: m) = none := by
            apply entryAt_none
            intro e he
            rcases List.mem_cons.mp he with rfl | he
            · exact hr ▸ hlt.ne'
            · exact hr ▸ (hlt.trans (habove e he)).ne'
          rw [if_pos hr, if_pos hr, hnone]
          rfl
        · rw [if_neg hr, if_neg hr]
      · have hsame : rank a.1 = rank k :=
          le_antisymm (not_lt.mp (mt (hrank _ hk _ ha).mpr hafter))
            (not_lt.mp (mt (hrank _ ha _ hk).mpr hbefore))
        rw [if_neg hafter, entryAt_cons, entryAt_cons]
        by_cases hr : rank k = r
        · rw [if_pos (hsame.trans hr), if_pos hr, if_pos (hsame.trans hr)]
          rfl
        · rw [if_neg (by rw [hsame]; exact hr), if_neg hr, if_neg (by rw [hsame]; exact hr)]

end Upsert

section Collect
variable {before : K → K → Bool} {rank : K → R} {S : Set K} (fresh : V) {key : α → K}
  (add : V → α → V)

theorem collect_append (xs : List α) (x : α) :
    collect before fresh key add (xs ++ [x]) =
      upsert before fresh (key x) (fun v => add v x) (collect before fresh key add xs) := by
  rw [collect, List.foldl_append]
  rfl

theorem forall_collect {P : V → Prop} {fresh : V} {add : V → α → V} (hfresh : P fresh) (key : α → K)
    {xs : List α} (hadd : ∀ x ∈ xs, ∀ v, P v → P (add v x)) :
    ∀ e ∈ collect before fresh key add xs, P e.2 := by
  induction xs using List.reverseRecOn with
  | nil => exact fun _ he => nomatch he
  | append_singleton xs x ih =>
    rw [collect_append]
    exact forall_upsert (hadd x (List.mem_append_right _ List.mem_cons_self)) hfresh (key x)
      (ih fun y hy => hadd y (List.mem_append_left _ hy))

theorem collect_ascending (hrank : Ranks before rank S) {xs : List α} (hxs : ∀ x ∈ xs, key x ∈ S) :
    Ascending rank S (collect before fresh key add xs) := by
  induction xs using List.reverseRecOn with
  | nil => exact ⟨fun _ he => (nomatch he), List.Pairwise.nil⟩
  | append_singleton xs x ih =>
    rw [collect_append]
    exact (ih fun y hy => hxs y (List.mem_append_left _ hy)).upsert hrank fresh
      (hxs x (List.mem_append_right _ List.mem_cons_self)) _

/-- **Grouping.** The entry of a key has the key of the first of its items, and folds them. -/
theorem entryAt_collect (hrank : Ranks before rank S) {xs : List α} (hxs : ∀ x ∈ xs, key x ∈ S)
    (r : R) :
    entryAt rank r (collect before fresh key add xs) =
      let group := xs.filter fun x => rank (key x) = r
      group.head?.map fun x => (key x, group.foldl add fresh) := by
  induction xs using List.reverseRecOn with
  | nil => rfl
  | append_singleton xs x ih =>
    have hall : ∀ y ∈ xs, key y ∈ S := fun y hy => hxs y (List.mem_append_left _ hy)
    have hx : key x ∈ S := hxs x (List.mem_append_right _ List.mem_cons_self)
    rw [collect_append, entryAt_upsert hrank fresh hx _ (collect_ascending fresh add hrank hall),
      ih hall, List.filter_append]
    dsimp only
    by_cases hr : rank (key x) = r
    · rw [if_pos hr, List.filter_cons_of_pos (by simpa using hr), List.filter_nil,
        List.foldl_append]
      cases xs.filter fun y => rank (key y) = r with
      | nil => rfl
      | cons y group => rfl
    · rw [if_neg hr, List.filter_cons_of_neg (by simpa using hr), List.filter_nil, List.append_nil]

theorem valueAt_collect (hrank : Ranks before rank S) {xs : List α} (hxs : ∀ x ∈ xs, key x ∈ S)
    (r : R) :
    valueAt rank r (collect before fresh key add xs) =
      let group := xs.filter fun x => rank (key x) = r
      if group = [] then none else some (group.foldl add fresh) := by
  have hentry := congrArg (Option.map Prod.snd) (entryAt_collect fresh add hrank hxs r)
  refine hentry.trans ?_
  dsimp only
  cases xs.filter fun x => rank (key x) = r with
  | nil => rfl
  | cons x group => rfl

end Collect
end OrderedMap
