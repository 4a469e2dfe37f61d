import OrbitalViewer.Lib.FirstFailure

/-!
# Settings of a record

A record with a field for each setting, every field of a type of its own, and
assignments made to it one after the other. A field holds the value assigned
last (`Fields.get_assign`); where no setting is assigned twice, the order of the
assignments does not matter (`lastOf_perm`).
-/

namespace Settings

variable {S : Type} {T : S → Type} {C : Type}

/-- A value for a setting. -/
structure Assignment (T : S → Type) where
  setting : S
  value : T setting

variable [DecidableEq S]

/-- The value, when it is one for `s`. -/
def Assignment.at (s : S) (a : Assignment T) : Option (T s) :=
  if h : a.setting = s then some (h ▸ a.value) else none

/-- The value that is assigned to `s` last. -/
def lastOf (s : S) (as : List (Assignment T)) : Option (T s) := (as.filterMap (·.at s)).getLast?

/-- How the fields of a record are read and assigned. -/
structure Fields (C : Type) (T : S → Type) where
  get : C → (s : S) → T s
  set : C → Assignment T → C
  get_set : ∀ c a s, get (set c a) s = (a.at s).getD (get c s)

variable {a : Assignment T} {as bs : List (Assignment T)} {s : S}

@[simp] theorem at_self (s : S) (v : T s) : (Assignment.mk s v).at s = some v := by
  simp [Assignment.at]

theorem at_ne {t : S} (h : t ≠ s) (v : T t) : (Assignment.mk t v).at s = none := by
  simp [Assignment.at, h]

theorem at_eq_some {v : T s} : a.at s = some v ↔ a = ⟨s, v⟩ := by
  obtain ⟨t, w⟩ := a
  constructor
  · intro h
    unfold Assignment.at at h
    split at h
    · rename_i heq
      dsimp only at heq
      subst heq
      obtain rfl : w = v := Option.some.inj h
      rfl
    · cases h
  · rintro ⟨⟩
    exact at_self s v

@[simp] theorem lastOf_nil : lastOf s ([] : List (Assignment T)) = none := rfl

theorem lastOf_append : lastOf s (as ++ bs) = (lastOf s bs).or (lastOf s as) := by
  simp [lastOf]

theorem lastOf_concat : lastOf s (as ++ [a]) = (a.at s).or (lastOf s as) := by
  rw [lastOf_append]
  congr 1
  unfold lastOf
  cases h : a.at s <;> simp [h]

theorem mem_of_lastOf {v : T s} (h : lastOf s as = some v) : ⟨s, v⟩ ∈ as := by
  have hmem := List.mem_of_getLast? h
  obtain ⟨b, hb, hat⟩ := List.mem_filterMap.mp hmem
  exact at_eq_some.mp hat ▸ hb

/-- Where no setting is assigned twice, every assignment is the last. -/
theorem lastOf_of_mem (hnodup : (as.map Assignment.setting).Nodup) {v : T s} (h : ⟨s, v⟩ ∈ as) :
    lastOf s as = some v := by
  induction as using List.reverseRecOn with
  | nil => cases h
  | append_singleton as b ih =>
    rw [List.map_append, List.nodup_append] at hnodup
    obtain ⟨hold, _, hnew⟩ := hnodup
    rw [lastOf_concat]
    rcases List.mem_append.mp h with h | h
    · have hne : b.setting ≠ s := by
        intro heq
        exact hnew s (List.mem_map.mpr ⟨_, h, rfl⟩) b.setting (by simp) heq.symm
      rw [at_ne hne, Option.none_or]
      exact ih hold h
    · rw [← List.mem_singleton.mp h, at_self, Option.some_or]

/-- Of such assignments the value is the only one. -/
theorem lastOf_eq (hnodup : (as.map Assignment.setting).Nodup) {value : Option (T s)}
    (hmem : ∀ v, ⟨s, v⟩ ∈ as ↔ value = some v) : lastOf s as = value := by
  ext v
  rw [← hmem]
  exact ⟨mem_of_lastOf, lastOf_of_mem hnodup⟩

omit [DecidableEq S] in
/-- Entries that assign one setting at most, and settings of distinct keys. -/
theorem nodup_flatMap {E K : Type} {es : List E} (key : E → K) (keyOf : S → K)
    {assigns : E → List (Assignment T)} (hone : ∀ e, (assigns e).length ≤ 1)
    (hkey : ∀ e, ∀ a ∈ assigns e, keyOf a.setting = key e) (h : (es.map key).Nodup) :
    ((es.flatMap assigns).map Assignment.setting).Nodup := by
  induction es with
  | nil => exact List.nodup_nil
  | cons e es ih =>
    obtain ⟨hfresh, hrest⟩ := List.nodup_cons.mp h
    rw [List.flatMap_cons, List.map_append, List.nodup_append]
    refine ⟨?_, ih hrest, ?_⟩
    · have hlength := hone e
      cases hassigns : assigns e with
      | nil => exact List.nodup_nil
      | cons a rest =>
        rw [hassigns, List.length_cons] at hlength
        rw [List.length_eq_zero_iff.mp (by omega : rest.length = 0)]
        exact List.nodup_singleton _
    · rintro s hs t ht rfl
      obtain ⟨a, ha, hsa⟩ := List.mem_map.mp hs
      obtain ⟨b, hb, rfl⟩ := List.mem_map.mp ht
      obtain ⟨e', he', hbe⟩ := List.mem_flatMap.mp hb
      apply hfresh
      refine List.mem_map.mpr ⟨e', he', ?_⟩
      rw [← hkey e' b hbe, ← hkey e a ha, hsa]

theorem lastOf_eq_none (h : ∀ a ∈ as, a.setting ≠ s) : lastOf s as = none := by
  cases hlast : lastOf s as with
  | none => rfl
  | some v => exact absurd rfl (h _ (mem_of_lastOf hlast))

theorem lastOf_perm (hnodup : (as.map Assignment.setting).Nodup) (h : as.Perm bs) :
    lastOf s as = lastOf s bs := by
  have hnodup' : (bs.map Assignment.setting).Nodup := (h.map _).nodup_iff.mp hnodup
  cases hlast : lastOf s as with
  | some v => exact (lastOf_of_mem hnodup' (h.mem_iff.mp (mem_of_lastOf hlast))).symm
  | none =>
    cases hlast' : lastOf s bs with
    | none => rfl
    | some v =>
      have hmem := lastOf_of_mem hnodup (h.mem_iff.mpr (mem_of_lastOf hlast'))
      exact nomatch hlast.symm.trans hmem

namespace Fields
variable (F : Fields C T)

/-- The assignments in order. -/
def assign (c : C) (as : List (Assignment T)) : C := as.foldl F.set c

theorem assign_append (c : C) (as bs : List (Assignment T)) :
    F.assign c (as ++ bs) = F.assign (F.assign c as) bs := List.foldl_append

/-- **A field holds the value assigned last.** -/
theorem get_assign (c : C) (as : List (Assignment T)) (s : S) :
    F.get (F.assign c as) s = (lastOf s as).getD (F.get c s) := by
  induction as using List.reverseRecOn with
  | nil => rfl
  | append_singleton as a ih =>
    rw [assign_append, lastOf_concat]
    show F.get (F.set (F.assign c as) a) s = _
    rw [F.get_set, ih]
    cases a.at s <;> simp

/-- A fallible run whose steps assign, taken as a whole. -/
theorem assign_of_passes {α ε : Type} {f : C → α → Except ε C} {out : α → List (Assignment T)}
    (hf : ∀ c x c', f c x = .ok c' → c' = F.assign c (out x)) {c c' : C} {xs : List α}
    (h : FirstFailure.Passes f c xs c') : c' = F.assign c (xs.flatMap out) := by
  induction xs generalizing c with
  | nil => exact (FirstFailure.passes_nil.mp h).symm
  | cons x xs ih =>
    obtain ⟨m, hm, hrest⟩ := FirstFailure.passes_cons.mp h
    rw [List.flatMap_cons, assign_append, ← hf c x m hm]
    exact ih hrest

end Fields
end Settings
