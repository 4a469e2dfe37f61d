import Mathlib

/-!
# Lists of entries

A map written as a list of keys and values. Where the keys are distinct, such a
list is its lookup (`lookup_iff`), in either direction, and two with the same keys
are equal when they are looked up alike (`ext_lookup`).
-/

namespace Entries

variable {K V W : Type}

/-- Where keys are distinct, a map holds exactly its entries. -/
theorem lookup_iff [BEq K] [LawfulBEq K] {es : List (K × V)} (h : (es.map Prod.fst).Nodup)
    {key : K} {v : V} : es.lookup key = some v ↔ (key, v) ∈ es := by
  induction es with
  | nil => simp
  | cons e es ih =>
    obtain ⟨k, w⟩ := e
    obtain ⟨hfresh, hrest⟩ := List.nodup_cons.mp h
    rw [List.lookup_cons]
    by_cases hk : key = k
    · subst hk
      have hno : (key, v) ∉ es := fun hmem => hfresh (List.mem_map.mpr ⟨_, hmem, rfl⟩)
      simp [hno, eq_comm]
    · have hne : (key == k) = false := beq_eq_false_iff_ne.mpr hk
      simp [hne, hk, ih hrest]

variable [DecidableEq K]

theorem lookup_reverse {es : List (K × V)} (h : (es.map Prod.fst).Nodup) (key : K) :
    es.reverse.lookup key = es.lookup key := by
  have hreverse : (es.reverse.map Prod.fst).Nodup := by
    rw [List.map_reverse]
    exact List.nodup_reverse.mpr h
  ext v
  rw [lookup_iff hreverse, lookup_iff h, List.mem_reverse]

theorem lookup_map (f : V → W) (es : List (K × V)) (key : K) :
    (es.map fun e => (e.1, f e.2)).lookup key = (es.lookup key).map f := by
  induction es with
  | nil => rfl
  | cons e es ih =>
    rw [List.map_cons, List.lookup_cons, List.lookup_cons, ih]
    cases key == e.1 <;> rfl

theorem lookup_congr {key : K} {es es' : List (K × V)}
    (h : List.Forall₂ (fun e e' => e.1 = e'.1 ∧ (e.1 = key → e.2 = e'.2)) es es') :
    es.lookup key = es'.lookup key := by
  induction h with
  | nil => rfl
  | @cons e e' _ _ he _ ih =>
    rw [List.lookup_cons, List.lookup_cons, ← he.1, ih]
    cases hkey : key == e.1 with
    | false => rfl
    | true =>
      have heq : e.1 = key := (beq_iff_eq.mp hkey).symm
      exact congrArg some (he.2 heq)

theorem ext_lookup {es es' : List (K × V)} (hkeys : es.map Prod.fst = es'.map Prod.fst)
    (h : (es.map Prod.fst).Nodup) (hlookup : ∀ key ∈ es.map Prod.fst, es.lookup key = es'.lookup key) :
    es = es' := by
  have hnodup' : (es'.map Prod.fst).Nodup := hkeys ▸ h
  have hlen : es.length = es'.length := by
    rw [← List.length_map Prod.fst, hkeys, List.length_map]
  apply List.ext_getElem hlen
  intro i hi hi'
  have hkey : es[i].1 = es'[i].1 := by
    have hget := congrArg (fun l : List K => l[i]?) hkeys
    simpa [hi, hi'] using hget
  have hleft : es.lookup es[i].1 = some es[i].2 := (lookup_iff h).mpr (List.getElem_mem hi)
  have hright : es'.lookup es'[i].1 = some es'[i].2 := (lookup_iff hnodup').mpr (List.getElem_mem hi')
  have hsame := hlookup es[i].1 (List.mem_map.mpr ⟨_, List.getElem_mem hi, rfl⟩)
  rw [hleft, hkey, hright] at hsame
  exact Prod.ext hkey (Option.some.inj hsame)

/-! ## Assignment -/

def replace (key : K) (v : V) (es : List (K × V)) : List (K × V) :=
  es.map fun e => if e.1 = key then (key, v) else e

/-- The value of a key, in place, or at the end when the key is new. -/
def assign (key : K) (v : V) (es : List (K × V)) : List (K × V) :=
  if es.any fun e => e.1 = key then replace key v es else es ++ [(key, v)]

theorem any_key {key : K} {es : List (K × V)} :
    es.any (fun e => e.1 = key) = true ↔ key ∈ es.map Prod.fst := by
  simp

theorem keys_assign {key : K} {v : V} {es : List (K × V)} (h : key ∈ es.map Prod.fst) :
    (assign key v es).map Prod.fst = es.map Prod.fst := by
  rw [assign, if_pos (any_key.mpr h), replace, List.map_map]
  apply List.map_congr_left
  intro e _
  show (if e.1 = key then (key, v) else e).1 = e.1
  split
  · rename_i hkey
    exact hkey.symm
  · rfl

theorem nodup_assign {key : K} {v : V} {es : List (K × V)} (h : (es.map Prod.fst).Nodup) :
    ((assign key v es).map Prod.fst).Nodup := by
  by_cases hkey : key ∈ es.map Prod.fst
  · rwa [keys_assign hkey]
  · rw [assign, if_neg fun hany => hkey (any_key.mp hany), List.map_append]
    exact List.nodup_append_comm.mp (List.nodup_cons.mpr ⟨hkey, h⟩)

theorem lookup_replace_ne {key k : K} (hk : k ≠ key) (v : V) (es : List (K × V)) :
    (replace key v es).lookup k = es.lookup k := by
  induction es with
  | nil => rfl
  | cons e es ih =>
    have htail : (replace key v (e :: es)).lookup k =
        ((if e.1 = key then (key, v) else e) :: replace key v es).lookup k := rfl
    rw [htail]
    split
    · rename_i he
      have hne : (k == key) = false := beq_eq_false_iff_ne.mpr hk
      rw [List.lookup_cons, List.lookup_cons, he, hne, ih]
    · rw [List.lookup_cons, List.lookup_cons, ih]

theorem lookup_replace_self {key : K} {es : List (K × V)} (h : key ∈ es.map Prod.fst) (v : V) :
    (replace key v es).lookup key = some v := by
  induction es with
  | nil => cases h
  | cons e es ih =>
    have htail : (replace key v (e :: es)).lookup key =
        ((if e.1 = key then (key, v) else e) :: replace key v es).lookup key := rfl
    rw [htail]
    split
    · exact List.lookup_cons_self
    · rename_i he
      have hne : (key == e.1) = false := beq_eq_false_iff_ne.mpr fun heq => he heq.symm
      rw [List.lookup_cons, hne]
      exact ih ((List.mem_cons.mp h).resolve_left fun heq => he heq.symm)

theorem lookup_assign (key k : K) (v : V) (es : List (K × V)) :
    (assign key v es).lookup k = if k = key then some v else es.lookup k := by
  unfold assign
  split
  · rename_i hany
    split
    · rename_i hk
      rw [hk]
      exact lookup_replace_self (any_key.mp hany) v
    · rename_i hk
      exact lookup_replace_ne hk v es
  · rename_i hany
    have hfresh : es.lookup key = none := by
      apply List.lookup_eq_none_iff.mpr
      intro e he
      refine bne_iff_ne.mpr fun heq => hany (any_key.mpr ?_)
      exact List.mem_map.mpr ⟨e, he, heq.symm⟩
    rw [List.lookup_append]
    split
    · rename_i hk
      rw [hk, hfresh, List.lookup_cons_self]
      rfl
    · rename_i hk
      rw [List.lookup_cons, beq_eq_false_iff_ne.mpr hk]
      exact Option.or_none

end Entries
