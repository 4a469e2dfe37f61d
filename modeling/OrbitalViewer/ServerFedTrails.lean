import OrbitalViewer.Lib.LastWrite
import OrbitalViewer.RendererTrails

/-!
# Trails that the server feeds

A row of `trailPoints` makes its trail the server's, unless the trail already has
a later sample: then the row is passed over before it sets the flag. If every batch
brings a later row to the trails that are still the page's own, a trail with rows
is fed by rows alone from then on (`server_fed`).
-/

namespace Renderer
open NetParse (Vec3 ObjectRow TrailPointRow)
open Prefixes (Each)

variable {W : Type} {worldFromMeters : Vec3 → W} {nowMs serverTimeMs : ℚ} {objects : List ObjectRow}
  {trails trails' : Trails W} {id : ℚ}

/-- The trail is there, and the server feeds it. -/
def ServerFed (trails : Trails W) (id : ℚ) : Prop :=
  ∃ t, trails (.object id) = some t ∧ t.server = true

/-! ## Points -/

theorem categoryOf_congr (h : trails' (.object id) = trails (.object id)) :
    categoryOf trails' objects id = categoryOf trails objects id := by
  unfold categoryOf
  rw [h]

theorem takes_congr {p : TrailPointRow} (h : trails' (.object p.id) = trails (.object p.id)) :
    takes nowMs serverTimeMs objects trails' p = takes nowMs serverTimeMs objects trails p := by
  unfold takes
  rw [categoryOf_congr h, h]

theorem takes_iff {p : TrailPointRow} :
    takes nowMs serverTimeMs objects trails p = true ↔
      known (categoryOf trails objects p.id) = true ∧
        ∀ last ∈ (trails (.object p.id)).bind Trail.newest, last < mapped nowMs serverTimeMs p := by
  unfold takes
  rw [Bool.and_eq_true]
  cases (trails (.object p.id)).bind Trail.newest <;> simp

theorem appendPoint_other (p : TrailPointRow) {k : Key} (hk : k ≠ .object p.id) :
    appendPoint worldFromMeters nowMs serverTimeMs objects trails p k = trails k := by
  unfold appendPoint
  split
  · exact Function.update_of_ne hk ..
  · rfl

theorem appendPoint_takes {p : TrailPointRow}
    (h : takes nowMs serverTimeMs objects trails p = true) :
    ServerFed (appendPoint worldFromMeters nowMs serverTimeMs objects trails p) p.id := by
  unfold appendPoint
  rw [if_pos h]
  exact ⟨_, Function.update_self .., rfl⟩

theorem ServerFed.point (h : ServerFed trails id) (p : TrailPointRow) :
    ServerFed (appendPoint worldFromMeters nowMs serverTimeMs objects trails p) id := by
  by_cases hid : p.id = id
  · subst hid
    cases htakes : takes nowMs serverTimeMs objects trails p with
    | true => exact appendPoint_takes htakes
    | false =>
      unfold appendPoint
      rw [htakes]
      exact h
  · obtain ⟨t, ht, hserver⟩ := h
    have hother : Key.object id ≠ .object p.id := fun heq => hid (Key.object.inj heq).symm
    exact ⟨t, (appendPoint_other p hother).trans ht, hserver⟩

theorem ServerFed.rows (h : ServerFed trails id) (ps : List TrailPointRow) :
    ServerFed (ps.foldl (appendPoint worldFromMeters nowMs serverTimeMs objects) trails)
      id := by
  induction ps generalizing trails with
  | nil => exact h
  | cons p ps ih => exact ih (h.point p)

/-- A row that would be taken at first makes the trail the server's, whether or not
an earlier one does. -/
theorem serverFed_appendRows {ps : List TrailPointRow} {q : TrailPointRow} (hq : q ∈ ps)
    (h : takes nowMs serverTimeMs objects trails q = true) :
    ServerFed (ps.foldl (appendPoint worldFromMeters nowMs serverTimeMs objects) trails) q.id := by
  induction ps generalizing trails with
  | nil => cases hq
  | cons p ps ih =>
    rw [List.foldl_cons]
    rcases List.mem_cons.mp hq with rfl | hlater
    · exact (appendPoint_takes h).rows ps
    · by_cases hid : p.id = q.id
      · cases htakes : takes nowMs serverTimeMs objects trails p with
        | true =>
          rw [← hid]
          exact (appendPoint_takes htakes).rows ps
        | false =>
          apply ih hlater
          unfold appendPoint
          rw [htakes]
          exact h
      · apply ih hlater
        have hother : Key.object q.id ≠ .object p.id := fun heq => hid (Key.object.inj heq).symm
        rw [takes_congr (appendPoint_other p hother)]
        exact h

/-! ## Positions -/

theorem not_feeds (h : ServerFed trails id) {o : ObjectRow} (hid : o.id = id) :
    feeds trails o = false := by
  obtain ⟨t, ht, hserver⟩ := h
  unfold feeds
  rw [hid, ht, Option.any_some, hserver]
  simp

theorem appendObject_same (h : ServerFed trails id) (o : ObjectRow) :
    appendObject worldFromMeters nowMs trails o (.object id) = trails (.object id) := by
  unfold appendObject
  by_cases hid : o.id = id
  · rw [not_feeds h hid]
    rfl
  · split
    · exact Function.update_of_ne (fun heq => hid (Key.object.inj heq).symm) ..
    · rfl

theorem ServerFed.congr (h : ServerFed trails id) (hsame : trails' (.object id) = trails (.object id)) :
    ServerFed trails' id := by
  obtain ⟨t, ht, hserver⟩ := h
  exact ⟨t, hsame.trans ht, hserver⟩

theorem ServerFed.positions (h : ServerFed trails id) (os : List ObjectRow) :
    ServerFed (os.foldl (appendObject worldFromMeters nowMs) trails) id := by
  induction os generalizing trails with
  | nil => exact h
  | cons o os ih => exact ih (h.congr (appendObject_same h o))

/-! ## Calls -/

section Calls
variable (worldFromMeters)

/-- A row for the id comes with a time of the server, and its category is known. -/
def Fed (c : Call) (trails : Trails W) (id : ℚ) : Prop :=
  ∃ snap ms, c.snapshot = some snap ∧ snap.serverTimeMs = some ms ∧
    (∃ p ∈ snap.trailPoints, p.id = id) ∧ known (categoryOf trails snap.objects id) = true

/-- Each trail that the page built and that rows come for gets one of them after its
newest sample. -/
def Overtakes (c : Call) (trails : Trails W) : Prop :=
  ∀ snap ms, c.snapshot = some snap → snap.serverTimeMs = some ms →
    ∀ id, Fed c trails id → ∀ t, trails (.object id) = some t → t.server = false →
      ∃ q ∈ snap.trailPoints, q.id = id ∧ ∀ last ∈ t.newest, last < mapped c.nowMs ms q

/-- The call appends the position of an object with the id. -/
def AppendsPosition (c : Call) (trails : Trails W) (id : ℚ) : Prop :=
  ∃ snap before o after, c.snapshot = some snap ∧ snap.objects = before ++ o :: after ∧ o.id = id ∧
    feeds (before.foldl (appendObject worldFromMeters c.nowMs)
      (appendPoints worldFromMeters c.nowMs snap trails)) o = true

end Calls

theorem ServerFed.points (h : ServerFed trails id) (snap : Snapshot) :
    ServerFed (appendPoints worldFromMeters nowMs snap trails) id := by
  unfold appendPoints
  split
  · exact h
  · exact h.rows _

/-- Where rows overtake the trail, the server feeds it before positions are appended. -/
theorem serverFed_appendPoints {c : Call} {snap : Snapshot} (hsnap : c.snapshot = some snap)
    (hfed : Fed c trails id) (h : Overtakes c trails) :
    ServerFed (appendPoints worldFromMeters c.nowMs snap trails) id := by
  have hovertakes := fun ms hms => h snap ms hsnap hms id hfed
  obtain ⟨snap', ms, hsnap', hms, ⟨p, hp, rfl⟩, hknown⟩ := hfed
  obtain rfl : snap' = snap := Option.some.inj (hsnap'.symm.trans hsnap)
  have htaken : ∀ q ∈ snap'.trailPoints, q.id = p.id →
      takes c.nowMs ms snap'.objects trails q = true →
        ServerFed (appendPoints worldFromMeters c.nowMs snap' trails) p.id := by
    intro q hq hqid htakes
    rw [appendPoints, hms, ← hqid]
    exact serverFed_appendRows hq htakes
  cases htrail : trails (.object p.id) with
  | none =>
    apply htaken p hp rfl
    rw [takes_iff, htrail]
    exact ⟨hknown, fun last hlast => nomatch hlast⟩
  | some t =>
    cases hserver : t.server with
    | true => exact ServerFed.points ⟨t, htrail, hserver⟩ snap'
    | false =>
      obtain ⟨q, hq, hqid, hlater⟩ := hovertakes ms hms t htrail hserver
      apply htaken q hq hqid
      rw [takes_iff, hqid, htrail]
      exact ⟨hknown, hlater⟩

/-- A trail that the server feeds gets no position. -/
theorem ServerFed.no_position {c : Call} {snap : Snapshot} (hsnap : c.snapshot = some snap)
    (h : ServerFed (appendPoints worldFromMeters c.nowMs snap trails) id) :
    ¬ AppendsPosition worldFromMeters c trails id := by
  rintro ⟨snap', before, o, after, hsnap', _, hid, hfeeds⟩
  obtain rfl : snap' = snap := Option.some.inj (hsnap'.symm.trans hsnap)
  have hbefore : ServerFed (before.foldl (appendObject worldFromMeters c.nowMs)
      (appendPoints worldFromMeters c.nowMs snap' trails)) id := h.positions before
  rw [not_feeds hbefore hid] at hfeeds
  cases hfeeds

theorem ServerFed.pruned (h : ServerFed trails id) (nowMs : ℚ) :
    prune nowMs trails (.object id) = none ∨ ServerFed (prune nowMs trails) id := by
  obtain ⟨t, ht, hserver⟩ := h
  cases hpruned : prune nowMs trails (.object id) with
  | none => exact .inl rfl
  | some t' =>
    have hsame : t = t' := by
      unfold prune at hpruned
      rw [ht] at hpruned
      exact (Option.filter_eq_some_iff.mp hpruned).1 |> Option.some.inj
    exact .inr ⟨t', hpruned, hsame ▸ hserver⟩

/-- A satellite leaves the trails of objects alone. -/
theorem appendSatellite_object (s : NetParse.Satellite) (id : ℚ) :
    appendSatellite worldFromMeters nowMs trails s (.object id) = trails (.object id) := by
  have hother : Key.object id ≠ .sat s.id := Key.noConfusion
  exact Function.update_of_ne hother ..

theorem appendSatelliteOf_object (snap : Snapshot) (id : ℚ) :
    appendSatelliteOf worldFromMeters nowMs snap trails (.object id) = trails (.object id) := by
  unfold appendSatelliteOf
  cases snap.satellite with
  | none => rfl
  | some s => exact appendSatellite_object s id

/-- What is left of the trail at the end of a call. -/
theorem ServerFed.after {c : Call} {snap : Snapshot} (hsnap : c.snapshot = some snap)
    (h : ServerFed (appendPoints worldFromMeters c.nowMs snap trails) id) :
    appendTrails worldFromMeters c.nowMs c.snapshot trails (.object id) = none ∨
      ServerFed (appendTrails worldFromMeters c.nowMs c.snapshot trails) id := by
  have hpositions : ServerFed (appendObjects worldFromMeters c.nowMs snap
      (appendPoints worldFromMeters c.nowMs snap trails)) id := h.positions _
  rw [hsnap]
  exact (hpositions.congr (appendSatelliteOf_object snap id)).pruned c.nowMs

theorem ServerFed.ended (h : ServerFed trails id) (c : Call) :
    appendTrails worldFromMeters c.nowMs c.snapshot trails (.object id) = none ∨
      ServerFed (appendTrails worldFromMeters c.nowMs c.snapshot trails) id := by
  cases hsnap : c.snapshot with
  | none => exact h.pruned c.nowMs
  | some snap =>
    have hpoints : ServerFed (appendPoints worldFromMeters c.nowMs snap trails) id := h.points snap
    have hafter := hpoints.after hsnap
    rwa [hsnap] at hafter

theorem world_append (calls : List Call) (c : Call) :
    world worldFromMeters (calls ++ [c]) =
      appendTrails worldFromMeters c.nowMs c.snapshot (world worldFromMeters calls) := by
  rw [world, List.foldl_append]
  rfl

/-- An id that a row came for gets no position, in that call and in later ones for as
long as its trail is there. -/
def RowsAlone (worldFromMeters : Vec3 → W) (calls : List Call) : Prop :=
  ∀ before c after id, calls = before ++ c :: after → Fed c (world worldFromMeters before) id →
    ¬ AppendsPosition worldFromMeters c (world worldFromMeters before) id ∧
    ∀ mid d rest, after = mid ++ d :: rest →
      (∀ m, m <+: mid → (world worldFromMeters (before ++ c :: m) (.object id)).isSome = true) →
        ¬ AppendsPosition worldFromMeters d (world worldFromMeters (before ++ c :: mid)) id

/-- **Rows must overtake the trails that the page built.** Where every call does that,
the trails that rows came for are fed by rows alone. -/
theorem server_fed (calls : List Call)
    (h : Each (fun before c => Overtakes c (world worldFromMeters before)) calls) :
    RowsAlone worldFromMeters calls := by
  intro before c after id hcalls hfed
  obtain ⟨snap, hsnap⟩ : ∃ snap, c.snapshot = some snap := by
    obtain ⟨snap, _, hsnap, _⟩ := hfed
    exact ⟨snap, hsnap⟩
  have hpoints : ServerFed (appendPoints worldFromMeters c.nowMs snap (world worldFromMeters before))
      id := serverFed_appendPoints hsnap hfed (h before c after hcalls)
  refine ⟨hpoints.no_position hsnap, fun mid d rest _ hthere => ?_⟩
  have hlater : ∀ m, m <+: mid → ServerFed (world worldFromMeters (before ++ c :: m)) id := by
    intro m
    induction m using List.reverseRecOn with
    | nil =>
      intro hm
      have hhere := hthere [] hm
      rw [world_append] at hhere ⊢
      exact (hpoints.after hsnap).resolve_left fun hnone => by simp [hnone] at hhere
    | append_singleton m e ih =>
      intro hm
      have hbefore := ih ((List.prefix_append m [e]).trans hm)
      have hsplit : before ++ c :: (m ++ [e]) = (before ++ c :: m) ++ [e] := by simp
      have hhere := hthere _ hm
      rw [hsplit, world_append] at hhere ⊢
      exact (hbefore.ended e).resolve_left fun hnone => by simp [hnone] at hhere
  rintro ⟨snap', hposition⟩
  have hsnap' : d.snapshot = some snap' := by
    obtain ⟨_, _, _, hsnap', _⟩ := hposition
    exact hsnap'
  exact ((hlater mid (List.prefix_refl mid)).points snap').no_position hsnap' ⟨snap', hposition⟩

/-! ## Two runs -/

def debrisRow : ObjectRow where
  id := 7
  cat := "debris"
  pos := (7000000, 0, 0)
  vel := none
  conf := 100
  intensity := 0
  flags := 0

/-- A snapshot at a second of both clocks, with rows of the given times. -/
def callAt (sec : ℚ) (times : List ℚ) : Call where
  nowMs := sec * 1000
  snapshot := some {
    serverTimeMs := some (sec * 1000)
    objects := [debrisRow]
    trailPoints := times.map fun t => { id := 7, t, pos := (7000000, 0, 0) } }

/-- The trail that the page builds in the first second. -/
theorem world_callAt : world (fun _ => ()) [callAt 1 []] (.object 7) =
    some { cat := some "debris", s := [⟨1000, ()⟩] } := by decide +kernel

theorem promptRun_rowsAlone : RowsAlone (fun _ => ()) [callAt 1 [], callAt 2 [19 / 10]] := by
  apply server_fed
  rintro before c later hsplit snap ms hsnap hms id ⟨_, _, hsnap', _, ⟨p, hp, rfl⟩, _⟩ t ht _
  obtain rfl := Option.some.inj (hsnap'.symm.trans hsnap)
  rcases before with _ | ⟨first, _ | ⟨second, before⟩⟩
  · cases ht
  · obtain ⟨rfl, rfl, rfl⟩ : callAt 1 [] = first ∧ callAt 2 [19 / 10] = c ∧ [] = later := by
      simpa using hsplit
    obtain rfl := Option.some.inj hsnap
    obtain rfl := List.mem_singleton.mp hp
    obtain rfl := Option.some.inj hms
    obtain rfl := Option.some.inj (world_callAt.symm.trans ht)
    refine ⟨_, hp, rfl, ?_⟩
    rintro _ ⟨⟩
    norm_num [mapped, callAt]
  · simp at hsplit

/-- A row from before the first second is passed over, and a position appended. -/
theorem lateRun_appendsPosition : ¬ RowsAlone (fun _ => ()) [callAt 1 [], callAt 2 [1 / 2]] := by
  intro h
  have hfed : Fed (callAt 2 [1 / 2]) (world (fun _ => ()) [callAt 1 []]) 7 :=
    ⟨_, _, rfl, rfl, ⟨_, List.mem_singleton_self _, rfl⟩, by decide +kernel⟩
  apply (h [callAt 1 []] (callAt 2 [1 / 2]) [] 7 rfl hfed).1
  exact ⟨_, [], debrisRow, [], rfl, rfl, rfl, by decide +kernel⟩

end Renderer
