import OrbitalViewer.RendererScene

/-!
# The buffers of the scene

Each buffer is a function of the last snapshot, the last settings and the trails
(`scene_current`), in whatever order the renderer was called. The second pass over
the trails writes as many numbers as the first has counted.
-/

namespace Renderer
open NetParse (Vec3 ObjectRow TrailPointRow Satellite)

/-! ## The map of trails -/

namespace TrailMap
variable {m : TrailMap} {worldFromMeters : Vec3 → Point}

/-- The keys of a `Map` are distinct. -/
def Distinct (m : TrailMap) : Prop := (m.map Prod.fst).Nodup

theorem get_assign (k : Key) (t : Trail Point) (m : TrailMap) :
    TrailMap.get (Entries.assign k t m) = Function.update m.get k (some t) := by
  funext k'
  rw [TrailMap.get, Entries.lookup_assign, Function.update_apply]
  rfl

theorem get_filter (h : m.Distinct) (p : Trail Point → Bool) :
    TrailMap.get (m.filter fun e => p e.2) = fun k => (m.get k).filter p := by
  have hkeys : ((m.filter fun e => p e.2).map Prod.fst).Nodup :=
    h.sublist (List.filter_sublist.map Prod.fst)
  funext k
  ext t
  rw [TrailMap.get, Entries.lookup_iff hkeys, List.mem_filter, Option.filter_eq_some_iff,
    TrailMap.get, Entries.lookup_iff h]

theorem get_setPoint (nowMs serverTimeMs : ℚ) (objects : List ObjectRow) (p : TrailPointRow) :
    (setPoint worldFromMeters nowMs serverTimeMs objects m p).get =
      appendPoint worldFromMeters nowMs serverTimeMs objects m.get p := by
  unfold setPoint appendPoint
  split
  · exact get_assign _ _ m
  · rfl

theorem get_setObject (nowMs : ℚ) (o : ObjectRow) :
    (setObject worldFromMeters nowMs m o).get = appendObject worldFromMeters nowMs m.get o := by
  unfold setObject appendObject
  split
  · exact get_assign _ _ m
  · rfl

theorem get_fold {A : Type} {f : TrailMap → A → TrailMap} {g : Trails Point → A → Trails Point}
    (h : ∀ m a, (f m a).get = g m.get a) (m : TrailMap) (as : List A) :
    (as.foldl f m).get = as.foldl g m.get := by
  induction as generalizing m with
  | nil => rfl
  | cons a as ih => rw [List.foldl_cons, List.foldl_cons, ih, h]

theorem get_setPoints (nowMs : ℚ) (snap : Snapshot) :
    (setPoints worldFromMeters nowMs snap m).get =
      appendPoints worldFromMeters nowMs snap m.get := by
  unfold setPoints appendPoints
  cases snap.serverTimeMs with
  | none => rfl
  | some serverTimeMs => exact get_fold (fun _ p => get_setPoint nowMs serverTimeMs snap.objects p) m _

theorem get_setObjects (nowMs : ℚ) (snap : Snapshot) :
    (setObjects worldFromMeters nowMs snap m).get =
      appendObjects worldFromMeters nowMs snap m.get :=
  get_fold (fun _ o => get_setObject nowMs o) m _

theorem get_setSatelliteOf (nowMs : ℚ) (snap : Snapshot) :
    (setSatelliteOf worldFromMeters nowMs snap m).get =
      appendSatelliteOf worldFromMeters nowMs snap m.get := by
  unfold setSatelliteOf appendSatelliteOf
  cases snap.satellite with
  | none => rfl
  | some s => exact get_assign _ _ m

theorem Distinct.fold {A : Type} {f : TrailMap → A → TrailMap}
    (hf : ∀ m a, Distinct m → (f m a).Distinct) (h : m.Distinct) (as : List A) :
    (as.foldl f m).Distinct :=
  List.foldlRecOn as f h fun m hm a _ => hf m a hm

theorem Distinct.setPoints (h : m.Distinct) (nowMs : ℚ) (snap : Snapshot) :
    (setPoints worldFromMeters nowMs snap m).Distinct := by
  unfold Renderer.setPoints
  split
  · exact h
  · refine h.fold (fun m p hm => ?_) _
    unfold setPoint
    split
    · exact Entries.nodup_assign hm
    · exact hm

theorem Distinct.setObjects (h : m.Distinct) (nowMs : ℚ) (snap : Snapshot) :
    (setObjects worldFromMeters nowMs snap m).Distinct := by
  refine h.fold (fun m o hm => ?_) _
  unfold setObject
  split
  · exact Entries.nodup_assign hm
  · exact hm

theorem Distinct.setSatelliteOf (h : m.Distinct) (nowMs : ℚ) (snap : Snapshot) :
    (setSatelliteOf worldFromMeters nowMs snap m).Distinct := by
  unfold Renderer.setSatelliteOf
  split
  · exact h
  · exact Entries.nodup_assign h

/-- The `Map` holds the trails, and its keys stay distinct. -/
theorem append_get (nowMs : ℚ) (snapshot : Option Snapshot) (h : m.Distinct) :
    (m.append worldFromMeters nowMs snapshot).Distinct ∧
      (m.append worldFromMeters nowMs snapshot).get =
        appendTrails worldFromMeters nowMs snapshot m.get := by
  have hpruned : ∀ m' : TrailMap, m'.Distinct →
      Distinct (m'.filter fun e => refreshed nowMs e.2) ∧
        TrailMap.get (m'.filter fun e => refreshed nowMs e.2) = prune nowMs m'.get := fun m' hm' =>
    ⟨hm'.sublist (List.filter_sublist.map Prod.fst), get_filter hm' (refreshed nowMs)⟩
  cases snapshot with
  | none => exact hpruned m h
  | some snap =>
    have hwritten : Distinct (setSatelliteOf worldFromMeters nowMs snap
        (setObjects worldFromMeters nowMs snap (setPoints worldFromMeters nowMs snap m))) :=
      ((h.setPoints nowMs snap).setObjects nowMs snap).setSatelliteOf nowMs snap
    have hall := hpruned _ hwritten
    rw [get_setSatelliteOf, get_setObjects, get_setPoints] at hall
    exact hall

end TrailMap

/-! ## Objects -/

section Objects
variable {worldFromMeters : Vec3 → Point} {settings : RenderSettings}

/-- What is drawn of an object, if anything is. -/
def drawn (worldFromMeters : Vec3 → Point) (settings : RenderSettings) (o : ObjectRow) :
    Option Sprite :=
  if settings.hidden o.cat then none else (appearance o.cat).map (sprite worldFromMeters o)

/-- The buffer holds what is drawn of the objects, up to its length. -/
theorem objectBuffer_eq (objs : List ObjectRow) (n : ℕ) :
    objectBuffer worldFromMeters settings n objs =
      (objs.filterMap (drawn worldFromMeters settings)).take (MAX_OBJECTS - n) := by
  induction objs generalizing n with
  | nil => simp [objectBuffer]
  | cons o objs ih =>
    unfold objectBuffer
    by_cases hroom : n < MAX_OBJECTS
    · rw [if_pos hroom]
      obtain ⟨k, hk⟩ : ∃ k, MAX_OBJECTS - n = k + 1 := ⟨MAX_OBJECTS - n - 1, by omega⟩
      cases hlook : appearance o.cat with
      | none =>
        have hnone : drawn worldFromMeters settings o = none := by
          simp [drawn, hlook]
        rw [List.filterMap_cons_none hnone]
        exact ih n
      | some look =>
        dsimp only
        by_cases hhidden : settings.hidden o.cat = true
        · have hnone : drawn worldFromMeters settings o = none := if_pos hhidden
          rw [if_pos hhidden, List.filterMap_cons_none hnone]
          exact ih n
        · have hsome : drawn worldFromMeters settings o = some (sprite worldFromMeters o look) := by
            rw [drawn, if_neg hhidden, hlook, Option.map_some]
          rw [if_neg hhidden, List.filterMap_cons_some hsome, hk, List.take_succ_cons, ih]
          congr 2
          omega
    · rw [if_neg hroom, Nat.sub_eq_zero_of_le (Nat.le_of_not_lt hroom), List.take_zero]

end Objects

/-! ## Segments -/

/-- A segment of the buffer, with its colour. -/
structure Segment where
  color : Color
  step : Step

section Segments
variable (settings : RenderSettings) (ref : ℚ)

/-- It ended within the seconds of a trail and is no shorter than a hundred metres. -/
def Step.drawn (step : Step) : Bool :=
  (ref - step.b.t) / 1000 ≤ settings.trailSeconds &&
    1 / 10 ^ 8 ≤ (step.b.w.x - step.a.w.x) ^ 2 + (step.b.w.y - step.a.w.y) ^ 2 +
      (step.b.w.z - step.a.w.z) ^ 2

theorem Step.drawn_eq (step : Step) :
    step.drawn settings ref = (!step.tooOld ref settings.trailSeconds && !step.degenerate) := by
  have hold : step.tooOld ref settings.trailSeconds = true ↔
      ¬ (ref - step.b.t) / 1000 ≤ settings.trailSeconds := by
    rw [not_le]
    exact decide_eq_true_iff
  have hshort : step.degenerate = true ↔ ¬ 1 / 10 ^ 8 ≤ (step.b.w.x - step.a.w.x) ^ 2 +
      (step.b.w.y - step.a.w.y) ^ 2 + (step.b.w.z - step.a.w.z) ^ 2 := by
    rw [not_le, pow_two, pow_two, pow_two]
    exact decide_eq_true_iff
  rw [Bool.eq_iff_iff, Step.drawn, Bool.and_eq_true, Bool.and_eq_true, Bool.not_eq_true',
    Bool.not_eq_true', ← Bool.not_eq_true, ← Bool.not_eq_true, hold, hshort, not_not, not_not,
    decide_eq_true_eq, decide_eq_true_eq]

/-- The segments of a trail that are drawn. -/
def trailSegments (e : Key × Trail Point) : List Segment :=
  if trailShown settings e then
    (e.2.steps.filter (Step.drawn settings ref)).map (Segment.mk (trailColorFor e.2.cat))
  else []

def segments (m : TrailMap) : List Segment := m.flatMap (trailSegments settings ref)

/-- Both ends, interleaved as they are uploaded: where, in which colour and how opaque,
which fades with the age of the sample. -/
def Segment.floats (g : Segment) : List ℚ :=
  [g.step.a, g.step.b].flatMap fun s => [s.w.x, s.w.y, s.w.z, g.color.r, g.color.g, g.color.b,
    max 0 (min 1 (1 - (ref - s.t) / 1000 / settings.trailSeconds))]

theorem clamp01_eq (v : ℚ) : clamp01 v = max 0 (min 1 v) := by
  unfold clamp01
  split
  · rename_i hneg
    rw [min_eq_right (hneg.le.trans zero_le_one), max_eq_left hneg.le]
  · rename_i hnonneg
    split
    · rename_i hover
      rw [min_eq_left hover.le, max_eq_right zero_le_one]
    · rename_i hunder
      rw [min_eq_right (not_lt.mp hunder), max_eq_right (not_lt.mp hnonneg)]

theorem Segment.floats_eq (g : Segment) : g.floats settings ref =
    Step.vertex ref settings.trailSeconds g.color g.step.a ++
      Step.vertex ref settings.trailSeconds g.color g.step.b := by
  simp [Segment.floats, Step.vertex, Step.age, clamp01_eq]

variable {settings ref}

theorem segments_cons (e : Key × Trail Point) (m : TrailMap) :
    segments settings ref (e :: m) = trailSegments settings ref e ++ segments settings ref m :=
  List.flatMap_cons

theorem segCount_eq (m : TrailMap) : segCount settings ref m = (segments settings ref m).length := by
  have hsteps : ∀ (steps : List Step) n, steps.foldl (fun n step =>
      if step.tooOld ref settings.trailSeconds then n else if step.degenerate then n else n + 1) n =
      n + (steps.filter (Step.drawn settings ref)).length := by
    intro steps
    induction steps with
    | nil => exact fun n => rfl
    | cons step steps ih =>
      intro n
      rw [List.foldl_cons, ih, List.filter_cons, Step.drawn_eq]
      cases step.tooOld ref settings.trailSeconds <;> cases step.degenerate <;>
        simp [Nat.add_assoc, Nat.add_comm 1]
  have hall : ∀ (m : TrailMap) n, m.foldl (fun n e =>
      if trailShown settings e then
        e.2.steps.foldl (fun n step =>
          if step.tooOld ref settings.trailSeconds then n
          else if step.degenerate then n else n + 1) n
      else n) n = n + (segments settings ref m).length := by
    intro m
    induction m with
    | nil => exact fun n => rfl
    | cons e m ih =>
      intro n
      rw [List.foldl_cons, ih, segments_cons, List.length_append, hsteps, trailSegments]
      split <;> simp [Nat.add_assoc]
  exact (hall m 0).trans (Nat.zero_add _)

theorem segFloats_eq (m : TrailMap) :
    segFloats settings ref m = (segments settings ref m).flatMap (Segment.floats settings ref) := by
  have hsteps : ∀ (col : Color) (steps : List Step) floats, steps.foldl (fun floats step =>
      if step.tooOld ref settings.trailSeconds then floats
      else if step.degenerate then floats
      else floats ++ Step.vertex ref settings.trailSeconds col step.a ++
        Step.vertex ref settings.trailSeconds col step.b) floats =
      floats ++ ((steps.filter (Step.drawn settings ref)).map (Segment.mk col)).flatMap
        (Segment.floats settings ref) := by
    intro col steps
    induction steps with
    | nil => exact fun floats => (List.append_nil floats).symm
    | cons step steps ih =>
      intro floats
      rw [List.foldl_cons, ih, List.filter_cons, Step.drawn_eq]
      cases step.tooOld ref settings.trailSeconds <;> cases step.degenerate <;>
        simp [Segment.floats_eq]
  have hall : ∀ (m : TrailMap) floats, m.foldl (fun floats e =>
      if trailShown settings e then
        e.2.steps.foldl (fun floats step =>
          if step.tooOld ref settings.trailSeconds then floats
          else if step.degenerate then floats
          else floats ++ Step.vertex ref settings.trailSeconds (trailColorFor e.2.cat) step.a ++
            Step.vertex ref settings.trailSeconds (trailColorFor e.2.cat) step.b) floats
      else floats) floats =
      floats ++ (segments settings ref m).flatMap (Segment.floats settings ref) := by
    intro m
    induction m with
    | nil => exact fun floats => (List.append_nil floats).symm
    | cons e m ih =>
      intro floats
      rw [List.foldl_cons, ih, segments_cons, List.flatMap_append, hsteps, trailSegments]
      split <;> simp
  exact (hall m []).trans (List.nil_append _)

/-- The two passes agree. -/
theorem length_segFloats (m : TrailMap) :
    (segFloats settings ref m).length = segCount settings ref m * 2 * 7 := by
  rw [segFloats_eq, segCount_eq, List.length_flatMap]
  have hmap : (segments settings ref m).map (fun g => (g.floats settings ref).length) =
      (segments settings ref m).map fun _ => 14 := rfl
  rw [hmap, List.map_const', List.sum_replicate, smul_eq_mul]
  omega

end Segments

theorem le_grow (need cap : ℕ) (h : 0 < cap) : need ≤ grow need cap := by
  fun_induction grow need cap with
  | case1 cap hlt ih => exact ih (by omega)
  | case2 cap hge => omega

theorem cap_le_grow (need cap : ℕ) : cap ≤ grow need cap := by
  fun_induction grow need cap with
  | case1 cap hlt ih => omega
  | case2 cap hge => exact le_rfl

/-! ## Runs -/

namespace Scene
variable (worldFromMeters : Vec3 → Point)

/-- The segments of the trails that are shown. -/
def shownSegments (sc : Scene) : List Segment :=
  if sc.settings.showTrails && (0 < sc.settings.trailSeconds : Bool) then
    segments sc.settings sc.lastSnapNow sc.trails
  else []

/-- The buffers are those of the snapshot, the settings and the trails. -/
structure Current (sc : Scene) : Prop where
  distinct : sc.trails.Distinct
  sprites : sc.sprites = ((sc.snapshot.elim [] (·.objects)).filterMap
    (drawn worldFromMeters sc.settings)).take MAX_OBJECTS
  satRender : sc.satRender = (sc.snapshot.bind (·.satellite)).map fun s => ⟨s.id, worldFromMeters s.pos⟩
  velocity : sc.velocity = (sc.snapshot.bind (·.satellite)).map fun s =>
    (worldFromMeters s.pos, velocityEnd s)
  drawnTrails : sc.drawnTrails = sc.shownSegments.flatMap (Segment.floats sc.settings sc.lastSnapNow)
  vertices : sc.trailVertCount = sc.shownSegments.length * 2
  room : 0 < sc.trailArr ∧ sc.trailVertCount * 7 ≤ sc.trailArr

/-- What holds before the buffers are rebuilt. -/
structure Ready (sc : Scene) : Prop where
  distinct : sc.trails.Distinct
  room : 0 < sc.trailArr

variable {worldFromMeters} {sc : Scene}

theorem trails_current (sc : Scene) (hroom : 0 < sc.trailArr) :
    sc.rebuildTrailBuffer.drawnTrails =
        sc.shownSegments.flatMap (Segment.floats sc.settings sc.lastSnapNow) ∧
      sc.rebuildTrailBuffer.trailVertCount = sc.shownSegments.length * 2 ∧
      0 < sc.rebuildTrailBuffer.trailArr ∧
      sc.rebuildTrailBuffer.trailVertCount * 7 ≤ sc.rebuildTrailBuffer.trailArr := by
  have hnone : sc.shownSegments = [] → ({ sc with trailVertCount := 0 } : Scene).drawnTrails =
      sc.shownSegments.flatMap (Segment.floats sc.settings sc.lastSnapNow) ∧
      0 = sc.shownSegments.length * 2 ∧ 0 < sc.trailArr ∧ 0 * 7 ≤ sc.trailArr := by
    intro hempty
    rw [hempty]
    exact ⟨by simp [drawnTrails], rfl, hroom, by omega⟩
  unfold rebuildTrailBuffer
  dsimp only
  split
  · rename_i hoff
    apply hnone
    rw [shownSegments, if_neg]
    intro hon
    obtain ⟨htrails, hseconds⟩ := Bool.and_eq_true_iff.mp hon
    rw [htrails, hseconds] at hoff
    cases hoff
  · rename_i hon
    have hshown : sc.shownSegments = segments sc.settings sc.lastSnapNow sc.trails := by
      rw [shownSegments, if_pos]
      simpa using hon
    rw [segCount_eq, ← hshown]
    split
    · rename_i hzero
      exact hnone (List.length_eq_zero_iff.mp hzero)
    · have hlength : (segFloats sc.settings sc.lastSnapNow sc.trails).length =
          sc.shownSegments.length * 2 * 7 := by
        rw [length_segFloats, segCount_eq, hshown]
      refine ⟨?_, rfl, ?_, ?_⟩
      · rw [drawnTrails]
        dsimp only
        rw [List.take_of_length_le, List.take_of_length_le hlength.le, segFloats_eq, hshown]
        rw [List.take_of_length_le hlength.le, hlength]
      · dsimp only
        split
        · exact hroom.trans_le (cap_le_grow _ _)
        · exact hroom
      · dsimp only
        split
        · exact le_grow _ _ hroom
        · omega

theorem rebuildTrailBuffer_eq (sc : Scene) : ∃ arr count buf, sc.rebuildTrailBuffer =
    { sc with trailArr := arr, trailVertCount := count, trailBuf := buf } := by
  unfold rebuildTrailBuffer
  dsimp only
  split
  · exact ⟨_, _, _, rfl⟩
  · split <;> exact ⟨_, _, _, rfl⟩

/-- The trail buffer is rebuilt last. -/
theorem Ready.current (h : Ready sc)
    (hsprites : sc.sprites = ((sc.snapshot.elim [] (·.objects)).filterMap
      (drawn worldFromMeters sc.settings)).take MAX_OBJECTS)
    (hsat : sc.satRender =
      (sc.snapshot.bind (·.satellite)).map fun s => ⟨s.id, worldFromMeters s.pos⟩)
    (hvelocity : sc.velocity = (sc.snapshot.bind (·.satellite)).map fun s =>
      (worldFromMeters s.pos, velocityEnd s)) : Current worldFromMeters sc.rebuildTrailBuffer := by
  obtain ⟨hdrawn, hvertices, hroom⟩ := trails_current sc h.room
  obtain ⟨arr, count, buf, heq⟩ := rebuildTrailBuffer_eq sc
  rw [heq] at hdrawn hvertices hroom ⊢
  exact ⟨h.distinct, hsprites, hsat, hvelocity, hdrawn, hvertices, hroom⟩

theorem objectBuffer_zero (settings : RenderSettings) (objs : List ObjectRow) :
    objectBuffer worldFromMeters settings 0 objs =
      (objs.filterMap (drawn worldFromMeters settings)).take MAX_OBJECTS :=
  objectBuffer_eq objs 0

theorem Ready.rebuild (h : Ready sc) : Current worldFromMeters
    ((sc.rebuildObjectBuffer worldFromMeters).rebuildSatellite worldFromMeters).rebuildTrailBuffer := by
  unfold rebuildSatellite
  cases hsat : (sc.rebuildObjectBuffer worldFromMeters).snapshot.bind (·.satellite) with
  | none =>
    refine Ready.current ⟨h.distinct, h.room⟩ (objectBuffer_zero _ _) ?_ ?_ <;>
    · dsimp only
      rw [hsat]
      rfl
  | some s =>
    refine Ready.current ⟨h.distinct, h.room⟩ (objectBuffer_zero _ _) ?_ ?_ <;>
    · dsimp only
      rw [hsat]
      rfl

theorem Current.ready (h : Current worldFromMeters sc) : Ready sc := ⟨h.distinct, h.room.1⟩

theorem Current.step (h : Current worldFromMeters sc) (call : Call) :
    Current worldFromMeters (sc.step worldFromMeters call) := by
  cases call with
  | setSnapshot snap nowMs =>
    refine Ready.rebuild ⟨?_, ?_⟩
    · have hdistinct : (sc.trails.append worldFromMeters nowMs snap).Distinct :=
        (TrailMap.append_get nowMs snap h.distinct).1
      cases snap.bind (·.serverTimeMs) <;> exact hdistinct
    · cases snap.bind (·.serverTimeMs) <;> exact h.room.1
  | setSettings s =>
    exact Ready.current ⟨h.distinct, h.room.1⟩ (objectBuffer_zero _ _) h.satRender h.velocity
  | setSelected idOrNull =>
    exact ⟨h.distinct, h.sprites, h.satRender, h.velocity, h.drawnTrails, h.vertices, h.room⟩
  | frame nowMs =>
    show Current worldFromMeters (sc.sceneNowMs nowMs).2
    unfold sceneNowMs
    split
    · exact ⟨h.distinct, h.sprites, h.satRender, h.velocity, h.drawnTrails, h.vertices, h.room⟩
    · exact h

theorem start_current (dateNow : ℚ) : Current worldFromMeters { sceneEpochMs := dateNow } where
  distinct := List.nodup_nil
  sprites := rfl
  satRender := rfl
  velocity := rfl
  drawnTrails := rfl
  vertices := rfl
  room := ⟨Nat.succ_pos _, Nat.zero_le _⟩

/-! ## What the calls said -/

def Call.snapshot : Call → Option Renderer.Call
  | setSnapshot snap nowMs => some ⟨nowMs, snap⟩
  | _ => none

def Call.settings : Call → Option GivenSettings
  | setSettings s => some s
  | _ => none

/-- The snapshots of a run, and the settings. -/
def snapshots (calls : List Call) : List Renderer.Call := calls.filterMap Call.snapshot

def given (calls : List Call) : List GivenSettings := calls.filterMap Call.settings

variable (worldFromMeters) in
/-- The renderer goes by the last of each. -/
structure Follows (calls : List Call) (sc : Scene) : Prop where
  settings : sc.settings = normalizeSettings (given calls).getLast?
  snapshot : sc.snapshot = (snapshots calls).getLast?.bind (·.snapshot)
  lastSnapNow : sc.lastSnapNow = ((snapshots calls).getLast?.map (·.nowMs)).getD 0
  trails : sc.trails.get = world worldFromMeters (snapshots calls)

/-- What a rebuild leaves alone. -/
structure Keeps (sc sc' : Scene) : Prop where
  settings : sc'.settings = sc.settings
  snapshot : sc'.snapshot = sc.snapshot
  lastSnapNow : sc'.lastSnapNow = sc.lastSnapNow
  trails : sc'.trails = sc.trails
  epoch : sc'.sceneEpochMs = sc.sceneEpochMs
  base : sc'.sceneEpochBaseNow = sc.sceneEpochBaseNow
  selected : sc'.selectedId = sc.selectedId

theorem keeps_trailBuffer (sc : Scene) : Keeps sc sc.rebuildTrailBuffer := by
  obtain ⟨arr, count, buf, heq⟩ := rebuildTrailBuffer_eq sc
  rw [heq]
  exact ⟨rfl, rfl, rfl, rfl, rfl, rfl, rfl⟩

theorem keeps_rebuild (sc : Scene) : Keeps sc
    ((sc.rebuildObjectBuffer worldFromMeters).rebuildSatellite worldFromMeters).rebuildTrailBuffer := by
  have hsat : Keeps sc ((sc.rebuildObjectBuffer worldFromMeters).rebuildSatellite worldFromMeters) := by
    unfold rebuildSatellite
    split <;> exact ⟨rfl, rfl, rfl, rfl, rfl, rfl, rfl⟩
  have hbuffer := keeps_trailBuffer
    ((sc.rebuildObjectBuffer worldFromMeters).rebuildSatellite worldFromMeters)
  exact ⟨hbuffer.settings.trans hsat.settings, hbuffer.snapshot.trans hsat.snapshot,
    hbuffer.lastSnapNow.trans hsat.lastSnapNow, hbuffer.trails.trans hsat.trails,
    hbuffer.epoch.trans hsat.epoch, hbuffer.base.trans hsat.base,
    hbuffer.selected.trans hsat.selected⟩

/-- What a snapshot is rebuilt from. -/
theorem setSnapshot_keeps (sc : Scene) (snap : Option Snapshot) (nowMs : ℚ) :
    Keeps { sc with
      snapshot := snap
      lastSnapNow := nowMs
      sceneEpochMs := (snap.bind (·.serverTimeMs)).getD sc.sceneEpochMs
      sceneEpochBaseNow := ((snap.bind (·.serverTimeMs)).map fun _ => nowMs).or sc.sceneEpochBaseNow
      trails := sc.trails.append worldFromMeters nowMs snap }
      (sc.setSnapshot worldFromMeters snap nowMs) := by
  unfold setSnapshot anchorEpoch
  cases snap.bind (·.serverTimeMs) <;> exact keeps_rebuild _

/-- And settings. -/
theorem setSettings_keeps (sc : Scene) (s : GivenSettings) :
    Keeps { sc with settings := normalizeSettings (some s) } (sc.setSettings worldFromMeters s) := by
  have hbuffer := keeps_trailBuffer (({ sc with settings := normalizeSettings (some s) } :
    Scene).rebuildObjectBuffer worldFromMeters)
  exact ⟨hbuffer.settings, hbuffer.snapshot, hbuffer.lastSnapNow, hbuffer.trails, hbuffer.epoch,
    hbuffer.base, hbuffer.selected⟩

theorem given_concat (calls : List Call) (call : Call) :
    given (calls ++ [call]) = given calls ++ call.settings.toList := by
  cases call <;> simp [given, Call.settings]

theorem snapshots_concat (calls : List Call) (call : Call) :
    snapshots (calls ++ [call]) = snapshots calls ++ call.snapshot.toList := by
  cases call <;> simp [snapshots, Call.snapshot]

/-- A call that brings no snapshot. -/
theorem Follows.keeps {calls : List Call} {call : Call} {sc' : Scene}
    (h : Follows worldFromMeters calls sc) (hcall : call.snapshot = none)
    (hsettings : sc'.settings = normalizeSettings (given (calls ++ [call])).getLast?)
    (hsnapshot : sc'.snapshot = sc.snapshot) (hnow : sc'.lastSnapNow = sc.lastSnapNow)
    (htrails : sc'.trails = sc.trails) : Follows worldFromMeters (calls ++ [call]) sc' := by
  have hsame : snapshots (calls ++ [call]) = snapshots calls := by
    rw [snapshots_concat, hcall]
    exact List.append_nil _
  refine ⟨hsettings, ?_, ?_, ?_⟩ <;> rw [hsame]
  · exact hsnapshot.trans h.snapshot
  · exact hnow.trans h.lastSnapNow
  · exact (congrArg TrailMap.get htrails).trans h.trails

theorem Follows.step {calls : List Call} (hcurrent : Current worldFromMeters sc)
    (h : Follows worldFromMeters calls sc) (call : Call) :
    Follows worldFromMeters (calls ++ [call]) (sc.step worldFromMeters call) := by
  have hgiven : call.settings = none →
      sc.settings = normalizeSettings (given (calls ++ [call])).getLast? := by
    intro hnone
    rw [given_concat, hnone]
    exact h.settings.trans (congrArg (fun g : List GivenSettings => normalizeSettings g.getLast?)
      (List.append_nil _).symm)
  cases call with
  | setSnapshot snap nowMs =>
    have hkeeps : Keeps _ (sc.setSnapshot worldFromMeters snap nowMs) := setSnapshot_keeps sc snap nowMs
    have hlast : (snapshots (calls ++ [.setSnapshot snap nowMs])).getLast? = some ⟨nowMs, snap⟩ := by
      rw [snapshots_concat]
      exact List.getLast?_concat
    refine ⟨hkeeps.settings.trans (hgiven rfl), ?_, ?_, ?_⟩
    · rw [hlast]
      exact hkeeps.snapshot
    · rw [hlast]
      exact hkeeps.lastSnapNow
    · have hget : (sc.trails.append worldFromMeters nowMs snap).get =
          appendTrails worldFromMeters nowMs snap sc.trails.get :=
        (TrailMap.append_get nowMs snap hcurrent.distinct).2
      refine (congrArg TrailMap.get hkeeps.trails).trans (hget.trans ?_)
      rw [h.trails, snapshots_concat, world, world, List.foldl_append]
      rfl
  | setSettings s =>
    have hkeeps : Keeps _ (sc.setSettings worldFromMeters s) := setSettings_keeps sc s
    refine h.keeps rfl ?_ hkeeps.snapshot hkeeps.lastSnapNow hkeeps.trails
    rw [given_concat]
    exact hkeeps.settings.trans (congrArg normalizeSettings List.getLast?_concat.symm)
  | setSelected idOrNull => exact h.keeps rfl (hgiven rfl) rfl rfl rfl
  | frame nowMs =>
    have hframe : ∃ base, sc.step worldFromMeters (.frame nowMs) =
        { sc with sceneEpochBaseNow := base } := by
      show ∃ base, (sc.sceneNowMs nowMs).2 = _
      unfold sceneNowMs
      split <;> exact ⟨_, rfl⟩
    obtain ⟨base, heq⟩ := hframe
    rw [heq]
    exact h.keeps rfl (hgiven rfl) rfl rfl rfl

variable (worldFromMeters) in
theorem run_current (dateNow : ℚ) (calls : List Call) :
    Current worldFromMeters (run worldFromMeters dateNow calls) ∧
      Follows worldFromMeters calls (run worldFromMeters dateNow calls) := by
  induction calls using List.reverseRecOn with
  | nil => exact ⟨start_current dateNow, ⟨rfl, rfl, rfl, rfl⟩⟩
  | append_singleton calls call ih =>
    rw [run, List.foldl_concat]
    exact ⟨ih.1.step call, ih.2.step ih.1 call⟩

/-- The time of the server that a snapshot brings, and when it came. -/
def Call.anchor : Call → Option (ℚ × ℚ)
  | setSnapshot snap nowMs => (snap.bind (·.serverTimeMs)).map fun t => (t, nowMs)
  | _ => none

def Call.frameNow : Call → Option ℚ
  | frame nowMs => some nowMs
  | _ => none

/-- The last anchor of a run. -/
def lastAnchor (calls : List Call) : Option (ℚ × ℚ) := (calls.filterMap Call.anchor).getLast?

theorem lastAnchor_concat (calls : List Call) (call : Call) :
    lastAnchor (calls ++ [call]) = call.anchor.or (lastAnchor calls) := by
  unfold lastAnchor
  cases hanchor : call.anchor <;> simp [hanchor]

variable (worldFromMeters) in
theorem run_epoch (dateNow : ℚ) (calls : List Call) :
    (run worldFromMeters dateNow calls).sceneEpochMs =
        ((lastAnchor calls).map Prod.fst).getD dateNow ∧
      (run worldFromMeters dateNow calls).sceneEpochBaseNow =
        ((lastAnchor calls).map Prod.snd).or (calls.findSome? Call.frameNow) := by
  induction calls using List.reverseRecOn with
  | nil => exact ⟨rfl, rfl⟩
  | append_singleton calls call ih =>
    obtain ⟨hepoch, hbase⟩ := ih
    rw [run, List.foldl_concat, ← run, lastAnchor_concat, List.findSome?_append]
    cases call with
    | setSnapshot snap nowMs =>
      have hkeeps : Keeps _ ((run worldFromMeters dateNow calls).setSnapshot worldFromMeters snap nowMs) :=
        setSnapshot_keeps _ snap nowMs
      refine ⟨hkeeps.epoch.trans ?_, hkeeps.base.trans ?_⟩
      · dsimp only
        rw [hepoch, Call.anchor]
        cases snap.bind (·.serverTimeMs) <;> rfl
      · dsimp only
        rw [hbase, Call.anchor]
        cases snap.bind (·.serverTimeMs) <;> simp [Call.frameNow]
    | setSettings s =>
      have hkeeps : Keeps _ ((run worldFromMeters dateNow calls).setSettings worldFromMeters s) :=
        setSettings_keeps _ s
      refine ⟨hkeeps.epoch.trans hepoch, hkeeps.base.trans (hbase.trans ?_)⟩
      simp [Call.anchor, Call.frameNow]
    | setSelected idOrNull =>
      refine ⟨hepoch, hbase.trans ?_⟩
      simp [Call.anchor, Call.frameNow]
    | frame nowMs =>
      show ((run worldFromMeters dateNow calls).sceneNowMs nowMs).2.sceneEpochMs = _ ∧
        ((run worldFromMeters dateNow calls).sceneNowMs nowMs).2.sceneEpochBaseNow = _
      unfold sceneNowMs
      cases hnone : (run worldFromMeters dateNow calls).sceneEpochBaseNow with
      | none =>
        rw [hbase, Option.or_eq_none_iff, Option.map_eq_none_iff] at hnone
        refine ⟨hepoch, ?_⟩
        rw [hnone.1, hnone.2]
        rfl
      | some base =>
        refine ⟨hepoch, hnone.trans ?_⟩
        have hsome := hbase.symm.trans hnone
        cases hlast : lastAnchor calls with
        | some anchor =>
          rw [hlast] at hsome
          exact hsome.symm
        | none =>
          rw [hlast] at hsome
          have hfirst : calls.findSome? Call.frameNow = some base := hsome
          rw [hfirst]
          rfl

variable (worldFromMeters) in
/-- **The clock of the sky.** It runs with the frames, from the last time of the
server that came, or from the first frame when none has. -/
theorem scene_clock (dateNow nowMs : ℚ) (calls : List Call) :
    ((run worldFromMeters dateNow calls).sceneNowMs nowMs).1 =
      (lastAnchor calls).elim (dateNow + (nowMs - (calls.findSome? Call.frameNow).getD nowMs))
        fun anchor => anchor.1 + (nowMs - anchor.2) := by
  obtain ⟨hepoch, hbase⟩ := run_epoch worldFromMeters dateNow calls
  unfold sceneNowMs
  rw [hepoch, hbase]
  cases lastAnchor calls with
  | some anchor => rfl
  | none =>
    cases calls.findSome? Call.frameNow with
    | some base => rfl
    | none =>
      show dateNow = dateNow + (nowMs - nowMs)
      rw [sub_self, add_zero]

end Scene
end Renderer
