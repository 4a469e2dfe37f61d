import OrbitalViewer.Picking

/-!
# The overlay

`drawOverlay` of `frontend/js/renderer.js`: the ring around what is selected, the ids of
what is in front of the Earth, and the names of the bodies of the sky. The Sun and the Moon
are marked at the edge where they are off the screen. Of too many objects the nearest are
labelled (`overlay_drawn`).
-/

namespace Renderer
open NetParse (Vec3)

/-- What is written. -/
inductive Text
  | id (id : ℚ)
  | name (name : String)
  /-- `Moon`, with a percentage. -/
  | moon (percent : ℤ)

/-- A drawing of the overlay. -/
inductive Mark
  | ring (sx sy : ℚ)
  | text (text : Text) (color : String) (sx sy : ℚ)
  /-- An arrow at a place in a direction, with its text at another. -/
  | chevron (ex ey dx dy : ℚ) (text : Text) (color : String) (tx ty : ℚ)

/-- The bodies of the sky. -/
structure Sky where
  sunPos : Point
  /-- With the fraction that is lit. -/
  moonRender : Option (Point × ℚ) := none
  planetRender : List (String × Point) := []

/-- The size of the canvas in CSS pixels. -/
structure Canvas where
  cssW : ℚ
  cssH : ℚ

namespace Scene

/-- With whether it is the satellite. -/
def findRenderById (id : ℚ) (sc : Scene) : Option (Target × Bool) :=
  match sc.satTarget.filter (·.id = id) with
  | some sat => some (sat, true)
  | none => (sc.objectTargets.find? (·.id = id)).map fun o => (o, false)

section Overlay
variable (geo : Geometry) (canvas : Canvas) (sky : Sky) (view : View)

/-- What is selected, unless it is the satellite that the view is from. -/
def selectedTarget (sc : Scene) : Option Target := do
  let (t, isSat) ← sc.findRenderById (← sc.selectedId)
  if view.fisheye && isSat then none else t

/-- `ctx.fillText`, next to where a point is projected. -/
def beside (text : Text) (color : String) (offset : ℚ) (w : Point) : List Mark :=
  ((view.projectToScreen w).map fun p => Mark.text text color (p.sx + offset) p.sy).toList

def selectionRing (sc : Scene) : List Mark :=
  match (sc.selectedTarget view).bind fun t => view.projectToScreen t.w with
  | none => []
  | some p => [.ring p.sx p.sy]

/-- In front of the Earth. -/
def visible (sc : Scene) : List Target :=
  sc.objectTargets.filter fun o => !geo.behindEarth view.eye o.w

/-- The objects that are labelled; the sort is stable. -/
def labelled (sc : Scene) : List Target :=
  let list := sc.visible geo view
  if 200 < list.length then
    (list.mergeSort fun p q => camDistance view.eye p.w ≤ camDistance view.eye q.w).take 200
  else list

def labelColor : String := "rgba(220,228,238,0.92)"

def labels (sc : Scene) : List Mark :=
  if sc.settings.showLabels then
    (sc.labelled geo view).flatMap (fun o => beside view (.id o.id) labelColor 6 o.w) ++
      (match sc.satTarget with
      | none => []
      | some sat =>
        if !view.fisheye && !geo.behindEarth view.eye sat.w then
          beside view (.id sat.id) "#ffd54a" 6 sat.w
        else []) ++
      (match sc.selectedTarget view with
      | none => []
      | some t => beside view (.id t.id) labelColor 6 t.w)
  else []

def onScreen (p : Screen) : Bool :=
  -20 < p.sx && p.sx < canvas.cssW + 20 && -20 < p.sy && p.sy < canvas.cssH + 20

def inViewport (p : Screen) : Bool :=
  0 ≤ p.sx && p.sx ≤ canvas.cssW && 0 ≤ p.sy && p.sy ≤ canvas.cssH

/-- Off both axes the smaller; `Infinity` for both at once does not occur. -/
def edgeScale (dx dy : ℚ) : ℚ :=
  let sx := (canvas.cssW / 2 - 30) / |dx|
  let sy := (canvas.cssH / 2 - 30) / |dy|
  if dx = 0 then (if dy = 0 then 0 else sy) else if dy = 0 then sx else min sx sy

/-- From the middle of the canvas to the body; down when that is straight ahead or behind. -/
def bearing (world : Point) : ℚ × ℚ :=
  let dx := (view.transform world).1
  let dy := -(view.transform world).2
  let dl := geo.hypot dx dy
  if dl < 1 / 10 ^ 6 then (0, 1) else (dx / dl, dy / dl)

def drawBodyLocator (world : Point) (label : Text) (color : String) : List Mark :=
  if (view.projectToScreen world).any (inViewport canvas) then []
  else
    let (dx, dy) := bearing geo view world
    let cx := canvas.cssW / 2
    let cy := canvas.cssH / 2
    let s := edgeScale canvas dx dy
    [.chevron (cx + dx * s) (cy + dy * s) dx dy label color
      (cx + dx * (s - 20)) (cy + dy * (s - 20))]

/-- The text of a body that is on the screen, else its locator. -/
def body (world : Point) (text label : Text) (color far : String) : List Mark :=
  match (view.projectToScreen world).filter (onScreen canvas) with
  | some p => [.text text color (p.sx + 8) p.sy]
  | none => drawBodyLocator geo canvas view world label far

def drawSun : List Mark :=
  body geo canvas view sky.sunPos (.name "Sun ●") (.name "Sun") "rgba(255,235,180,0.95)"
    "rgba(255,220,140,0.95)"

def skyColor : String := "rgba(210,214,224,0.80)"

/-- `Math.round` of a percentage. -/
def moonLabel (fraction : ℚ) : Text := .moon ⌊fraction * 100 + 1 / 2⌋

def moonFarColor : String := "rgba(214,214,208,0.95)"

def drawMoon : List Mark :=
  match sky.moonRender with
  | none => []
  | some (w, fraction) =>
    body geo canvas view w (moonLabel fraction) (moonLabel fraction) skyColor moonFarColor

/-- The locator of the Moon leaves its color behind. -/
def planetColor : String :=
  match sky.moonRender with
  | none => skyColor
  | some (w, _) =>
    if (view.projectToScreen w).any (onScreen canvas) then skyColor else moonFarColor

def drawPlanets : List Mark :=
  sky.planetRender.flatMap fun planet =>
    match (view.projectToScreen planet.2).filter (onScreen canvas) with
    | none => []
    | some p => [.text (.name planet.1.capitalize) (planetColor canvas sky view) (p.sx + 8) p.sy]

def drawOverlay (sc : Scene) : List Mark :=
  sc.selectionRing view ++ sc.labels geo view ++ drawSun geo canvas sky view ++
    if sc.settings.showSky then drawMoon geo canvas sky view ++ drawPlanets canvas sky view else []

end Overlay

/-! ## What there is to draw -/

variable {geo : Geometry} {canvas : Canvas} {sky : Sky} {view : View} {sc : Scene}
  {worldFromMeters : Vec3 → Point}

/-- What the calls leave to draw: the satellite and the objects of the last snapshot under
the last settings, and the last selection. -/
structure Picture where
  settings : RenderSettings
  sat : Option Target
  objects : List Target
  selectedId : Option ℚ

def Call.selection : Call → Option (Option ℚ)
  | setSelected idOrNull => some idOrNull
  | _ => none

/-- The last selection, which may be nothing. -/
def lastSelection (calls : List Call) : Option ℚ := (calls.filterMap Call.selection).getLast?.join

variable (worldFromMeters) in
def picture (calls : List Call) : Picture :=
  let snapshot := (snapshots calls).getLast?.bind (·.snapshot)
  let settings := normalizeSettings (given calls).getLast?
  { settings
    sat := (snapshot.bind (·.satellite)).map fun s => ⟨s.id, worldFromMeters s.pos⟩
    objects := (((snapshot.elim [] (·.objects)).filterMap (drawn worldFromMeters settings)).take
      MAX_OBJECTS).map fun o => ⟨o.id, o.w⟩
    selectedId := lastSelection calls }

theorem run_selected (dateNow : ℚ) (calls : List Call) :
    (run worldFromMeters dateNow calls).selectedId = lastSelection calls := by
  induction calls using List.reverseRecOn with
  | nil => rfl
  | append_singleton calls call ih =>
    have hother : call.selection = none →
        lastSelection (calls ++ [call]) = lastSelection calls := by
      intro hnone
      simp [lastSelection, hnone]
    rw [run, List.foldl_concat, ← run]
    cases call with
    | setSnapshot snap nowMs =>
      have hkeeps : Keeps _
          ((run worldFromMeters dateNow calls).setSnapshot worldFromMeters snap nowMs) :=
        setSnapshot_keeps _ snap nowMs
      exact hkeeps.selected.trans (ih.trans (hother rfl).symm)
    | setSettings s =>
      have hkeeps : Keeps _ ((run worldFromMeters dateNow calls).setSettings worldFromMeters s) :=
        setSettings_keeps _ s
      exact hkeeps.selected.trans (ih.trans (hother rfl).symm)
    | setSelected idOrNull =>
      rw [lastSelection, List.filterMap_append]
      exact congrArg Option.join List.getLast?_concat.symm
    | frame nowMs =>
      refine Eq.trans ?_ (ih.trans (hother rfl).symm)
      show ((run worldFromMeters dateNow calls).sceneNowMs nowMs).2.selectedId = _
      unfold sceneNowMs
      split <;> rfl

/-- The scene of a picture. -/
structure Shows (sc : Scene) (pic : Picture) : Prop where
  settings : sc.settings = pic.settings
  sat : sc.satTarget = pic.sat
  objects : sc.objectTargets = pic.objects
  selectedId : sc.selectedId = pic.selectedId

variable (worldFromMeters) in
theorem run_shows (dateNow : ℚ) (calls : List Call) :
    (run worldFromMeters dateNow calls).Shows (picture worldFromMeters calls) := by
  obtain ⟨hcurrent, hfollows⟩ := run_current worldFromMeters dateNow calls
  refine ⟨hfollows.settings, ?_, ?_, run_selected dateNow calls⟩
  · rw [satTarget, hcurrent.satRender, hfollows.snapshot, Option.map_map]
    rfl
  · rw [objectTargets, hcurrent.sprites, hfollows.settings, hfollows.snapshot]
    rfl

/-! ## What is selected -/

/-- The first that has the selected id, the satellite before the objects; in the view from
it the satellite is not shown. -/
def Picture.Selected (pic : Picture) (fisheye : Bool) (t : Target) : Prop :=
  ∃ id, pic.selectedId = some id ∧ (pic.sat.toList ++ pic.objects).find? (·.id = id) = some t ∧
    ¬ (fisheye = true ∧ ∃ sat ∈ pic.sat, sat.id = id)

theorem Shows.selectedTarget_iff {pic : Picture} (h : sc.Shows pic) {t : Target} :
    sc.selectedTarget view = some t ↔ pic.Selected view.fisheye t := by
  rw [Picture.Selected, ← h.sat, ← h.objects, ← h.selectedId]
  unfold selectedTarget findRenderById
  cases sc.selectedId with
  | none => simp
  | some id =>
    cases sc.satTarget with
    | none => simp [Option.bind_eq_some_iff]
    | some sat =>
      by_cases hid : sat.id = id
      · cases view.fisheye <;> simp [hid, Option.filter]
      · simp [hid, Option.filter, Option.bind_eq_some_iff]

/-- What is selected can be seen in the view. -/
theorem Shows.selected_mem {pic : Picture} (h : sc.Shows pic) {t : Target}
    (ht : pic.Selected view.fisheye t) : t ∈ sc.targets view := by
  obtain ⟨id, _, hfind, hother⟩ := ht
  rw [targets, h.sat, h.objects]
  rcases List.mem_append.mp (List.mem_of_find?_eq_some hfind) with hsat | hobject
  · cases hview : view.fisheye with
    | false => exact List.mem_append_left _ hsat
    | true =>
      refine absurd ⟨hview, t, Option.mem_toList.mp hsat, ?_⟩ hother
      simpa using List.find?_some hfind
  · exact List.mem_append_right _ hobject

/-! ## Marks -/

/-- Projected there, within 20 pixels of the canvas. -/
def SeenAt (canvas : Canvas) (view : View) (w : Point) (p : Screen) : Prop :=
  view.projectToScreen w = some p ∧
    -20 < p.sx ∧ p.sx < canvas.cssW + 20 ∧ -20 < p.sy ∧ p.sy < canvas.cssH + 20

theorem filter_onScreen {w : Point} {p : Screen} :
    (view.projectToScreen w).filter (onScreen canvas) = some p ↔ SeenAt canvas view w p := by
  rw [Option.filter_eq_some_iff, SeenAt]
  simp [onScreen, and_assoc]

theorem any_onScreen {w : Point} :
    (view.projectToScreen w).any (onScreen canvas) = true ↔ ∃ p, SeenAt canvas view w p := by
  unfold SeenAt
  cases view.projectToScreen w <;> simp [onScreen, and_assoc]

/-- Muted, unless the Moon is out of sight: then as its arrow. -/
def PlanetColor (canvas : Canvas) (sky : Sky) (view : View) (color : String) : Prop :=
  (∀ moon ∈ sky.moonRender, ∃ p, SeenAt canvas view moon.1 p) ∧ color = "rgba(210,214,224,0.80)" ∨
    (∃ moon ∈ sky.moonRender, ∀ p, ¬ SeenAt canvas view moon.1 p) ∧ color = "rgba(214,214,208,0.95)"

theorem planetColor_iff {color : String} :
    PlanetColor canvas sky view color ↔ color = planetColor canvas sky view := by
  unfold PlanetColor planetColor
  cases sky.moonRender with
  | none => simp [skyColor]
  | some moon =>
    by_cases hseen : ∃ p, SeenAt canvas view moon.1 p
    · simp [any_onScreen.mpr hseen, skyColor, hseen, ← not_exists]
    · have hany := (Bool.not_eq_true _).mp (any_onScreen.not.mpr hseen)
      simp [hany, moonFarColor, hseen, ← not_exists]

/-- What is drawn besides the bodies, when `near` is labelled of the objects. -/
inductive Annotated (geo : Geometry) (canvas : Canvas) (sky : Sky) (view : View) (pic : Picture)
    (near : List Target) : Mark → Prop
  | ring {t : Target} {p : Screen} (hselected : pic.Selected view.fisheye t)
      (hp : view.projectToScreen t.w = some p) :
      Annotated geo canvas sky view pic near (.ring p.sx p.sy)
  | object {t : Target} {p : Screen} (hlabels : pic.settings.showLabels = true) (hnear : t ∈ near)
      (hp : view.projectToScreen t.w = some p) : Annotated geo canvas sky view pic near
        (.text (.id t.id) "rgba(220,228,238,0.92)" (p.sx + 6) p.sy)
  | satellite {t : Target} {p : Screen} (hlabels : pic.settings.showLabels = true)
      (hsat : pic.sat = some t) (hview : view.fisheye = false)
      (hfront : geo.behindEarth view.eye t.w = false) (hp : view.projectToScreen t.w = some p) :
      Annotated geo canvas sky view pic near (.text (.id t.id) "#ffd54a" (p.sx + 6) p.sy)
  | selected {t : Target} {p : Screen} (hlabels : pic.settings.showLabels = true)
      (hselected : pic.Selected view.fisheye t) (hp : view.projectToScreen t.w = some p) :
      Annotated geo canvas sky view pic near
        (.text (.id t.id) "rgba(220,228,238,0.92)" (p.sx + 6) p.sy)
  | planet {planet : String × Point} {p : Screen} {color : String}
      (hsky : pic.settings.showSky = true) (hmem : planet ∈ sky.planetRender)
      (hseen : SeenAt canvas view planet.2 p) (hcolor : PlanetColor canvas sky view color) :
      Annotated geo canvas sky view pic near
        (.text (.name planet.1.capitalize) color (p.sx + 8) p.sy)

theorem mem_beside {m : Mark} {text : Text} {color : String} {offset : ℚ} {w : Point} :
    m ∈ beside view text color offset w ↔
      ∃ p, view.projectToScreen w = some p ∧ m = .text text color (p.sx + offset) p.sy := by
  simp [beside, eq_comm]

theorem Shows.mem_ring {pic : Picture} (h : sc.Shows pic) {m : Mark} :
    m ∈ sc.selectionRing view ↔ ∃ t p, pic.Selected view.fisheye t ∧
      view.projectToScreen t.w = some p ∧ m = .ring p.sx p.sy := by
  have hring : m ∈ sc.selectionRing view ↔
      ∃ p, ((sc.selectedTarget view).bind fun t => view.projectToScreen t.w) = some p ∧
        m = .ring p.sx p.sy := by
    unfold selectionRing
    cases (sc.selectedTarget view).bind fun t => view.projectToScreen t.w <;> simp
  rw [hring]
  simp only [Option.bind_eq_some_iff, h.selectedTarget_iff]
  constructor
  · rintro ⟨p, ⟨t, hselected, hp⟩, rfl⟩
    exact ⟨t, p, hselected, hp, rfl⟩
  · rintro ⟨t, p, hselected, hp, rfl⟩
    exact ⟨p, ⟨t, hselected, hp⟩, rfl⟩

theorem Shows.mem_labels {pic : Picture} (h : sc.Shows pic) {m : Mark} :
    m ∈ sc.labels geo view ↔ pic.settings.showLabels = true ∧
      ((∃ t ∈ sc.labelled geo view, m ∈ beside view (.id t.id) labelColor 6 t.w) ∨
        (∃ t, pic.sat = some t ∧ view.fisheye = false ∧ geo.behindEarth view.eye t.w = false ∧
          m ∈ beside view (.id t.id) "#ffd54a" 6 t.w) ∨
        ∃ t, pic.Selected view.fisheye t ∧ m ∈ beside view (.id t.id) labelColor 6 t.w) := by
  have hselected :
      (∃ t, pic.Selected view.fisheye t ∧ m ∈ beside view (.id t.id) labelColor 6 t.w) ↔
      ∃ t, sc.selectedTarget view = some t ∧ m ∈ beside view (.id t.id) labelColor 6 t.w := by
    simp only [h.selectedTarget_iff]
  rw [hselected, ← h.settings, ← h.sat]
  unfold labels
  cases sc.settings.showLabels with
  | false => simp
  | true =>
    rw [if_pos rfl, List.mem_append, List.mem_append, List.mem_flatMap, or_assoc]
    refine (and_iff_right rfl).symm.trans (and_congr_right' (or_congr_right (or_congr ?_ ?_)))
    · cases sc.satTarget with
      | none => simp
      | some sat => cases hfisheye : view.fisheye <;> simp
    · cases sc.selectedTarget view <;> simp

theorem mem_planets {m : Mark} : m ∈ drawPlanets canvas sky view ↔
    ∃ planet ∈ sky.planetRender, ∃ p, SeenAt canvas view planet.2 p ∧
      m = .text (.name planet.1.capitalize) (planetColor canvas sky view) (p.sx + 8) p.sy := by
  rw [drawPlanets, List.mem_flatMap]
  refine exists_congr fun planet => and_congr_right' ?_
  simp only [← filter_onScreen]
  cases (view.projectToScreen planet.2).filter (onScreen canvas) <;> simp

/-! ## The nearest -/

/-- Of too many the first 200 by distance are labelled. -/
theorem labelled_nearest : (sc.labelled geo view).length ≤ 200 ∧
    ∃ rest, (sc.labelled geo view ++ rest).Perm (sc.visible geo view) ∧
      (rest ≠ [] → (sc.labelled geo view).length = 200) ∧
      ∀ a ∈ sc.labelled geo view, ∀ b ∈ rest,
        camDistance view.eye a.w ≤ camDistance view.eye b.w := by
  unfold labelled
  dsimp only
  split
  · rename_i hmany
    generalize hsorted : List.mergeSort _ _ = sorted
    have hperm : sorted.Perm (sc.visible geo view) := hsorted ▸ List.mergeSort_perm _ _
    have hlength : (sorted.take 200).length = 200 :=
      List.length_take_of_le (hperm.length_eq ▸ hmany.le)
    have hpairwise : sorted.Pairwise fun p q =>
        camDistance view.eye p.w ≤ camDistance view.eye q.w := by
      rw [← hsorted]
      refine (List.pairwise_mergeSort (fun a b c hab hbc => ?_) (fun a b => ?_) _).imp ?_
      · exact decide_eq_true ((of_decide_eq_true hab).trans (of_decide_eq_true hbc))
      · rw [Bool.or_eq_true, decide_eq_true_iff, decide_eq_true_iff]
        exact le_total _ _
      · intro a b hab
        exact of_decide_eq_true hab
    rw [← List.take_append_drop 200 sorted, List.pairwise_append] at hpairwise
    refine ⟨hlength.le, sorted.drop 200, ?_, fun _ => hlength, hpairwise.2.2⟩
    rwa [List.take_append_drop]
  · rename_i hfew
    refine ⟨not_lt.mp hfew, [], ?_, fun h => absurd rfl h, fun a _ b hb => nomatch hb⟩
    rw [List.append_nil]

/-! ## The bodies of the sky -/

/-- A body, with what is written where it is seen and what at the edge. -/
structure Body where
  world : Point
  text : Text
  color : String
  farText : Text
  farColor : String

/-- The Sun, and the Moon with the sky. -/
def bodies (sky : Sky) (showSky : Bool) : List Body :=
  { world := sky.sunPos
    text := .name "Sun ●"
    color := "rgba(255,235,180,0.95)"
    farText := .name "Sun"
    farColor := "rgba(255,220,140,0.95)" } ::
  if showSky then
    sky.moonRender.toList.map fun moon => {
      world := moon.1
      text := .moon ⌊(moon.2 * 100 + 1 / 2 : ℚ)⌋
      color := "rgba(210,214,224,0.80)"
      farText := .moon ⌊(moon.2 * 100 + 1 / 2 : ℚ)⌋
      farColor := "rgba(214,214,208,0.95)" }
  else []

/-- On the border of what is 30 pixels inside the canvas. -/
def OnEdge (canvas : Canvas) (ex ey : ℚ) : Prop :=
  |ex - canvas.cssW / 2| ≤ canvas.cssW / 2 - 30 ∧ |ey - canvas.cssH / 2| ≤ canvas.cssH / 2 - 30 ∧
    (|ex - canvas.cssW / 2| = canvas.cssW / 2 - 30 ∨ |ey - canvas.cssH / 2| = canvas.cssH / 2 - 30)

/-- The way that the body is off the line of sight, and down where it is not. -/
def Bears (geo : Geometry) (view : View) (world : Point) (dx dy : ℚ) : Prop :=
  let x := (view.transform world).1
  let y := -(view.transform world).2
  (geo.hypot x y < 1 / 10 ^ 6 → dx = 0 ∧ dy = 1) ∧
    (1 / 10 ^ 6 ≤ geo.hypot x y → dx = x / geo.hypot x y ∧ dy = y / geo.hypot x y)

/-- A body is named where it is seen, or an arrow at the edge points to it, with its name
20 pixels further in. -/
inductive Located (geo : Geometry) (canvas : Canvas) (view : View) (b : Body) : Mark → Prop
  | seen {p : Screen} (hp : SeenAt canvas view b.world p) :
      Located geo canvas view b (.text b.text b.color (p.sx + 8) p.sy)
  | pointed {s dx dy : ℚ} (hoff : ∀ p, ¬ SeenAt canvas view b.world p)
      (hbears : Bears geo view b.world dx dy) (hs : 0 ≤ s)
      (hedge : OnEdge canvas (canvas.cssW / 2 + dx * s) (canvas.cssH / 2 + dy * s)) :
      Located geo canvas view b (.chevron (canvas.cssW / 2 + dx * s) (canvas.cssH / 2 + dy * s)
        dx dy b.farText b.farColor
        (canvas.cssW / 2 + dx * (s - 20)) (canvas.cssH / 2 + dy * (s - 20)))

/-- A text for a body is the body's. -/
theorem Located.text_eq {b : Body} {m : Mark} {text : Text} {color : String} {sx sy : ℚ}
    (h : Located geo canvas view b m) (hm : m = .text text color sx sy) : b.text = text := by
  cases h with
  | seen hp => exact (Mark.text.inj hm).1
  | pointed hoff hbears hs hedge => cases hm

/-- And no id. -/
theorem bodies_named {showSky : Bool} {b : Body} (hb : b ∈ bodies sky showSky) (id : ℚ) :
    b.text ≠ .id id := by
  rcases List.mem_cons.mp hb with rfl | hmoon
  · exact Text.noConfusion
  · split at hmoon
    · obtain ⟨moon, _, rfl⟩ := List.mem_map.mp hmoon
      exact Text.noConfusion
    · cases hmoon

theorem bearing_bears {world : Point} {dx dy : ℚ} (h : bearing geo view world = (dx, dy)) :
    Bears geo view world dx dy := by
  unfold bearing at h
  dsimp only at h
  split at h
  · rename_i hnear
    cases h
    exact ⟨fun _ => ⟨rfl, rfl⟩, fun hfar => absurd hnear (not_lt.mpr hfar)⟩
  · rename_i hfar
    cases h
    exact ⟨fun hnear => absurd hnear hfar, fun _ => ⟨rfl, rfl⟩⟩

/-- An arrow has a direction: both parts are 0 only where `hypot` is. -/
theorem Bears.ne_zero (hhypot : geo.hypot 0 0 = 0) {world : Point} {dx dy : ℚ}
    (h : Bears geo view world dx dy) : dx ≠ 0 ∨ dy ≠ 0 := by
  obtain ⟨hdown, hoff⟩ := h
  rcases lt_or_ge (geo.hypot (view.transform world).1 (-(view.transform world).2)) (1 / 10 ^ 6) with
    hnear | hfar
  · exact .inr ((hdown hnear).2 ▸ one_ne_zero)
  · obtain ⟨rfl, rfl⟩ := hoff hfar
    have hpos : 0 < geo.hypot (view.transform world).1 (-(view.transform world).2) :=
      lt_of_lt_of_le (by norm_num) hfar
    by_contra hzero
    push Not at hzero
    have hx := (div_eq_zero_iff.mp hzero.1).resolve_right hpos.ne'
    have hy := (div_eq_zero_iff.mp hzero.2).resolve_right hpos.ne'
    rw [hx, hy, hhypot] at hpos
    exact lt_irrefl _ hpos

theorem edgeScale_onEdge (hW : 60 ≤ canvas.cssW) (hH : 60 ≤ canvas.cssH) {dx dy : ℚ}
    (hne : dx ≠ 0 ∨ dy ≠ 0) : 0 ≤ edgeScale canvas dx dy ∧
      OnEdge canvas (canvas.cssW / 2 + dx * edgeScale canvas dx dy)
        (canvas.cssH / 2 + dy * edgeScale canvas dx dy) := by
  have ha : 0 ≤ canvas.cssW / 2 - 30 := by linarith
  have hb : 0 ≤ canvas.cssH / 2 - 30 := by linarith
  unfold edgeScale OnEdge
  dsimp only
  generalize canvas.cssW / 2 - 30 = a at ha ⊢
  generalize canvas.cssH / 2 - 30 = b at hb ⊢
  rw [add_sub_cancel_left, add_sub_cancel_left, abs_mul, abs_mul]
  have hx0 : 0 ≤ a / |dx| := div_nonneg ha (abs_nonneg dx)
  have hy0 : 0 ≤ b / |dy| := div_nonneg hb (abs_nonneg dy)
  have hx : dx ≠ 0 → |dx| * (a / |dx|) = a := fun h => mul_div_cancel₀ a (abs_ne_zero.mpr h)
  have hy : dy ≠ 0 → |dy| * (b / |dy|) = b := fun h => mul_div_cancel₀ b (abs_ne_zero.mpr h)
  split
  · rename_i hdx
    have hdy : dy ≠ 0 := hne.resolve_left fun h => h hdx
    rw [if_neg hdy, abs_of_nonneg hy0, hdx, abs_zero, zero_mul, hy hdy]
    exact ⟨hy0, ha, le_rfl, .inr rfl⟩
  · rename_i hdx
    split
    · rename_i hdy
      rw [abs_of_nonneg hx0, hdy, abs_zero, zero_mul, hx hdx]
      exact ⟨hx0, le_rfl, hb, .inl rfl⟩
    · rename_i hdy
      rw [abs_of_nonneg (le_min hx0 hy0)]
      have hleft := mul_le_mul_of_nonneg_left (min_le_left (a / |dx|) (b / |dy|)) (abs_nonneg dx)
      have hright := mul_le_mul_of_nonneg_left (min_le_right (a / |dx|) (b / |dy|)) (abs_nonneg dy)
      rw [hx hdx] at hleft
      rw [hy hdy] at hright
      refine ⟨le_min hx0 hy0, hleft, hright, ?_⟩
      rcases min_choice (a / |dx|) (b / |dy|) with hmin | hmin
      · rw [hmin]
        exact .inl (hx hdx)
      · rw [hmin]
        exact .inr (hy hdy)

/-- What is in the viewport is on the screen. -/
theorem not_inViewport {world : Point} (h : ∀ p, ¬ SeenAt canvas view world p) :
    (view.projectToScreen world).any (inViewport canvas) = false := by
  cases hp : view.projectToScreen world with
  | none => rfl
  | some p =>
    refine (Bool.not_eq_true _).mp fun hin => h p ⟨hp, ?_⟩
    simp only [Option.any_some, inViewport, Bool.and_eq_true, decide_eq_true_eq] at hin
    obtain ⟨⟨⟨hleft, hright⟩, htop⟩, hbottom⟩ := hin
    refine ⟨?_, ?_, ?_, ?_⟩ <;> linarith

/-- One mark for a body. -/
theorem body_located (hW : 60 ≤ canvas.cssW) (hH : 60 ≤ canvas.cssH) (hhypot : geo.hypot 0 0 = 0)
    (b : Body) : ∃ m, body geo canvas view b.world b.text b.farText b.color b.farColor = [m] ∧
      Located geo canvas view b m := by
  unfold body
  split
  · rename_i p hp
    exact ⟨_, rfl, .seen (filter_onScreen.mp hp)⟩
  · rename_i hnone
    have hoff : ∀ p, ¬ SeenAt canvas view b.world p := by
      intro p hseen
      rw [filter_onScreen.mpr hseen] at hnone
      cases hnone
    unfold drawBodyLocator
    rw [not_inViewport hoff, if_neg Bool.false_ne_true]
    obtain ⟨⟨dx, dy⟩, hbearing⟩ : ∃ d, bearing geo view b.world = d := ⟨_, rfl⟩
    rw [hbearing]
    have hbears := bearing_bears hbearing
    obtain ⟨hs, hedge⟩ := edgeScale_onEdge hW hH (hbears.ne_zero hhypot)
    exact ⟨_, rfl, .pointed hoff hbears hs hedge⟩

/-! ## The overlay -/

/-- The marks of the Sun and of the Moon, and the names of the planets. -/
theorem mem_sky {m : Mark} (showSky : Bool) :
    (m ∈ drawSun geo canvas sky view ∨ m ∈ (if showSky then
      drawMoon geo canvas sky view ++ drawPlanets canvas sky view else [])) ↔
    (showSky = true ∧ m ∈ drawPlanets canvas sky view) ∨ ∃ b ∈ bodies sky showSky,
      m ∈ body geo canvas view b.world b.text b.farText b.color b.farColor := by
  have hmoon : m ∈ drawMoon geo canvas sky view ↔ ∃ moon ∈ sky.moonRender,
      m ∈ body geo canvas view moon.1 (moonLabel moon.2) (moonLabel moon.2) skyColor
        moonFarColor := by
    unfold drawMoon
    cases sky.moonRender <;> simp
  unfold bodies
  cases showSky with
  | false => simp [drawSun]
  | true =>
    rw [if_pos rfl, if_pos rfl, List.mem_append, hmoon,
      or_comm (b := m ∈ drawPlanets canvas sky view), or_left_comm]
    simp only [List.mem_cons, exists_eq_or_imp, List.mem_map, Option.mem_toList,
      exists_exists_and_eq_and, true_and]
    rfl

theorem Shows.mem_drawOverlay {pic : Picture} (h : sc.Shows pic) {m : Mark} :
    m ∈ sc.drawOverlay geo canvas sky view ↔
      Annotated geo canvas sky view pic (sc.labelled geo view) m ∨
        ∃ b ∈ bodies sky pic.settings.showSky,
          m ∈ body geo canvas view b.world b.text b.farText b.color b.farColor := by
  rw [drawOverlay, List.mem_append, List.mem_append, List.mem_append, or_assoc, mem_sky, h.settings,
    ← or_assoc]
  refine or_congr_left ⟨?_, ?_⟩
  · rintro ((hring | hlabel) | ⟨hsky, hplanet⟩)
    · obtain ⟨t, p, hselected, hp, rfl⟩ := h.mem_ring.mp hring
      exact .ring hselected hp
    · obtain ⟨hlabels, hlabel⟩ := h.mem_labels.mp hlabel
      rcases hlabel with ⟨t, hnear, hm⟩ | ⟨t, hsat, hview, hfront, hm⟩ | ⟨t, hselected, hm⟩
      · obtain ⟨p, hp, rfl⟩ := mem_beside.mp hm
        exact .object hlabels hnear hp
      · obtain ⟨p, hp, rfl⟩ := mem_beside.mp hm
        exact .satellite hlabels hsat hview hfront hp
      · obtain ⟨p, hp, rfl⟩ := mem_beside.mp hm
        exact .selected hlabels hselected hp
    · obtain ⟨planet, hmem, p, hseen, rfl⟩ := mem_planets.mp hplanet
      exact .planet hsky hmem hseen (planetColor_iff.mpr rfl)
  · intro hdrawn
    cases hdrawn with
    | ring hselected hp => exact .inl (.inl (h.mem_ring.mpr ⟨_, _, hselected, hp, rfl⟩))
    | object hlabels hnear hp =>
      exact .inl (.inr (h.mem_labels.mpr ⟨hlabels, .inl ⟨_, hnear, mem_beside.mpr ⟨_, hp, rfl⟩⟩⟩))
    | satellite hlabels hsat hview hfront hp =>
      exact .inl (.inr (h.mem_labels.mpr ⟨hlabels,
        .inr (.inl ⟨_, hsat, hview, hfront, mem_beside.mpr ⟨_, hp, rfl⟩⟩)⟩))
    | selected hlabels hselected hp =>
      exact .inl (.inr (h.mem_labels.mpr ⟨hlabels,
        .inr (.inr ⟨_, hselected, mem_beside.mpr ⟨_, hp, rfl⟩⟩)⟩))
    | planet hsky hmem hseen hcolor =>
      rw [planetColor_iff.mp hcolor]
      exact .inr ⟨hsky, mem_planets.mpr ⟨_, hmem, _, hseen, rfl⟩⟩

variable (geo sky worldFromMeters) in
/-- **What the overlay shows.** After any calls it is exactly this: a ring around what is
selected, the ids of the objects in front of the Earth, or of the nearest 200 of them, of the
satellite and of what is selected, the names of the planets in sight, and one mark for the
Sun, and with the sky for the Moon, each named where it is seen or else pointed at from the
edge. No id is of anything that the last snapshot and settings do not show. -/
theorem overlay_drawn (hW : 60 ≤ canvas.cssW) (hH : 60 ≤ canvas.cssH)
    (hhypot : geo.hypot 0 0 = 0) (dateNow : ℚ) (calls : List Call) :
    let sc := run worldFromMeters dateNow calls
    let view := sc.computeActiveView geo worldFromMeters
    let marks := sc.drawOverlay geo canvas sky view
    let pic := picture worldFromMeters calls
    (∃ near rest : List Target, ∃ place : Body → Mark,
      (near ++ rest).Perm (pic.objects.filter fun o => !geo.behindEarth view.eye o.w) ∧
      near.length ≤ 200 ∧ (rest ≠ [] → near.length = 200) ∧
      (∀ a ∈ near, ∀ b ∈ rest, camDistance view.eye a.w ≤ camDistance view.eye b.w) ∧
      (∀ b, Located geo canvas view b (place b)) ∧
      ∀ m, m ∈ marks ↔ Annotated geo canvas sky view pic near m ∨
        ∃ b ∈ bodies sky pic.settings.showSky, m = place b) ∧
    ∀ id color sx sy, .text (.id id) color sx sy ∈ marks →
      Shown pic.settings ((snapshots calls).getLast?.bind (·.snapshot)) view.fisheye id := by
  intro sc view marks pic
  obtain ⟨hcurrent, hfollows⟩ := run_current worldFromMeters dateNow calls
  have hshows : sc.Shows pic := run_shows worldFromMeters dateNow calls
  have hbody (b : Body) : ∃ m,
      body geo canvas view b.world b.text b.farText b.color b.farColor = [m] ∧
      Located geo canvas view b m := body_located hW hH hhypot b
  choose place hplace hlocated using hbody
  have hmarks (m : Mark) : m ∈ marks ↔ Annotated geo canvas sky view pic (sc.labelled geo view) m ∨
      ∃ b ∈ bodies sky pic.settings.showSky, m = place b := by
    refine hshows.mem_drawOverlay.trans ?_
    simp only [hplace, List.mem_singleton]
  obtain ⟨hlength, rest, hperm, hfull, hnearest⟩ :
      (sc.labelled geo view).length ≤ 200 ∧ _ := labelled_nearest
  rw [visible, hshows.objects] at hperm
  refine ⟨⟨_, rest, place, hperm, hlength, hfull, hnearest, hlocated, hmarks⟩, ?_⟩
  intro id color sx sy hm
  have hshown {t : Target} (ht : t ∈ sc.targets view) :
      Shown pic.settings ((snapshots calls).getLast?.bind (·.snapshot)) view.fisheye t.id := by
    have hshown := hcurrent.target ht
    rwa [hfollows.settings, hfollows.snapshot] at hshown
  rcases (hmarks _).mp hm with hdrawn | ⟨b, hb, heq⟩
  · cases hdrawn with
    | object hlabels hnear hp =>
      have hobject := (List.mem_filter.mp (hperm.mem_iff.mp (List.mem_append_left rest hnear))).1
      exact hshown (List.mem_append_right _ (hshows.objects ▸ hobject))
    | satellite hlabels hsat hview hfront hp =>
      refine hshown (List.mem_append_left _ ?_)
      rw [hview, if_neg Bool.false_ne_true, hshows.sat, hsat]
      exact List.mem_singleton.mpr rfl
    | selected hlabels hselected hp => exact hshown (hshows.selected_mem hselected)
  · have hname := (hlocated b).text_eq heq.symm
    exact absurd hname (bodies_named hb id)

/-- From 25000 km above the equator, of 90 degrees. -/
def sampleGeometry : Geometry where
  orbitEye := ⟨25, 0, 0⟩
  orbitLens := {
    projectToScreen := fun w =>
      if 25 - w.x ≤ 0 then none
      else some ⟨400 + 300 * (w.y / (25 - w.x)), 300 - 300 * (w.z / (25 - w.x))⟩
    transform := fun w => (w.y, w.z) }
  satLens := fun _ _ => none
  behindEarth := fun _ w => w.x < 0
  -- As it is along an axis.
  hypot := fun dx dy => max |dx| |dy|

def sampleWorld (p : Vec3) : Point := ⟨p.1 * SCALE, p.2.1 * SCALE, p.2.2 * SCALE⟩

/-- A satellite 7000 km from the centre, which is selected. -/
def sampleCalls : List Call :=
  [.setSnapshot (some { satellite := some ⟨7, 1, (7000000, 0, 0), (0, 7500, 0)⟩ }) 1000,
    .setSelected (some 7)]

/-- Far to the right. -/
def sampleSky : Sky := { sunPos := ⟨0, 2000, 0⟩ }

/-- The satellite has its ring in the middle and the Sun its arrow at the right edge. -/
theorem overlay_drawn_sample :
    let sc := run sampleWorld 0 sampleCalls
    let marks := sc.drawOverlay sampleGeometry ⟨800, 600⟩ sampleSky
      (sc.computeActiveView sampleGeometry sampleWorld)
    .ring 400 300 ∈ marks ∧
      .chevron 770 300 1 0 (.name "Sun") "rgba(255,220,140,0.95)" 750 300 ∈ marks := by
  intro sc marks
  have hview : sc.computeActiveView sampleGeometry sampleWorld =
      { sampleGeometry.orbitLens with fisheye := false, eye := ⟨25, 0, 0⟩ } := by
    rfl
  obtain ⟨near, rest, place, _, _, _, _, hlocated, hmarks⟩ :=
    (overlay_drawn sampleGeometry sampleSky sampleWorld
      (show 60 ≤ (⟨800, 600⟩ : Canvas).cssW by norm_num) (by norm_num) (by decide +kernel)
      0 sampleCalls).1
  constructor
  · -- Eighteen units away, in the middle.
    refine (hmarks _).mpr (.inl ?_)
    have hselected : (picture sampleWorld sampleCalls).Selected false
        ⟨7, sampleWorld (7000000, 0, 0)⟩ :=
      ⟨7, rfl, rfl, fun h => Bool.false_ne_true h.1⟩
    have hp : sampleGeometry.orbitLens.projectToScreen (sampleWorld (7000000, 0, 0)) =
        some ⟨400, 300⟩ := by
      norm_num [sampleGeometry, sampleWorld, SCALE]
    exact Annotated.ring (p := ⟨400, 300⟩) hselected hp
  · refine (hmarks _).mpr (.inr ⟨_, List.mem_cons_self, ?_⟩)
    have hsun := hlocated
      ⟨⟨0, 2000, 0⟩, .name "Sun ●", "rgba(255,235,180,0.95)", .name "Sun", "rgba(255,220,140,0.95)"⟩
    rw [hview] at hsun
    show _ = place
      ⟨⟨0, 2000, 0⟩, .name "Sun ●", "rgba(255,235,180,0.95)", .name "Sun", "rgba(255,220,140,0.95)"⟩
    generalize place _ = m at hsun ⊢
    cases hsun with
    | seen hp =>
      -- It is projected to 24400.
      obtain ⟨hp, _, hright, _⟩ := hp
      norm_num [sampleGeometry] at hp
      rw [← hp] at hright
      norm_num at hright
    | @pointed s dx dy hoff hbears hs hedge =>
      have hdir := hbears.2 (by norm_num [sampleGeometry])
      norm_num [sampleGeometry] at hdir
      obtain ⟨rfl, rfl⟩ := hdir
      obtain ⟨_, _, hedge⟩ := hedge
      have h370 : s = 370 := by
        norm_num [abs_of_nonneg hs] at hedge
        exact hedge
      rw [h370]
      norm_num

end Scene
end Renderer
