import OrbitalViewer.FrontendMain
import OrbitalViewer.Picking

/-!
# Clicks

`wireOverlayPicking` of `frontend/js/main.js` with the `pick` of the renderer. The pointer
that turns the camera also selects, so a press that strays must not (`click_selects`).
-/

namespace FrontendMain
open NetConnection (World)
open NetParse (Vec3)
open Renderer (Point Geometry Scene)

/-- Where the pointer goes down. -/
def Event.press : Event → Option (ℚ × ℚ)
  | .pointerdown x y => some (x, y)
  | _ => none

/-- The pointer is too far from where it went down. -/
def Event.strays (press : ℚ × ℚ) : Event → Bool
  | .pointermove x y =>
    PICK_DRAG_THRESHOLD_PX < |x - press.1| ∨ PICK_DRAG_THRESHOLD_PX < |y - press.2|
  | _ => false

/-- Where it went down last. -/
def lastPress (events : List Event) : ℚ × ℚ := (events.reverse.findSome? Event.press).getD (0, 0)

/-- It has been too far since. -/
def dragged (events : List Event) : Bool :=
  (events.reverse.takeWhile fun e => e.press.isNone).any (Event.strays (lastPress events))

/-- What an event does to the pointer. -/
def Pointer.hear (p : Pointer) (e : Event) : Pointer :=
  match e.press with
  | some press => ⟨press.1, press.2, false⟩
  | none => { p with dragging := p.dragging || e.strays (p.downX, p.downY) }

variable {worldFromMeters : Vec3 → Point} {dateParse : String → Option ℚ}

/-! ## The pointer of a run -/

namespace Page

theorem connected_pointer (p : Page) (nowMs : ℚ) (w : World) :
    (p.connected worldFromMeters dateParse nowMs w).pointer = p.pointer := by
  refine List.foldlRecOn (motive := fun q : Page => q.pointer = p.pointer) _ _ rfl ?_
  intro q hq c _
  rw [← hq]
  cases c <;> rfl

theorem step_pointer (p : Page) (nowMs : ℚ) (e : Event) :
    (p.step worldFromMeters dateParse nowMs e).pointer = p.pointer.hear e := by
  have hstill : ({ p.pointer with dragging := p.pointer.dragging || false } : Pointer) =
      p.pointer := by rw [Bool.or_false]
  cases e with
  | settings call made =>
    refine Eq.trans ?_ hstill.symm
    unfold step onChange setEndpoint
    dsimp only
    split
    · split
      · exact connected_pointer _ _ _
      · rfl
    · rfl
  | reconnect made => exact (connected_pointer _ _ _).trans hstill.symm
  | browser e he => exact (connected_pointer _ _ _).trans hstill.symm
  | rowClick id => exact hstill.symm
  | pointerdown x y => rfl
  | pointermove x y =>
    unfold step Pointer.hear
    dsimp only [Event.press, Event.strays]
    split
    · rename_i hfar
      rw [decide_eq_true hfar, Bool.or_true]
    · rename_i hnear
      rw [decide_eq_false hnear]
      exact hstill.symm
  | pointerup picked =>
    refine Eq.trans ?_ hstill.symm
    unfold step
    dsimp only
    split <;> rfl
  | frame => exact hstill.symm
  | tick => exact hstill.symm

/-- The pointer remembers the last press, and whether it has strayed since. -/
theorem run_pointer {p : Page} (hfresh : p.pointer = {}) (events : List (ℚ × Event)) :
    (p.run worldFromMeters dateParse events).pointer =
      ⟨(lastPress (events.map Prod.snd)).1, (lastPress (events.map Prod.snd)).2,
        dragged (events.map Prod.snd)⟩ := by
  induction events using List.reverseRecOn with
  | nil => exact hfresh
  | append_singleton events e ih =>
    have hrun : (p.run worldFromMeters dateParse (events ++ [e])).pointer =
        (p.run worldFromMeters dateParse events).pointer.hear e.2 := by
      rw [Page.run, List.foldl_concat]
      exact step_pointer _ _ _
    have hreverse : ((events ++ [e]).map Prod.snd).reverse =
        e.2 :: (events.map Prod.snd).reverse := by
      rw [List.map_append, List.reverse_append]
      rfl
    rw [hrun, ih]
    unfold Pointer.hear dragged lastPress
    rw [hreverse]
    cases hpress : e.2.press with
    | some press => simp [hpress]
    | none => simp [hpress, Bool.or_comm]

end Page

variable (worldFromMeters dateParse) in
/-- **A click selects, a drag does not.** There is a page exactly when what is stored loads.
Whatever happened on it, when the pointer goes up nothing changes if it has been more than
five pixels from where it went down; else the renderer and the panel select what is picked
there, also if that is nothing. What is picked is an object of the last state whose category
is shown, or its satellite unless the view is from there, and is near. -/
theorem click_selects (geo : Geometry) (hostname : String) (fetched stored : Option (List Char))
    (dateNow nowMs : ℚ) (made : Bool) (events : List (ℚ × Event)) (x y upMs : ℚ) :
    SettingsStore.Loads stored ↔ ∃ st, Page.load fetched stored = some st ∧
      let p := (Page.boot worldFromMeters dateParse hostname dateNow nowMs st made).run worldFromMeters
        dateParse events
      let picked := p.renderer.pick geo worldFromMeters x y
      let p' := p.step worldFromMeters dateParse upMs (.pointerup picked)
      let near := p.renderer.reach geo worldFromMeters x y
      (dragged (events.map Prod.snd) = true → p' = p) ∧
      (dragged (events.map Prod.snd) = false →
        p'.renderer.selectedId = picked ∧ p'.uiSelected = picked) ∧
      (picked = none ↔ near = []) ∧
      ∀ id ∈ picked,
        (((p.renderer.computeActiveView geo worldFromMeters).fisheye = false ∧
            ∃ s ∈ p.model.satellite, s.id = id) ∨
          ∃ o ∈ p.model.objects, o.id = id ∧ (Renderer.normalizeSettings
            (some (rendererSettings p.settingsStore.current))).hidden o.cat = false) ∧
        ∃ b ∈ near, b.id = id ∧ ∀ c ∈ near, b.d ≤ c.d + 5001 / 10 ^ 9 := by
  obtain ⟨base, hbase, _⟩ := SiteConfig.merge_configured fetched
  constructor
  · intro hloads
    obtain ⟨st, hst⟩ := Option.isSome_iff_exists.mp (SettingsStore.createSettings_isSome.mpr
      ⟨hloads, SettingsStore.mergeSiteDefaults_isSome.mp (Option.isSome_of_eq_some hbase)⟩)
    refine ⟨st, hst, ?_⟩
    intro p picked p' near
    have hwired : p.Wired worldFromMeters dateParse :=
      (Page.boot_wired hostname dateNow (SettingsStore.createSettings_valid hst) made).run events
    have hpointer : p.pointer.dragging = dragged (events.map Prod.snd) :=
      congrArg Pointer.dragging (Page.run_pointer (Page.connected_pointer _ _ _) events)
    have hup : p' = if p.pointer.dragging then p else p.select picked := rfl
    rw [hpointer] at hup
    obtain ⟨hobjects, hsatellite⟩ := hwired.snapshot_model
    refine ⟨?_, ?_, Scene.pick_none, ?_⟩
    · intro hdragged
      rw [hup, if_pos hdragged]
    · intro hstill
      rw [hup, hstill]
      exact ⟨rfl, rfl⟩
    · intro id hid
      obtain ⟨hshown, b, _, hmem, hbid, hnear⟩ := hwired.scene.picked hid
      unfold Scene.Shown at hshown
      rw [hobjects, hsatellite, hwired.settings] at hshown
      exact ⟨hshown, b, hmem, hbid, hnear⟩
  · rintro ⟨st, hst, _⟩
    exact (SettingsStore.createSettings_isSome.mp (Option.isSome_iff_exists.mpr ⟨st, hst⟩)).1

end FrontendMain
