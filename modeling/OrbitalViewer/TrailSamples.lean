import OrbitalViewer.ServerFedTrails

/-!
# Samples of trails

What every trail keeps to, however the two feeds mix: its times do not decrease, it
is bounded by the cap of its feed, and it was refreshed lately. The rows that are
appended to a trail have ever later times (`trail_samples`).
-/

namespace Renderer
open NetParse (Vec3 ObjectRow TrailPointRow Satellite)

variable {W : Type} {worldFromMeters : Vec3 → W} {nowMs : ℚ} {trails trails' : Trails W}

/-! ## Pushing -/

section Push
variable {cap : ℕ} {x : Sample W} {s : List (Sample W)}

theorem push_suffix : push cap x s <:+ s ++ [x] := by
  unfold push
  split
  · exact List.tail_suffix _
  · exact List.suffix_refl _

theorem length_push (h : s.length ≤ cap) : (push cap x s).length ≤ cap := by
  unfold push
  split
  · rw [List.length_tail, List.length_append, List.length_singleton]
    omega
  · rename_i hle
    exact Nat.le_of_not_lt hle

theorem sorted_push (hs : s.Pairwise (·.t ≤ ·.t)) (hx : ∀ y ∈ s, y.t ≤ x.t) :
    (push cap x s).Pairwise (·.t ≤ ·.t) := by
  apply List.Pairwise.sublist push_suffix.sublist
  rw [List.pairwise_append]
  exact ⟨hs, List.pairwise_singleton _ _, fun y hy z hz => List.mem_singleton.mp hz ▸ hx y hy⟩

theorem mem_push {y : Sample W} (h : y ∈ push cap x s) : y ∈ s ∨ y = x := by
  simpa using push_suffix.subset h

theorem getLast?_push (hcap : 0 < cap) : (push cap x s).getLast? = some x := by
  unfold push
  split
  · rename_i hlt
    rw [List.length_append, List.length_singleton] at hlt
    obtain ⟨y, s, rfl⟩ := List.exists_cons_of_length_pos (show 0 < s.length by omega)
    rw [List.cons_append, List.tail_cons, List.getLast?_concat]
  · exact List.getLast?_concat

end Push

/-! ## Every trail -/

/-- What a trail keeps to at a time of the page's clock. -/
structure Kept (nowMs : ℚ) (k : Key) (t : Trail W) : Prop where
  sorted : t.s.Pairwise (·.t ≤ ·.t)
  bounded : t.s.length ≤ SERVER_TRAIL_CAP
  own : t.server = false → t.s.length ≤ TRAIL_CAP ∧ ∀ x ∈ t.s, x.t ≤ nowMs
  sat : ∀ id, k = .sat id → t.server = false

def Sound (nowMs : ℚ) (trails : Trails W) : Prop := ∀ k t, trails k = some t → Kept nowMs k t

theorem Sound.mono {later : ℚ} (h : Sound nowMs trails) (hle : nowMs ≤ later) :
    Sound later trails := by
  intro k t ht
  have hkept := h k t ht
  refine { hkept with own := fun hserver => ?_ }
  obtain ⟨hlen, hold⟩ := hkept.own hserver
  exact ⟨hlen, fun x hx => (hold x hx).trans hle⟩

theorem Sound.update (h : Sound nowMs trails) {k : Key} {t : Trail W} (ht : Kept nowMs k t) :
    Sound nowMs (Function.update trails k (some t)) := by
  intro k' t' ht'
  by_cases hk : k' = k
  · subst hk
    rw [Function.update_self] at ht'
    exact Option.some.inj ht' ▸ ht
  · rw [Function.update_of_ne hk] at ht'
    exact h k' t' ht'

/-- The times of a sorted trail are up to that of its newest sample. -/
theorem le_newest {t : Trail W} (hs : t.s.Pairwise (·.t ≤ ·.t)) {last : ℚ}
    (hlast : t.newest = some last) : ∀ x ∈ t.s, x.t ≤ last := by
  obtain ⟨y, hy, rfl⟩ := Option.map_eq_some_iff.mp hlast
  obtain ⟨s, hsplit⟩ := List.getLast?_eq_some_iff.mp hy
  rw [hsplit, List.pairwise_append] at hs
  intro x hx
  rw [hsplit] at hx
  rcases List.mem_append.mp hx with hx | hx
  · exact hs.2.2 x hx y (List.mem_singleton_self y)
  · exact (List.mem_singleton.mp hx ▸ le_refl _)

theorem newest_isSome {t : Trail W} {x : Sample W} (hx : x ∈ t.s) : ∃ last, t.newest = some last := by
  have hne := List.ne_nil_of_mem hx
  exact ⟨_, congrArg (Option.map Sample.t) (List.getLast?_eq_some_getLast hne)⟩

/-- A trail that the page built, or none. -/
def Own (trails : Trails W) (k : Key) : Prop := ∀ t, trails k = some t → t.server = false

theorem Sound.samples (h : Sound nowMs trails) (k : Key) :
    ((trails k).elim [] (·.s)).Pairwise (·.t ≤ ·.t) ∧
      ((trails k).elim [] (·.s)).length ≤ SERVER_TRAIL_CAP ∧
      (Own trails k → ((trails k).elim [] (·.s)).length ≤ TRAIL_CAP ∧
        ∀ x ∈ (trails k).elim [] (·.s), x.t ≤ nowMs) := by
  cases htrail : trails k with
  | none => exact ⟨.nil, Nat.zero_le _, fun _ => ⟨Nat.zero_le _, fun x hx => nomatch hx⟩⟩
  | some t =>
    have hkept := h k t htrail
    exact ⟨hkept.sorted, hkept.bounded, fun hown => hkept.own (hown t htrail)⟩

/-- A trail with a sample of the page's clock. -/
theorem Sound.kept_own (h : Sound nowMs trails) {k : Key} (hown : Own trails k) (cat : Option String)
    (w : W) : Kept nowMs k
      { cat, s := push TRAIL_CAP ⟨nowMs, w⟩ ((trails k).elim [] (·.s)) } := by
  obtain ⟨hsorted, _, hall⟩ := h.samples k
  obtain ⟨hlen, hold⟩ := hall hown
  have hcap := length_push (x := ⟨nowMs, w⟩) hlen
  refine ⟨sorted_push hsorted hold, hcap.trans (by decide), fun _ => ⟨hcap, fun x hx => ?_⟩,
    fun _ _ => rfl⟩
  rcases mem_push hx with hx | rfl
  · exact hold x hx
  · exact le_refl _

theorem Sound.point (h : Sound nowMs trails) (serverTimeMs : ℚ) (objects : List ObjectRow)
    (p : TrailPointRow) :
    Sound nowMs (appendPoint worldFromMeters nowMs serverTimeMs objects trails p) := by
  unfold appendPoint
  split
  · rename_i htakes
    obtain ⟨_, hlater⟩ := takes_iff.mp htakes
    obtain ⟨hsorted, hlen, _⟩ := h.samples (.object p.id)
    have hold : ∀ y ∈ (trails (.object p.id)).elim [] (·.s), y.t ≤ mapped nowMs serverTimeMs p := by
      intro y hy
      cases htrail : trails (.object p.id) with
      | none =>
        rw [htrail] at hy
        cases hy
      | some t =>
        rw [htrail] at hy hsorted hlater
        obtain ⟨last, hlast⟩ := newest_isSome hy
        exact (le_newest hsorted hlast y hy).trans (hlater last hlast).le
    exact h.update ⟨sorted_push hsorted hold, length_push hlen, nofun, nofun⟩
  · exact h

theorem Sound.position (h : Sound nowMs trails) (o : ObjectRow) :
    Sound nowMs (appendObject worldFromMeters nowMs trails o) := by
  unfold appendObject
  split
  · rename_i hfeeds
    have hown : Own trails (.object o.id) := by
      intro t ht
      unfold feeds at hfeeds
      rw [ht, Option.any_some] at hfeeds
      simpa using (Bool.and_eq_true_iff.mp hfeeds).2
    exact h.update (h.kept_own hown _ _)
  · exact h

theorem Sound.satellite (h : Sound nowMs trails) (s : Satellite) :
    Sound nowMs (appendSatellite worldFromMeters nowMs trails s) := by
  have hown : Own trails (.sat s.id) := fun t ht => (h _ t ht).sat s.id rfl
  have hkept := h.kept_own hown ((trails (.sat s.id)).getD { cat := none, s := [] }).cat
    (worldFromMeters s.pos)
  apply h.update
  cases htrail : trails (.sat s.id) with
  | none =>
    rw [htrail] at hkept
    exact hkept
  | some t =>
    rw [htrail] at hkept
    have hserver := hown t htrail
    obtain ⟨cat, samples, server⟩ := t
    obtain rfl : server = false := hserver
    exact hkept

theorem prune_some {k : Key} {t : Trail W} (h : prune nowMs trails k = some t) :
    trails k = some t ∧ ∃ last, t.newest = some last ∧ nowMs - last ≤ 65000 := by
  obtain ⟨ht, hfresh⟩ := Option.filter_eq_some_iff.mp h
  refine ⟨ht, ?_⟩
  obtain ⟨last, hlast, hle⟩ := (Option.any_eq_true _ _).mp hfresh
  exact ⟨last, hlast, not_lt.mp (of_decide_eq_true hle)⟩

theorem Sound.foldl {α : Type} {f : Trails W → α → Trails W}
    (hf : ∀ trails x, Sound nowMs trails → Sound nowMs (f trails x)) (h : Sound nowMs trails)
    (xs : List α) : Sound nowMs (xs.foldl f trails) := by
  induction xs generalizing trails with
  | nil => exact h
  | cons x xs ih => exact ih (hf trails x h)

theorem Sound.call (h : Sound nowMs trails) (snapshot : Option Snapshot) :
    Sound nowMs (appendTrails worldFromMeters nowMs snapshot trails) := by
  intro k t ht
  refine (?_ : Sound nowMs _) k t (prune_some ht).1
  cases snapshot with
  | none => exact h
  | some snap =>
    have hpoints : Sound nowMs (appendPoints worldFromMeters nowMs snap trails) := by
      unfold appendPoints
      split
      · exact h
      · exact Sound.foldl (fun _ p hs => hs.point _ _ p) h _
    have hobjects : Sound nowMs (appendObjects worldFromMeters nowMs snap
        (appendPoints worldFromMeters nowMs snap trails)) :=
      Sound.foldl (fun _ o hs => hs.position o) hpoints _
    dsimp only
    unfold appendSatelliteOf
    split
    · exact hobjects
    · exact hobjects.satellite _

/-- The clock of the calls does not go back. -/
def Steady (calls : List Call) : Prop := calls.Pairwise (·.nowMs ≤ ·.nowMs)

theorem world_sound {calls : List Call} (hclock : Steady calls) (hnow : ∀ c ∈ calls, c.nowMs ≤ nowMs) :
    Sound nowMs (world worldFromMeters calls) := by
  induction calls using List.reverseRecOn generalizing nowMs with
  | nil => exact fun k t ht => nomatch ht
  | append_singleton calls c ih =>
    obtain ⟨hbefore, _, hlast⟩ := List.pairwise_append.mp hclock
    have hold : Sound c.nowMs (world worldFromMeters calls) :=
      ih hbefore fun d hd => hlast d hd c (List.mem_singleton_self c)
    rw [world_append]
    exact (hold.call c.snapshot).mono (hnow c (by simp))

/-! ## Rows of a run -/

/-- A turn of a loop of a call, or its end. -/
inductive Turn
  | point (nowMs serverTimeMs : ℚ) (objects : List ObjectRow) (p : TrailPointRow)
  | position (nowMs : ℚ) (o : ObjectRow)
  | satellite (nowMs : ℚ) (s : Satellite)
  | prune (nowMs : ℚ)

section Turns
variable (worldFromMeters)

def Turn.apply (trails : Trails W) : Turn → Trails W
  | point nowMs serverTimeMs objects p =>
    appendPoint worldFromMeters nowMs serverTimeMs objects trails p
  | position nowMs o => appendObject worldFromMeters nowMs trails o
  | satellite nowMs s => appendSatellite worldFromMeters nowMs trails s
  | prune nowMs => Renderer.prune nowMs trails

def turned (turns : List Turn) : Trails W := turns.foldl (Turn.apply worldFromMeters) fun _ => none

end Turns

def Snapshot.rowTurns (nowMs : ℚ) (snap : Snapshot) : List Turn :=
  match snap.serverTimeMs with
  | none => []
  | some ms => snap.trailPoints.map (.point nowMs ms snap.objects)

def Snapshot.turns (nowMs : ℚ) (snap : Snapshot) : List Turn :=
  snap.rowTurns nowMs ++ snap.objects.map (.position nowMs) ++
    snap.satellite.toList.map (.satellite nowMs)

def Call.turns (c : Call) : List Turn :=
  c.snapshot.elim [] (Snapshot.turns c.nowMs) ++ [.prune c.nowMs]

theorem appendPoints_turns (snap : Snapshot) :
    appendPoints worldFromMeters nowMs snap trails =
      (snap.rowTurns nowMs).foldl (Turn.apply worldFromMeters) trails := by
  unfold appendPoints Snapshot.rowTurns
  cases snap.serverTimeMs with
  | none => rfl
  | some ms =>
    dsimp only
    rw [List.foldl_map]
    rfl

theorem appendObjects_turns (snap : Snapshot) :
    appendObjects worldFromMeters nowMs snap trails =
      (snap.objects.map (.position nowMs)).foldl (Turn.apply worldFromMeters) trails := by
  rw [appendObjects, List.foldl_map]
  rfl

theorem appendSatelliteOf_turns (snap : Snapshot) :
    appendSatelliteOf worldFromMeters nowMs snap trails =
      (snap.satellite.toList.map (.satellite nowMs)).foldl (Turn.apply worldFromMeters) trails := by
  unfold appendSatelliteOf
  cases snap.satellite <;> rfl

theorem appendTrails_turns (c : Call) :
    appendTrails worldFromMeters c.nowMs c.snapshot trails =
      c.turns.foldl (Turn.apply worldFromMeters) trails := by
  rw [Call.turns, List.foldl_append]
  cases c.snapshot with
  | none => rfl
  | some snap =>
    rw [Option.elim_some, Snapshot.turns, List.foldl_append, List.foldl_append, ← appendPoints_turns,
      ← appendObjects_turns, ← appendSatelliteOf_turns]
    rfl

/-- A run of calls is a run of the turns of their loops. -/
theorem world_turns (calls : List Call) :
    world worldFromMeters calls = turned worldFromMeters (calls.flatMap Call.turns) := by
  induction calls using List.reverseRecOn with
  | nil => rfl
  | append_singleton calls c ih =>
    rw [world_append, ih, appendTrails_turns, turned, turned, ← List.foldl_append]
    simp

/-- The trail is the server's, with a sample of the time or later. -/
def Reached (time : ℚ) (trails : Trails W) (id : ℚ) : Prop :=
  ∃ t last, trails (.object id) = some t ∧ t.server = true ∧ t.newest = some last ∧ time ≤ last

/-- The turn appends the row at the time. -/
def AppendsRow (trails : Trails W) (p : TrailPointRow) (time : ℚ) : Turn → Prop
  | .point nowMs serverTimeMs objects q =>
    q = p ∧ mapped nowMs serverTimeMs p = time ∧ takes nowMs serverTimeMs objects trails p = true
  | _ => False

section Reached
variable {id time : ℚ}

theorem Reached.congr (h : Reached time trails id)
    (hsame : trails' (.object id) = trails (.object id)) : Reached time trails' id := by
  obtain ⟨t, last, ht, hrest⟩ := h
  exact ⟨t, last, hsame.trans ht, hrest⟩

theorem Reached.serverFed (h : Reached time trails id) : ServerFed trails id := by
  obtain ⟨t, last, ht, hserver, _⟩ := h
  exact ⟨t, ht, hserver⟩

theorem newest_push (cat : Option String) (x : Sample W) (s : List (Sample W)) :
    ({ cat, s := push SERVER_TRAIL_CAP x s, server := true } : Trail W).newest = some x.t := by
  have hlast : (push SERVER_TRAIL_CAP x s).getLast? = some x := getLast?_push (by decide)
  exact congrArg (Option.map Sample.t) hlast

theorem reached_appendPoint {serverTimeMs : ℚ} {objects : List ObjectRow} {p : TrailPointRow}
    (h : takes nowMs serverTimeMs objects trails p = true) :
    Reached (mapped nowMs serverTimeMs p)
      (appendPoint worldFromMeters nowMs serverTimeMs objects trails p) p.id := by
  unfold appendPoint
  rw [if_pos h]
  exact ⟨_, _, Function.update_self .., rfl, newest_push _ _ _, le_refl _⟩

theorem Reached.point (h : Reached time trails id) (serverTimeMs : ℚ) (objects : List ObjectRow)
    (p : TrailPointRow) :
    Reached time (appendPoint worldFromMeters nowMs serverTimeMs objects trails p) id := by
  by_cases hid : p.id = id
  · subst hid
    cases htakes : takes nowMs serverTimeMs objects trails p with
    | false =>
      apply h.congr
      unfold appendPoint
      rw [htakes]
      rfl
    | true =>
      obtain ⟨t, last, ht, _, hlast, hle⟩ := h
      have hnew : Reached (mapped nowMs serverTimeMs p)
          (appendPoint worldFromMeters nowMs serverTimeMs objects trails p) p.id :=
        reached_appendPoint htakes
      obtain ⟨t', last', ht', hserver', hlast', hle'⟩ := hnew
      have hlater : last < mapped nowMs serverTimeMs p := by
        apply (takes_iff.mp htakes).2
        rw [ht]
        exact hlast
      exact ⟨t', last', ht', hserver', hlast', (hle.trans hlater.le).trans hle'⟩
  · exact h.congr (appendPoint_other p fun heq => hid (Key.object.inj heq).symm)

/-- Only at the end of a call can the trail go. -/
theorem Reached.turn (h : Reached time trails id) (x : Turn)
    (hthere : (x.apply worldFromMeters trails (.object id)).isSome = true) :
    Reached time (x.apply worldFromMeters trails) id := by
  cases x with
  | point nowMs serverTimeMs objects p => exact h.point serverTimeMs objects p
  | position nowMs o => exact h.congr (appendObject_same h.serverFed o)
  | satellite nowMs s =>
    exact h.congr (appendSatellite_object s id)
  | prune nowMs =>
    obtain ⟨t, ht⟩ := Option.isSome_iff_exists.mp hthere
    exact h.congr (ht.trans (prune_some ht).1.symm)

end Reached

theorem turned_append (before : List Turn) (x : Turn) :
    turned worldFromMeters (before ++ [x]) =
      x.apply worldFromMeters (turned worldFromMeters before) := by
  rw [turned, List.foldl_append]
  rfl

/-- Of two rows that are appended to a trail the later has the later time. -/
theorem rows_later {before mid : List Turn} {x y : Turn} {p q : TrailPointRow} {a b : ℚ}
    (hx : AppendsRow (turned worldFromMeters before) p a x) (hid : q.id = p.id)
    (hthere : ∀ m, m <+: mid →
      (turned worldFromMeters (before ++ x :: m) (.object p.id)).isSome = true)
    (hy : AppendsRow (turned worldFromMeters (before ++ x :: mid)) q b y) : a < b := by
  have hreached : ∀ m, m <+: mid → Reached a (turned worldFromMeters (before ++ x :: m)) p.id := by
    intro m
    induction m using List.reverseRecOn with
    | nil =>
      intro _
      rw [turned_append]
      cases x with
      | point nowMs serverTimeMs objects q' =>
        obtain ⟨rfl, rfl, htakes⟩ := hx
        exact reached_appendPoint htakes
      | _ => exact hx.elim
    | append_singleton m z ih =>
      intro hm
      have hbefore := ih ((List.prefix_append m [z]).trans hm)
      have hsplit : before ++ x :: (m ++ [z]) = (before ++ x :: m) ++ [z] := by simp
      have hhere := hthere _ hm
      rw [hsplit, turned_append] at hhere ⊢
      exact hbefore.turn z hhere
  cases y with
  | point nowMs serverTimeMs objects q' =>
    obtain ⟨rfl, rfl, htakes⟩ := hy
    obtain ⟨t, last, ht, _, hlast, hle⟩ := hreached mid (List.prefix_refl mid)
    refine hle.trans_lt ((takes_iff.mp htakes).2 last ?_)
    rw [hid, ht]
    exact hlast
  | _ => exact hy.elim

/-- No row is appended a second time. -/
def AppendedOnce (worldFromMeters : Vec3 → W) (calls : List Call) : Prop :=
  ∀ before x mid y after p q a b, calls.flatMap Call.turns = before ++ x :: (mid ++ y :: after) →
    AppendsRow (turned worldFromMeters before) p a x →
    AppendsRow (turned worldFromMeters (before ++ x :: mid)) q b y → ¬ (p.id = q.id ∧ p.t = q.t)

/-- **However the feeds mix.** After every call of a run whose clock does not go back,
the times of a trail do not decrease, it keeps to its cap, the trail of a satellite is
the page's own, and what is left was refreshed within 65 s. Rows appended to a trail
while it is there have ever later times. -/
theorem trail_samples (calls : List Call) (hclock : Steady calls) :
    (∀ before c after, calls = before ++ c :: after →
      ∀ k t, world worldFromMeters (before ++ [c]) k = some t →
        t.s.Pairwise (·.t ≤ ·.t) ∧
        (t.server = false → t.s.length ≤ TRAIL_CAP) ∧ t.s.length ≤ SERVER_TRAIL_CAP ∧
        (∀ id, k = .sat id → t.server = false) ∧
        ∃ last, t.newest = some last ∧ c.nowMs - last ≤ 65000) ∧
    (∀ before x mid y after p q a b,
      calls.flatMap Call.turns = before ++ x :: (mid ++ y :: after) → q.id = p.id →
      AppendsRow (turned worldFromMeters before) p a x →
      AppendsRow (turned worldFromMeters (before ++ x :: mid)) q b y →
      (∀ m, m <+: mid →
        (turned worldFromMeters (before ++ x :: m) (.object p.id)).isSome = true) → a < b) := by
  refine ⟨?_, fun _ _ _ _ _ _ _ _ _ _ hid hx hy hthere => rows_later hx hid hthere hy⟩
  intro before c after hcalls k t ht
  have hprefix : before ++ [c] <+: calls := ⟨after, by simp [hcalls]⟩
  have hsteady : Steady (before ++ [c]) := hclock.sublist hprefix.sublist
  have hnow : ∀ d ∈ before ++ [c], d.nowMs ≤ c.nowMs := by
    intro d hd
    rcases List.mem_append.mp hd with hd | hd
    · exact (List.pairwise_append.mp hsteady).2.2 d hd c (List.mem_singleton_self c)
    · exact (List.mem_singleton.mp hd ▸ le_refl _)
  have hsound : Sound c.nowMs (world worldFromMeters (before ++ [c])) := world_sound hsteady hnow
  have hkept := hsound k t ht
  rw [world_append] at ht
  exact ⟨hkept.sorted, fun hserver => (hkept.own hserver).1, hkept.bounded, hkept.sat,
    (prune_some ht).2⟩

theorem promptRun_samples :
    ∃ t, world (fun _ => ()) [callAt 1 [], callAt 2 [19 / 10]] (.object 7) = some t ∧
      t.s.Pairwise (·.t ≤ ·.t) ∧ t.s.length ≤ SERVER_TRAIL_CAP ∧
      ∃ last, t.newest = some last ∧ (callAt 2 [19 / 10]).nowMs - last ≤ 65000 := by
  have hclock : Steady [callAt 1 [], callAt 2 [19 / 10]] := by norm_num [Steady, callAt]
  have hthere : (world (fun _ => ()) [callAt 1 [], callAt 2 [19 / 10]] (.object 7)).isSome = true := by
    decide +kernel
  obtain ⟨t, ht⟩ := Option.isSome_iff_exists.mp hthere
  obtain ⟨hsorted, _, hbounded, _, hlate⟩ :=
    (trail_samples _ hclock).1 [callAt 1 []] (callAt 2 [19 / 10]) [] rfl _ t ht
  exact ⟨t, ht, hsorted, hbounded, hlate⟩

def debrisPoint : TrailPointRow where
  id := 7
  t := 9 / 10
  pos := (7000000, 0, 0)

/-- One message, passed on in two seconds of the page. -/
def resentRun : List Call :=
  [{ callAt 1 [9 / 10] with nowMs := 1000 }, { callAt 1 [9 / 10] with nowMs := 2000 }]

/-- Its row is appended in both. -/
theorem resentRun_twice : Steady resentRun ∧ ¬ AppendedOnce (fun _ => ()) resentRun := by
  have hclock : Steady resentRun := by norm_num [Steady, resentRun]
  refine ⟨hclock, fun h => ?_⟩
  have hturns : resentRun.flatMap Call.turns =
      [.point 1000 1000 [debrisRow] debrisPoint, .position 1000 debrisRow, .prune 1000,
        .point 2000 1000 [debrisRow] debrisPoint, .position 2000 debrisRow, .prune 2000] := by
    norm_num [resentRun, callAt, Call.turns, Snapshot.turns, Snapshot.rowTurns, debrisPoint]
  exact h [] _ [_, _] _ [_, _] debrisPoint debrisPoint 900 1900 hturns
    ⟨rfl, by norm_num [mapped, debrisPoint], by decide +kernel⟩
    ⟨rfl, by norm_num [mapped, debrisPoint], by decide +kernel⟩ ⟨rfl, rfl⟩

end Renderer
