import OrbitalViewer.Broadcast

/-!
# The broadcast of an OLV1 run

What a tick sends is a snapshot of the store, so its numbers print well when
those of the store do (`Showable.prints`). The decoder bounds every number an
OLV1 store holds; `olv1_broadcast_read` puts the two together over whole runs.
-/

namespace Olv
open Ieee (Datum F32 F64)
open Decimal (fixed rounded)
open NetParse (parseStateMessage)

/-! ## What a tick broadcasts -/

/-- `WsServer::broadcastTick`: the snapshot it takes, with its own sequence. -/
def broadcastSnapshot (s : StateStore) (mono : Int) (broadcastSeq : Nat) : Snapshot :=
  let snap := (s.snapshot mono).1
  { snap with stats := { snap.stats with broadcastSeq } }

structure FiniteVelocity (sat : SatelliteState) : Prop where
  vx : sat.vx.datum.isFinite = true
  vy : sat.vy.datum.isFinite = true
  vz : sat.vz.datum.isFinite = true

/-- Every number a snapshot of the store can hold prints well. -/
structure Showable (s : StateStore) : Prop where
  sound : SoundStore s
  velocity : ∀ sat ∈ s.satellite, FiniteVelocity sat
  times : ∀ tp ∈ s.pendingTrail, Prints 3 tp.t.datum

theorem mem_broadcast {s : StateStore} (h : SoundStore s) {mono : Int} {seq : Nat} :
    ∀ o ∈ (broadcastSnapshot s mono seq).objects, SoundObject o := by
  intro o ho
  obtain ⟨id, stored, htable, rfl⟩ := StateStore.mem_rows.mp ho
  exact (StateStore.sound_snapshot h mono).objects id stored htable

theorem Showable.prints {s : StateStore} (h : Showable s) (mono : Int) (seq : Nat) :
    PrintsSnapshot (broadcastSnapshot s mono seq) where
  satellite := by
    intro sat hsat
    obtain ⟨hx, hy, hz⟩ := h.sound.satellite sat hsat
    obtain ⟨hvx, hvy, hvz⟩ := h.velocity sat hsat
    exact ⟨(coordinate_prints hx).2, (coordinate_prints hy).2, (coordinate_prints hz).2,
      (float_prints hvx (by decide) (by decide)).2, (float_prints hvy (by decide) (by decide)).2,
      (float_prints hvz (by decide) (by decide)).2⟩
  objects := by
    intro o ho
    obtain ⟨hx, hy, hz, hvx, hvy, hvz, hi⟩ := mem_broadcast h.sound o ho
    exact ⟨(coordinate_prints hx).2, (coordinate_prints hy).2, (coordinate_prints hz).2,
      (float_prints hvx (by decide) (by decide)).2, (float_prints hvy (by decide) (by decide)).2,
      (float_prints hvz (by decide) (by decide)).2, (float_prints hi (by decide) (by decide)).2⟩
  trailPoints := by
    intro tp htp
    obtain ⟨hx, hy, hz⟩ := h.sound.trail tp htp
    exact ⟨h.times tp htp, (coordinate_prints hx).2, (coordinate_prints hy).2,
      (coordinate_prints hz).2⟩
  rate := (rate_prints (s.liveAcceptTimes mono)).2

/-! ## No number is cut -/

/-- The calls of `appendFloat` for a message: the decimals and the value. -/
def printedFloats (snap : Snapshot) : List (Nat × Datum) :=
  let vec (p : Nat) (x y z : Datum) : List (Nat × Datum) := [(p, x), (p, y), (p, z)]
  (snap.satellite.elim [] fun sat =>
    vec 1 sat.px.datum sat.py.datum sat.pz.datum ++ vec 2 sat.vx.datum sat.vy.datum sat.vz.datum) ++
  snap.objects.flatMap (fun o =>
    vec 1 o.px.datum o.py.datum o.pz.datum ++
    (if o.hasVelocity then vec 2 o.vx.datum o.vy.datum o.vz.datum else []) ++
    [(1, o.intensity.datum)]) ++
  snap.trailPoints.flatMap (fun tp =>
    (3, tp.t.datum) :: vec 1 tp.px.datum tp.py.datum tp.pz.datum) ++
  [(2, snap.stats.udpRateHz.datum)]

/-- The text of a value fits the buffer, one of whose 48 bytes is the terminator. -/
def Uncut (v : Nat × Datum) : Prop := (fixed v.1 v.2).length ≤ 47

theorem uncut_vec {p : Nat} {x y z : Datum} (hx : Uncut (p, x)) (hy : Uncut (p, y))
    (hz : Uncut (p, z)) : ∀ v ∈ [(p, x), (p, y), (p, z)], Uncut v := by
  simp only [List.forall_mem_cons]
  exact ⟨hx, hy, hz, by simp⟩

theorem Showable.uncut {s : StateStore} (h : Showable s) (htrail : s.pendingTrail = []) (mono : Int)
    (seq : Nat) : ∀ v ∈ printedFloats (broadcastSnapshot s mono seq), Uncut v := by
  have hnone : (broadcastSnapshot s mono seq).trailPoints = [] := htrail
  have hfloat {x : F32} (hx : x.datum.isFinite = true) : Uncut (2, x.datum) :=
    (float_prints (p := 2) hx (by decide) (by decide)).1
  simp only [printedFloats, hnone, List.flatMap_nil, List.append_nil, List.forall_mem_append]
  refine ⟨⟨?_, ?_⟩, ?_⟩
  · cases hsat : (broadcastSnapshot s mono seq).satellite with
    | none => simp
    | some sat =>
      obtain ⟨hx, hy, hz⟩ := h.sound.satellite sat hsat
      obtain ⟨hvx, hvy, hvz⟩ := h.velocity sat hsat
      exact List.forall_mem_append.mpr
        ⟨uncut_vec (coordinate_prints hx).1 (coordinate_prints hy).1 (coordinate_prints hz).1,
          uncut_vec (hfloat hvx) (hfloat hvy) (hfloat hvz)⟩
  · intro v hv
    obtain ⟨o, ho, hv⟩ := List.mem_flatMap.mp hv
    obtain ⟨hx, hy, hz, hvx, hvy, hvz, hi⟩ := mem_broadcast h.sound o ho
    have hpos := uncut_vec (coordinate_prints hx).1 (coordinate_prints hy).1 (coordinate_prints hz).1
    rcases List.mem_append.mp hv with hv | hv
    · rcases List.mem_append.mp hv with hv | hv
      · exact hpos v hv
      · split at hv
        · exact uncut_vec (hfloat hvx) (hfloat hvy) (hfloat hvz) v hv
        · cases hv
    · rw [List.mem_singleton.mp hv]
      exact (float_prints (p := 1) hi (by decide) (by decide)).1
  · intro v hv
    rw [List.mem_singleton.mp hv]
    exact (rate_prints (s.liveAcceptTimes mono)).1

/-! ## Runs -/

/-- What an OLV1 store keeps: it never has a trail point. -/
structure Olv1Store (s : StateStore) : Prop where
  sound : SoundStore s
  velocity : ∀ sat ∈ s.satellite, FiniteVelocity sat
  trail : s.pendingTrail = []

theorem Olv1Store.showable {s : StateStore} (h : Olv1Store s) : Showable s where
  sound := h.sound
  velocity := h.velocity
  times := by
    rw [h.trail]
    rintro _ ⟨⟩

theorem refused_store {M : Type} (o : Outcome) (log : List LogLine) (drop : Option DropKind) (m : M)
    (s : StateStore) : (refused o log drop m s).store.satellite = s.satellite ∧
      (refused o log drop m s).store.pendingTrail = s.pendingTrail := by
  cases drop with
  | none => exact ⟨rfl, rfl⟩
  | some kind => cases kind <;> exact ⟨rfl, rfl⟩

theorem apply_store (pkt : Proto.StatePacket) (wall mono : Int) (s : StateStore) :
    (∀ sat ∈ (s.apply pkt wall mono).2.satellite,
      sat ∈ s.satellite ∨ sat = StateStore.satelliteOf pkt) ∧
    (s.apply pkt wall mono).2.pendingTrail = s.pendingTrail := by
  unfold StateStore.apply
  split
  · exact ⟨fun _ h => .inl h, rfl⟩
  · exact ⟨fun _ h => .inr (Option.some.inj h).symm, rfl⟩

theorem olv1Store_step {s : olv1InputSource.State} (e : Event) (h : Olv1Store s.store) :
    Olv1Store (olv1InputSource.step e s).2.store := by
  have hsound := olv1_step_sound h.sound e
  cases e with
  | snapshot mono => exact ⟨hsound, h.velocity, rfl⟩
  | datagram d =>
    have hproc : (olv1InputSource.step (.datagram d) s).2.store =
        (Olv1InputSource.handleDatagram d s.store).store := rfl
    rw [hproc] at hsound ⊢
    rcases Olv1InputSource.handleDatagram_cases d with ⟨_, reason, log, heq⟩ | ⟨hv, heq⟩
    · rw [heq] at hsound ⊢
      obtain ⟨hsat, htrail⟩ := refused_store (.malformed reason) log (some .kMalformed) ()
        (s.store.countReceived d.bytes.length)
      exact ⟨hsound, fun sat hmem => h.velocity sat (hsat ▸ hmem), htrail.trans h.trail⟩
    · obtain ⟨log, hs⟩ := heq s.store
      obtain ⟨hheader, _⟩ := ((Proto.verdict_iff d.bytes).mp hv).sound
      obtain ⟨hsat, htrail⟩ := apply_store (Proto.packetAt d.bytes) d.wall d.mono
        (s.store.countReceived d.bytes.length)
      rw [hs] at hsound ⊢
      refine ⟨hsound, fun sat hmem => ?_, htrail.trans h.trail⟩
      rcases hsat sat hmem with hold | rfl
      · exact h.velocity sat hold
      · exact ⟨hheader.vx, hheader.vy, hheader.vz⟩

/-- **Backend and frontend agree on every OLV1 state**: the broadcast is accepted
and shows the satellite and every row, and no number in it is cut off. -/
theorem olv1_broadcast_read (expiry : Int) (events : List Event) (mono serverTime : Int)
    (broadcastSeq : Nat) (wsClients : BitVec 32) :
    let snap := broadcastSnapshot (olv1InputSource.run (olv1InputSource.start expiry) events).store
      mono broadcastSeq
    (∃ m, parseStateMessage (buildStateMessage snap serverTime wsClients) = .ok (.state m) ∧
      m.satellite = snap.satellite.map shownSatellite ∧
      m.objects = snap.objects.map shownObject ∧ m.trailPoints = []) ∧
    ∀ v ∈ printedFloats snap, Uncut v := by
  have hempty : Olv1Store { objectExpiry := expiry } :=
    ⟨StateStore.sound_empty expiry, by rintro _ ⟨⟩, rfl⟩
  have hrun := @InputSource.run_store olv1InputSource _ (fun _ e h => olv1Store_step e h)
    (s := olv1InputSource.start expiry) hempty events
  have hread := message_read (hrun.showable.prints mono broadcastSeq) serverTime wsClients
  exact ⟨⟨_, hread, rfl, rfl, congrArg (List.map shownTrailPoint) hrun.trail⟩,
    hrun.showable.uncut hrun.trail mono broadcastSeq⟩

end Olv
