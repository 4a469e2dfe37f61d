import OrbitalViewer.DisInputSource
import OrbitalViewer.ProtocolOlv2RoundTrip
import OrbitalViewer.StateStoreHistory

/-!
# What the store holds is bounded

`SoundStore` is the bound the JSON writer relies on: positions finite and within
1e13 m, object velocities and intensities finite. OLV1 and OLV2 keep it because
their decoders check it. DIS checks nothing, so it keeps the bound exactly as
long as the PDUs it admits are bounded themselves (`Bounded`).
-/

namespace Olv
open Wire (Byte)
open Proto (Coordinate byteAt)
open Ieee (F32 F64)

structure SoundSatellite (sat : SatelliteState) : Prop where
  px : Coordinate sat.px
  py : Coordinate sat.py
  pz : Coordinate sat.pz

structure SoundObject (o : SnapshotObject) : Prop where
  px : Coordinate o.px
  py : Coordinate o.py
  pz : Coordinate o.pz
  vx : o.vx.datum.isFinite = true
  vy : o.vy.datum.isFinite = true
  vz : o.vz.datum.isFinite = true
  intensity : o.intensity.datum.isFinite = true

structure SoundTrailPoint (p : TrailPoint) : Prop where
  px : Coordinate p.px
  py : Coordinate p.py
  pz : Coordinate p.pz

structure SoundStore (s : StateStore) : Prop where
  satellite : ∀ sat ∈ s.satellite, SoundSatellite sat
  objects : ∀ id o, StateStore.table s.objects id = some o → SoundObject o.obj
  trail : ∀ p ∈ s.pendingTrail, SoundTrailPoint p

/-! ## The store's calls -/

namespace StateStore
variable {s : StateStore}

theorem sound_empty (expiry : Int) : SoundStore { objectExpiry := expiry } where
  satellite := by rintro _ ⟨⟩
  objects := by rintro _ _ ⟨⟩
  trail := by rintro _ ⟨⟩

theorem sound_countReceived (h : SoundStore s) (n : Nat) : SoundStore (s.countReceived n) :=
  ⟨h.satellite, h.objects, h.trail⟩

theorem sound_countDropped (h : SoundStore s) (kind : DropKind) :
    SoundStore (s.countDropped kind) := by
  cases kind <;> exact ⟨h.satellite, h.objects, h.trail⟩

theorem sound_refused {M : Type} (h : SoundStore s) (o : Outcome) (log : List LogLine)
    (drop : Option DropKind) (m : M) (n : Nat) :
    SoundStore (refused o log drop m (s.countReceived n)).store := by
  cases drop with
  | none => exact sound_countReceived h n
  | some kind => exact sound_countDropped (sound_countReceived h n) kind

theorem sound_objectOf {r : Proto.ObjectRecord} (h : Proto.SoundRecord r) :
    SoundObject (objectOf r) :=
  ⟨h.px, h.py, h.pz, h.vx, h.vy, h.vz, h.intensity⟩

theorem sound_apply (h : SoundStore s) {pkt : Proto.StatePacket}
    (hsat : SoundSatellite (satelliteOf pkt)) (hr : ∀ r ∈ pkt.objects, Proto.SoundRecord r)
    (wall mono : Int) : SoundStore (s.apply pkt wall mono).2 := by
  unfold apply
  split
  · exact ⟨h.satellite, h.objects, h.trail⟩
  · have hrecords : ∀ r ∈ pkt.objects, SoundObject (objectOf r) := fun r hmem =>
      sound_objectOf (hr r hmem)
    refine ⟨fun sat hs => ?_, every_merge mono pkt.objects hrecords h.objects, h.trail⟩
    exact Option.some.inj hs ▸ hsat

theorem sound_applyTrack (h : SoundStore s) {u : TrackUpdate} (hsat : SoundSatellite u.satellite)
    (htarget : SoundObject u.target) (htrail : ∀ p ∈ u.trail, SoundTrailPoint p) (wall mono : Int) :
    SoundStore (s.applyTrack u wall mono) where
  satellite := by
    intro sat hs
    simp only [applyTrack] at hs
    split at hs
    · exact Option.some.inj hs ▸ hsat
    · exact h.satellite sat hs
  objects := every_insert h.objects u.target.id htarget
  trail := by
    intro p hp
    rcases mem_appendTrail hp with h' | h'
    · exact h.trail p h'
    · exact htrail p h'

theorem sound_snapshot (h : SoundStore s) (mono : Int) : SoundStore (s.snapshot mono).2 where
  satellite := h.satellite
  objects := by
    intro id o ho
    have hprune : table (s.prune mono) id = some o := ho
    rw [table_prune, Option.filter_eq_some_iff] at hprune
    exact h.objects id o hprune.1
  trail := by rintro _ ⟨⟩

end StateStore

open StateStore

/-! ## OLV1 -/

theorem olv1_step_sound {s : olv1InputSource.State} (h : SoundStore s.store) (e : Event) :
    SoundStore (olv1InputSource.step e s).2.store := by
  cases e with
  | snapshot mono => exact sound_snapshot h mono
  | datagram d =>
    have hproc : (olv1InputSource.step (.datagram d) s).2.store =
        (Olv1InputSource.handleDatagram d s.store).store := rfl
    rw [hproc]
    rcases Olv1InputSource.handleDatagram_cases d with ⟨_, reason, log, heq⟩ | ⟨hv, heq⟩
    · rw [heq]
      exact sound_refused h _ _ _ _ _
    · obtain ⟨log, hs⟩ := heq s.store
      obtain ⟨hheader, hrecords⟩ := ((Proto.verdict_iff d.bytes).mp hv).sound
      have hsat : SoundSatellite (satelliteOf (Proto.packetAt d.bytes)) :=
        ⟨hheader.px, hheader.py, hheader.pz⟩
      rw [hs]
      exact sound_apply (sound_countReceived h _) hsat hrecords _ _

/-! ## OLV2 -/

namespace Olv2InputSource
open Proto.Olv2 (TrackPacket Point SoundPoints)

/-- The finite-difference branch keeps the position as well. -/
theorem satelliteOf_position (pkt : TrackPacket) :
    (satelliteOf pkt).px = (newest pkt).satPx ∧ (satelliteOf pkt).py = (newest pkt).satPy ∧
      (satelliteOf pkt).pz = (newest pkt).satPz := by
  unfold satelliteOf
  dsimp only
  split
  · exact ⟨rfl, rfl, rfl⟩
  · split <;> exact ⟨rfl, rfl, rfl⟩

theorem sound_update {pkt : TrackPacket} (hne : pkt.points ≠ []) (hs : SoundPoints pkt.points) :
    SoundSatellite (satelliteOf pkt) ∧ SoundObject (targetOf pkt) ∧
      ∀ p ∈ trailOf pkt, SoundTrailPoint p := by
  have hnew := hs.sound (newest pkt) (newest_mem hne)
  have hzero : (F32.mk 0).datum.isFinite = true := by decide +kernel
  obtain ⟨hx, hy, hz⟩ := satelliteOf_position pkt
  refine ⟨⟨hx ▸ hnew.satPx, hy ▸ hnew.satPy, hz ▸ hnew.satPz⟩, ?_, ?_⟩
  · unfold targetOf
    refine ⟨hnew.tgtPx, hnew.tgtPy, hnew.tgtPz, ?_, ?_, ?_, hzero⟩
    · dsimp only
      split
      · exact hnew.tgtVx
      · exact hzero
    · dsimp only
      split
      · exact hnew.tgtVy
      · exact hzero
    · dsimp only
      split
      · exact hnew.tgtVz
      · exact hzero
  · rintro _ hp
    obtain ⟨p, hp', rfl⟩ := List.mem_map.mp hp
    have := hs.sound p hp'
    exact ⟨this.tgtPx, this.tgtPy, this.tgtPz⟩

end Olv2InputSource

theorem olv2_step_sound {s : olv2InputSource.State} (h : SoundStore s.store) (e : Event) :
    SoundStore (olv2InputSource.step e s).2.store := by
  cases e with
  | snapshot mono => exact sound_snapshot h mono
  | datagram d =>
    have hproc : (olv2InputSource.step (.datagram d) s).2.store =
        (Olv2InputSource.processDatagram d s.memory s.store).store := rfl
    rw [hproc]
    rcases Olv2InputSource.processDatagram_cases d s.memory with
      ⟨_, o, log, _, heq⟩ | ⟨pkt, log, hadm, heq⟩
    · rw [heq]
      exact sound_refused h _ _ _ _ _
    · obtain ⟨hd, rfl, _⟩ := Olv2InputSource.admitted_documented hadm
      obtain ⟨hsat, htarget, htrail⟩ :=
        Olv2InputSource.sound_update (Proto.Olv2.points_packetAt_ne hd) hd.sound
      rw [heq]
      exact sound_applyTrack (sound_countReceived h _) hsat htarget htrail _ _

/-! ## DIS -/

namespace DisInputSource
variable (unmarshal : List Byte → Option EntityStatePdu) (cfg : Config)

/-- A PDU within the bounds: its location, and its velocity unless it is the
satellite's, which no bound covers. -/
structure BoundedPdu (pdu : EntityStatePdu) : Prop where
  x : Coordinate pdu.x
  y : Coordinate pdu.y
  z : Coordinate pdu.z
  velocity : isSatellite cfg pdu = false → pdu.vx.datum.isFinite = true ∧
    pdu.vy.datum.isFinite = true ∧ pdu.vz.datum.isFinite = true

/-- An event that admits no PDU out of bounds. -/
def Bounded (m : Memory) : Event → Prop
  | .datagram d => ∀ pdu ∈ admitted unmarshal cfg d.bytes m, BoundedPdu cfg pdu
  | .snapshot _ => True

/-- Every event of the run is `Bounded` where it happens. -/
def BoundedRun (s : (disInputSource unmarshal cfg).State) (events : List Event) : Prop :=
  (disInputSource unmarshal cfg).Along (fun s e => Bounded unmarshal cfg s.memory e) s events

/-- The satellite carried along is bounded, and the synthesized sequence is the
store's last one, so that it is never stale. -/
structure Invariant (m : Memory) (store : StateStore) : Prop where
  sat : SoundSatellite m.sat
  seq : store.haveSeq = true → store.lastSeq = m.seq

variable {unmarshal cfg}

variable (cfg) in
/-- What the store holds once a PDU is accepted. -/
theorem acceptPdu_store {m : Memory} {store : StateStore} (h : Invariant m store)
    (pdu : EntityStatePdu) (d : Datagram) :
    let r := acceptPdu cfg pdu d m store
    let sat := satelliteAfter cfg pdu m
    r.memory.sat = sat ∧ r.store.lastSeq = r.memory.seq ∧
      (∃ sat', r.store.satellite = some sat' ∧ sat'.px = sat.px ∧ sat'.py = sat.py ∧
        sat'.pz = sat.pz) ∧
      r.store.objects = mergeObjects d.mono (recordsOf cfg pdu) store.objects ∧
      r.store.pendingTrail = store.pendingTrail := by
  obtain ⟨log, heq⟩ := acceptPdu_eq cfg pdu d m
  have happly := apply_fresh (s := store) (p := packetFor cfg pdu m) (fresh_next h.seq) d.wall d.mono
  dsimp only
  rw [heq, happly]
  exact ⟨rfl, rfl, ⟨_, rfl, rfl, rfl, rfl⟩, rfl, rfl⟩

theorem sound_recordOf {pdu : EntityStatePdu} (h : BoundedPdu cfg pdu)
    (hsat : isSatellite cfg pdu = false) : SoundObject (objectOf (recordOf pdu)) := by
  obtain ⟨hvx, hvy, hvz⟩ := h.velocity hsat
  have hzero : (F32.mk 0).datum.isFinite = true := by decide +kernel
  exact ⟨h.x, h.y, h.z, hvx, hvy, hvz, hzero⟩

/-- **One accepted PDU.** The store stays sound exactly when the PDU is bounded,
and then the invariant holds again. -/
theorem acceptPdu_sound_iff {m : Memory} {store : StateStore} (h : Invariant m store)
    (hstore : SoundStore store) (pdu : EntityStatePdu) (d : Datagram) :
    SoundStore (acceptPdu cfg pdu d m store).store ↔ BoundedPdu cfg pdu := by
  have hspec := acceptPdu_store cfg h pdu d
  dsimp only [satelliteAfter, recordsOf] at hspec
  cases hs : isSatellite cfg pdu with
  | true =>
    rw [hs, if_pos rfl, if_pos rfl] at hspec
    obtain ⟨_, _, ⟨sat', hsat', hx, hy, hz⟩, hobjects, htrail⟩ := hspec
    constructor
    · intro hsound
      obtain ⟨px, py, pz⟩ := hsound.satellite sat' hsat'
      rw [hx] at px
      rw [hy] at py
      rw [hz] at pz
      exact ⟨px, py, pz, fun hf => absurd (hs.symm.trans hf) Bool.true_eq_false.mp⟩
    · intro hb
      refine ⟨fun sat hsat => ?_, ?_, ?_⟩
      · obtain rfl := Option.some.inj (hsat'.symm.trans hsat)
        exact ⟨hx ▸ hb.x, hy ▸ hb.y, hz ▸ hb.z⟩
      · rw [hobjects]
        exact hstore.objects
      · rw [htrail]
        exact hstore.trail
  | false =>
    rw [hs, if_neg Bool.false_ne_true, if_neg Bool.false_ne_true] at hspec
    obtain ⟨_, _, ⟨sat', hsat', hx, hy, hz⟩, hobjects, htrail⟩ := hspec
    have hmerge : (acceptPdu cfg pdu d m store).store.objects =
        store.objects.insert (folded pdu) ⟨objectOf (recordOf pdu), d.mono⟩ := hobjects
    constructor
    · intro hsound
      have hrow := hsound.objects (folded pdu) ⟨objectOf (recordOf pdu), d.mono⟩
        (by rw [hmerge, table_insert, Function.update_self])
      exact ⟨hrow.px, hrow.py, hrow.pz, fun _ => ⟨hrow.vx, hrow.vy, hrow.vz⟩⟩
    · intro hb
      refine ⟨fun sat hsat => ?_, ?_, ?_⟩
      · obtain rfl := Option.some.inj (hsat'.symm.trans hsat)
        exact ⟨hx ▸ h.sat.px, hy ▸ h.sat.py, hz ▸ h.sat.pz⟩
      · rw [hmerge]
        exact every_insert hstore.objects _ (sound_recordOf hb hs)
      · rw [htrail]
        exact hstore.trail

theorem acceptPdu_invariant {m : Memory} {store : StateStore} (h : Invariant m store)
    {pdu : EntityStatePdu} (hb : BoundedPdu cfg pdu) (d : Datagram) :
    Invariant (acceptPdu cfg pdu d m store).memory (acceptPdu cfg pdu d m store).store := by
  obtain ⟨hsat, hseq, _⟩ := acceptPdu_store cfg h pdu d
  refine ⟨?_, fun _ => hseq⟩
  rw [hsat, satelliteAfter]
  split
  · exact ⟨hb.x, hb.y, hb.z⟩
  · exact h.sat

theorem refused_invariant {m : Memory} {store : StateStore} (h : Invariant m store) (o : Outcome)
    (log : List LogLine) (drop : Option DropKind) (n : Nat) :
    Invariant (refused o log drop m (store.countReceived n)).memory
      (refused o log drop m (store.countReceived n)).store := by
  cases drop with
  | none => exact ⟨h.sat, h.seq⟩
  | some kind => cases kind <;> exact ⟨h.sat, h.seq⟩

/-- What one event does: the store stays sound exactly when the event is
bounded, and then the invariant holds again. -/
theorem step_sound_iff {s : (disInputSource unmarshal cfg).State}
    (h : Invariant s.memory s.store) (hstore : SoundStore s.store) (e : Event) :
    (SoundStore ((disInputSource unmarshal cfg).step e s).2.store ↔
      Bounded unmarshal cfg s.memory e) ∧
    (Bounded unmarshal cfg s.memory e → Invariant ((disInputSource unmarshal cfg).step e s).2.memory
      ((disInputSource unmarshal cfg).step e s).2.store) := by
  cases e with
  | snapshot mono => exact ⟨iff_of_true (sound_snapshot hstore mono) trivial, fun _ => ⟨h.sat, h.seq⟩⟩
  | datagram d =>
    have hstep : ((disInputSource unmarshal cfg).step (.datagram d) s).2 =
        ⟨(processDatagram unmarshal cfg d s.memory s.store).memory,
          (processDatagram unmarshal cfg d s.memory s.store).store⟩ := rfl
    rw [hstep]
    rcases processDatagram_cases unmarshal cfg d s.memory with
      ⟨hadm, o, log, _, heq⟩ | ⟨pdu, hadm, heq⟩
    · have hb : Bounded unmarshal cfg s.memory (.datagram d) := by
        intro pdu hpdu
        rw [hadm] at hpdu
        cases hpdu
      rw [heq]
      exact ⟨iff_of_true (sound_refused hstore o log _ s.memory d.bytes.length) hb,
        fun _ => refused_invariant h o log _ d.bytes.length⟩
    · have hb : Bounded unmarshal cfg s.memory (.datagram d) ↔ BoundedPdu cfg pdu := by
        refine ⟨fun hall => hall pdu hadm, fun hpdu pdu' h' => ?_⟩
        obtain rfl := Option.some.inj (hadm.symm.trans h')
        exact hpdu
      have hinv : Invariant { s.memory with
          lastTs := s.memory.lastTs.insert (packed pdu) (stampOf d.bytes) }
          (s.store.countReceived d.bytes.length) := ⟨h.sat, h.seq⟩
      rw [heq, hb]
      exact ⟨acceptPdu_sound_iff hinv (sound_countReceived hstore _) pdu d,
        fun hpdu => acceptPdu_invariant hinv hpdu d⟩

/-- Along a run: every state is sound exactly when every event is bounded. -/
theorem run_sound_iff {s : (disInputSource unmarshal cfg).State}
    (h : Invariant s.memory s.store) (hstore : SoundStore s.store) (events : List Event) :
    (∀ n, SoundStore ((disInputSource unmarshal cfg).run s (events.take n)).store) ↔
      BoundedRun unmarshal cfg s events := by
  induction events generalizing s with
  | nil => simpa [BoundedRun, InputSource.Along, InputSource.run] using hstore
  | cons e events ih =>
    obtain ⟨hiff, hinv⟩ := step_sound_iff h hstore e
    constructor
    · intro hall
      have hb := hiff.mp (hall 1)
      exact ⟨hb, (ih (hinv hb) (hall 1)).mp fun n => hall (n + 1)⟩
    · rintro ⟨hb, hrest⟩ n
      cases n with
      | zero => exact hstore
      | succ n => exact (ih (hinv hb) (hiff.mpr hb)).mpr hrest n

theorem invariant_start (expiry : Int) :
    Invariant ({} : Memory) { objectExpiry := expiry } where
  sat := by constructor <;> decide +kernel
  seq := by rintro ⟨⟩

end DisInputSource

/-- **The store is bounded** in every state of every OLV1 and OLV2 run, and in
every state of a DIS run exactly when no PDU it admits is out of bounds. -/
theorem store_bounded (unmarshal : List Byte → Option DisInputSource.EntityStatePdu)
    (cfg : DisInputSource.Config) (expiry : Int) (events : List Event) :
    SoundStore (olv1InputSource.run (olv1InputSource.start expiry) events).store ∧
    SoundStore (olv2InputSource.run (olv2InputSource.start expiry) events).store ∧
    ((∀ n, SoundStore ((disInputSource unmarshal cfg).run ((disInputSource unmarshal cfg).start expiry)
        (events.take n)).store) ↔
      DisInputSource.BoundedRun unmarshal cfg ((disInputSource unmarshal cfg).start expiry) events) :=
  ⟨InputSource.run_store (fun _ e h => olv1_step_sound h e) (sound_empty expiry) events,
    InputSource.run_store (fun _ e h => olv2_step_sound h e) (sound_empty expiry) events,
    DisInputSource.run_sound_iff (DisInputSource.invariant_start expiry) (sound_empty expiry) events⟩

/-! ## A PDU that is not a number -/

namespace DisInputSource

/-- The base fields of an Entity State PDU at their offsets, big-endian; reading
past the end, of them or of an articulation parameter, throws. -/
def readEntityStatePdu (d : List Byte) : Option EntityStatePdu :=
  let be (w off : Nat) : BitVec w := Wire.leValue w (Wire.slice d off (w / 8)).reverse
  if d.length < 144 + 16 * (byteAt d 19).toNat then none
  else some {
    site := be 16 12, application := be 16 14, entity := be 16 16
    kind := byteAt d 20, domain := byteAt d 21
    vx := ⟨be 32 36⟩, vy := ⟨be 32 40⟩, vz := ⟨be 32 44⟩
    x := ⟨be 64 48⟩, y := ⟨be 64 56⟩, z := ⟨be 64 64⟩ }

/-- Entity 0:0:0 at (NaN, 0, 0). -/
def nanPdu : List Byte :=
  [7, 1, 1, 1] ++ List.replicate 44 0 ++ [0x7F, 0xF8] ++ List.replicate 94 0

def nanRun : StateStore :=
  let src := disInputSource readEntityStatePdu { satSite := 1, satApp := 1, satEntity := 1 }
  (src.run (src.start 15) [.datagram { bytes := nanPdu }]).store

/-- DIS stores what is not a number. -/
theorem nanRun_unsound : ¬ SoundStore nanRun := by
  intro h
  have hrow : (StateStore.table nanRun.objects (foldEntityId 0 0 0)).map (fun o => o.obj.px) =
      some ⟨0x7FF8000000000000⟩ := by decide +kernel
  obtain ⟨o, ho, hpx⟩ := Option.map_eq_some_iff.mp hrow
  have hfinite := (h.objects _ o ho).px.1
  rw [hpx] at hfinite
  exact absurd hfinite (by decide +kernel)

end DisInputSource

end Olv
