import OrbitalViewer.Olv2Builder
import OrbitalViewer.TrailPoints

/-!
# OLV2 from the simulator to the store

The datagrams of sound frames decode, and within a track every packet lies above
the one before, so the source accepts them all. Track by track they carry the
visits of the frames in order (`Delivers`), less what OLV2 has no room for.
-/

namespace Olv.Sim
open Ieee (F32 F64)
open Proto (ObjectRecord Coordinate)
open Proto.Olv2 (Point TrackPacket SoundPoint SoundPoints)
open Olv2InputSource (acceptedIn received newestTime oldestTime lastOf trailOf targetOf newest SoundTrack)

/-! ## Points -/

/-- What the source makes of the record of a visit. -/
def sentRow (rec : ObjectRecord) : SnapshotObject where
  id := rec.id
  type := if rec.type > 5 then 0 else rec.type
  flags := (rec.flags &&& Proto.kFlagHighlight) |||
    (if rec.hasVelocity then Proto.kFlagHasVelocity else 0)
  confidence := if rec.confidence > 100 then 100 else rec.confidence
  px := rec.px
  py := rec.py
  pz := rec.pz
  vx := if rec.hasVelocity then rec.vx else ⟨0⟩
  vy := if rec.hasVelocity then rec.vy else ⟨0⟩
  vz := if rec.hasVelocity then rec.vz else ⟨0⟩

def Visit.trailPoint (v : Visit) : TrailPoint :=
  ⟨v.record.id, v.t, v.record.px, v.record.py, v.record.pz⟩

theorem Visit.point_flags (v : Visit) :
    v.point.flags = if v.record.hasVelocity then 0x03 else 0x01 := by
  unfold point pointFor
  cases v.record.hasVelocity with
  | true => exact (by decide : Proto.Olv2.kPointSatHasVel ||| Proto.Olv2.kPointTgtHasVel = 0x03)
  | false => rfl

/-- A point says what its visit does. -/
theorem Visit.point_fields (v : Visit) :
    v.point.t = v.t ∧
    (v.point.tgtPx = v.record.px ∧ v.point.tgtPy = v.record.py ∧ v.point.tgtPz = v.record.pz) ∧
    (v.point.satPx = v.frame.sat.px ∧ v.point.satPy = v.frame.sat.py ∧
      v.point.satPz = v.frame.sat.pz) ∧
    v.point.satVx = v.frame.sat.vx ∧ v.point.satVy = v.frame.sat.vy ∧
      v.point.satVz = v.frame.sat.vz := by
  unfold point pointFor
  cases v.record.hasVelocity <;>
    exact ⟨rfl, ⟨rfl, rfl, rfl⟩, ⟨rfl, rfl, rfl⟩, rfl, rfl, rfl⟩

/-- The velocity of a target goes out only when it is flagged. -/
theorem Visit.point_velocity (v : Visit) : v.record.hasVelocity = true →
    v.point.tgtVx = v.record.vx ∧ v.point.tgtVy = v.record.vy ∧ v.point.tgtVz = v.record.vz := by
  intro h
  unfold point pointFor
  rw [h]
  exact ⟨rfl, rfl, rfl⟩

theorem Visit.point_masked (v : Visit) : v.point.masked = v.point := by
  have hflags : v.point.flags &&& 0x03 = v.point.flags := by
    rw [v.point_flags]
    cases v.record.hasVelocity <;> rfl
  rw [Point.masked, hflags]

theorem Visit.point_satHasVelocity (v : Visit) : v.point.satHasVelocity = true := by
  rw [Point.satHasVelocity, v.point_flags]
  cases v.record.hasVelocity <;> decide

theorem Visit.point_tgtHasVelocity (v : Visit) :
    v.point.tgtHasVelocity = v.record.hasVelocity := by
  rw [Point.tgtHasVelocity, v.point_flags]
  cases v.record.hasVelocity <;> decide

theorem SoundRun.point {frames : List (F64 × Frame)} (h : SoundRun frames) {v : Visit}
    (hv : v ∈ visits frames) : SoundPoint v.point ∧ 0 < v.point.time := by
  obtain ⟨hmem, hrec⟩ := mem_visits.mp hv
  have hframe := h.frame _ hmem
  have hobject := hframe.objects v.record hrec
  have hzero : (F32.mk 0).datum.isFinite = true := by decide +kernel
  refine ⟨?_, h.positive _ hmem |>.trans_eq ?_⟩
  · unfold Visit.point pointFor
    cases v.record.hasVelocity with
    | true =>
      exact ⟨h.finite _ hmem, hframe.px, hframe.py, hframe.pz, hobject.px, hobject.py, hobject.pz,
        hframe.vx, hframe.vy, hframe.vz, hobject.vx, hobject.vy, hobject.vz⟩
    | false =>
      exact ⟨h.finite _ hmem, hframe.px, hframe.py, hframe.pz, hobject.px, hobject.py, hobject.pz,
        hframe.vx, hframe.vy, hframe.vz, hzero, hzero, hzero⟩
  · rw [Point.time, v.point_fields.1]

theorem SoundRun.points {frames : List (F64 × Frame)} (h : SoundRun frames) (id : U32) :
    SoundPoints ((samples id frames).map Visit.point) where
  sound := by
    rintro _ hp
    obtain ⟨v, hv, rfl⟩ := List.mem_map.mp hp
    exact (h.point (mem_samples.mp hv).1).1
  positive := by
    rintro _ hp
    obtain ⟨v, hv, rfl⟩ := List.mem_map.mp hp
    exact (h.point (mem_samples.mp hv).1).2
  ascending := by
    refine List.pairwise_map.mpr ((h.samples_ascending id).imp fun {v w} hlt => ?_)
    rwa [Point.time, Point.time, v.point_fields.1, w.point_fields.1]

/-! ## Packets -/

/-- A batch as the batcher keeps it. -/
structure SoundBatch (batch : List (F64 × Frame)) : Prop where
  run : SoundRun batch
  length_le : batch.length ≤ 25

/-- A packet that carries the visits `vs` of its track. -/
structure Carries (pkt : TrackPacket) (vs : List Visit) : Prop where
  points : pkt.points = vs.map Visit.point
  last : ∃ v, vs.getLast? = some v ∧ pkt.satId = v.frame.sat.id ∧
    targetOf pkt = sentRow v.record

theorem capped_points {batch : List (F64 × Frame)} (h : SoundBatch batch) (sequence id : U32) :
    (trackPacket sequence (id, accumulated (samples id batch))).capped.points =
      (samples id batch).map Visit.point := by
  have hlen := (h.run.length_samples id).trans h.length_le
  rw [TrackPacket.capped, points_trackPacket, List.take_of_length_le (by rw [List.length_map]; exact hlen),
    List.map_map]
  exact List.map_congr_left fun v _ => v.point_masked

theorem newest_of_last {pkt : TrackPacket} {vs : List Visit} {v : Visit}
    (hpoints : pkt.points = vs.map Visit.point) (hlast : vs.getLast? = some v) :
    newest pkt = v.point := by
  rw [newest, hpoints, List.getLastD_eq_getLast?, List.getLast?_map, hlast]
  rfl

theorem carries_capped {batch : List (F64 × Frame)} (h : SoundBatch batch) (sequence : U32) {id : U32}
    (hne : samples id batch ≠ []) :
    Carries (trackPacket sequence (id, accumulated (samples id batch))).capped (samples id batch) := by
  have hpoints := capped_points h sequence id
  obtain ⟨v, hlast⟩ := Option.isSome_iff_exists.mp (List.getLast?_isSome.mpr hne)
  obtain ⟨front, hfront⟩ := List.getLast?_eq_some_iff.mp hlast
  have hid : v.record.id = id := (mem_samples.mp (List.mem_of_getLast? hlast)).2
  have hnewest := newest_of_last hpoints hlast
  obtain ⟨_, ⟨hx, hy, hz⟩, _⟩ := v.point_fields
  have haccumulated : accumulated (samples id batch) = (accumulated front).visit v := by
    rw [hfront, accumulated_append]
  refine ⟨hpoints, v, hlast, ?_, ?_⟩
  · rw [haccumulated]
    rfl
  · have hhighlight : v.record.flags &&& Proto.kFlagHighlight &&& 0x02 &&& Proto.kFlagHighlight =
        v.record.flags &&& Proto.kFlagHighlight := by
      rw [BitVec.and_assoc, BitVec.and_assoc]
      rfl
    unfold targetOf
    dsimp only
    rw [hnewest, v.point_tgtHasVelocity, hx, hy, hz, haccumulated]
    subst hid
    unfold sentRow
    cases hvelocity : v.record.hasVelocity with
    | false =>
      simp only [TrackPacket.capped, trackPacket, TrackAccumulator.visit, TrackAccumulator.add,
        hhighlight]
      rfl
    | true =>
      obtain ⟨hvx, hvy, hvz⟩ := v.point_velocity hvelocity
      simp only [TrackPacket.capped, trackPacket, TrackAccumulator.visit, TrackAccumulator.add,
        hhighlight, hvx, hvy, hvz]
      rfl

namespace Carries
variable {pkt : TrackPacket} {vs : List Visit} (h : Carries pkt vs)
include h

theorem newest_eq : ∃ v ∈ vs, newest pkt = v.point ∧ pkt.satId = v.frame.sat.id := by
  obtain ⟨v, hlast, hsat, _⟩ := h.last
  exact ⟨v, List.mem_of_getLast? hlast, newest_of_last h.points hlast, hsat⟩

theorem oldest_eq : ∃ v ∈ vs, oldestTime pkt = v.t.datum.toRat := by
  obtain ⟨last, hlast, _⟩ := h.last
  match hvs : vs with
  | [] => cases hlast
  | v :: rest =>
    refine ⟨v, List.mem_cons_self, ?_⟩
    rw [oldestTime, h.points, List.map_cons, List.headD_cons, Point.time, v.point_fields.1]

theorem trail (hid : ∀ v ∈ vs, v.record.id = pkt.trackId) : trailOf pkt = vs.map Visit.trailPoint := by
  rw [trailOf, h.points, List.map_map]
  apply List.map_congr_left
  intro v hv
  obtain ⟨ht, ⟨hx, hy, hz⟩, _⟩ := v.point_fields
  rw [Function.comp_apply, ht, hx, hy, hz, ← hid v hv]
  rfl

end Carries

/-- The packet of a track in a batch. -/
theorem mem_trackPackets {seq : U32} {batch : List (F64 × Frame)} {pkt : TrackPacket}
    (hpkt : pkt ∈ trackPackets seq (tracksOf batch)) : samples pkt.trackId batch ≠ [] ∧
      ∃ sequence, pkt = trackPacket sequence (pkt.trackId, accumulated (samples pkt.trackId batch)) := by
  have hmem : pkt ∈ (trackPackets seq (tracksOf batch)).filter fun p => p.trackId = pkt.trackId :=
    List.mem_filter.mpr ⟨hpkt, decide_eq_true rfl⟩
  rcases batch_track seq batch pkt.trackId with ⟨_, hnil⟩ | ⟨hne, sequence, hone⟩
  · rw [hnil] at hmem
    cases hmem
  · rw [hone] at hmem
    exact ⟨hne, sequence, List.mem_singleton.mp hmem⟩

/-- A flush of sound frames sends what the backend decodes. -/
theorem flush_documented {seq : U32} {batch : List (F64 × Frame)} (h : SoundBatch batch)
    {pkt : TrackPacket} (hpkt : pkt ∈ trackPackets seq (tracksOf batch)) :
    Proto.Olv2.Documented (Proto.Olv2.encode pkt) := by
  obtain ⟨hne, sequence, heq⟩ := mem_trackPackets hpkt
  have hpoints : pkt.points = (samples pkt.trackId batch).map Visit.point :=
    (congrArg TrackPacket.points heq).trans (points_trackPacket ..)
  have hlen := (h.run.length_samples pkt.trackId).trans h.length_le
  refine Proto.Olv2.documented_encode ?_ ?_
  · rw [hpoints]
    exact List.map_eq_nil_iff.not.mpr hne
  · rw [hpoints, List.take_of_length_le (by rw [List.length_map]; exact hlen)]
    exact h.run.points pkt.trackId

/-! ## Delivery -/

/-- Packets that carry the visits of the frames, track by track. -/
structure Delivers (frames : List (F64 × Frame)) (pkts : List TrackPacket) : Prop where
  sound : ∀ pkt ∈ pkts, SoundTrack pkt
  carries : ∀ pkt ∈ pkts, ∃ vs, Carries pkt vs ∧ ∀ v ∈ vs, v ∈ samples pkt.trackId frames
  rising : pkts.Pairwise fun x y => x.trackId = y.trackId → newestTime x < oldestTime y
  trail : ∀ id, (pkts.filter (·.trackId = id)).flatMap trailOf =
    (samples id frames).map Visit.trailPoint
  row : ∀ id, (lastOf id pkts).map targetOf =
    (samples id frames).getLast?.map fun v => sentRow v.record

theorem Delivers.nil : Delivers [] [] where
  sound _ h := (nomatch h)
  carries _ h := (nomatch h)
  rising := List.Pairwise.nil
  trail _ := rfl
  row _ := rfl

/-- One batch after the other. -/
theorem Delivers.append {frames frames' : List (F64 × Frame)} {pkts pkts' : List TrackPacket}
    (hrun : SoundRun (frames ++ frames')) (h : Delivers frames pkts) (h' : Delivers frames' pkts') :
    Delivers (frames ++ frames') (pkts ++ pkts') where
  sound pkt hpkt := (List.mem_append.mp hpkt).elim (h.sound pkt) (h'.sound pkt)
  carries pkt hpkt := by
    rcases List.mem_append.mp hpkt with hpkt | hpkt
    · obtain ⟨vs, hvs, hmem⟩ := h.carries pkt hpkt
      refine ⟨vs, hvs, fun v hv => ?_⟩
      rw [samples_append]
      exact List.mem_append_left _ (hmem v hv)
    · obtain ⟨vs, hvs, hmem⟩ := h'.carries pkt hpkt
      refine ⟨vs, hvs, fun v hv => ?_⟩
      rw [samples_append]
      exact List.mem_append_right _ (hmem v hv)
  rising := by
    refine List.pairwise_append.mpr ⟨h.rising, h'.rising, fun x hx y hy _ => ?_⟩
    obtain ⟨vs, hvs, hmem⟩ := h.carries x hx
    obtain ⟨ws, hws, hmem'⟩ := h'.carries y hy
    obtain ⟨v, hv, hnewest, _⟩ := hvs.newest_eq
    obtain ⟨w, hw, holdest⟩ := hws.oldest_eq
    have hearlier := (mem_visits.mp (mem_samples.mp (hmem v hv)).1).1
    have hlater := (mem_visits.mp (mem_samples.mp (hmem' w hw)).1).1
    have hlt := (List.pairwise_append.mp hrun.ascending).2.2 _ hearlier _ hlater
    dsimp only at hlt
    rw [newestTime, hnewest, Point.time, v.point_fields.1, holdest]
    exact hlt
  trail id := by
    rw [List.filter_append, List.flatMap_append, h.trail, h'.trail, samples_append, List.map_append]
  row id := by
    have hlast : lastOf id (pkts ++ pkts') = (lastOf id pkts').or (lastOf id pkts) := by
      rw [lastOf, List.filter_append, List.getLast?_append]
      rfl
    rw [hlast, samples_append, List.getLast?_append, Option.map_or, Option.map_or, h.row, h'.row]

/-- The packets of one batch. -/
theorem delivers_batch {batch : List (F64 × Frame)} (h : SoundBatch batch) (seq : U32) :
    Delivers batch ((trackPackets seq (tracksOf batch)).map TrackPacket.capped) := by
  have hcarries : ∀ pkt ∈ trackPackets seq (tracksOf batch),
      Carries pkt.capped (samples pkt.trackId batch) := by
    intro pkt hpkt
    obtain ⟨hne, sequence, heq⟩ := mem_trackPackets hpkt
    have hcarried := carries_capped h sequence hne
    rwa [← heq] at hcarried
  have htrack (id : U32) :
      let ofTrack := ((trackPackets seq (tracksOf batch)).map TrackPacket.capped).filter (·.trackId = id)
      (samples id batch = [] ∧ ofTrack = []) ∨
        ∃ pkt, ofTrack = [pkt] ∧ pkt.trackId = id ∧ Carries pkt (samples id batch) := by
    have hfilter : ((trackPackets seq (tracksOf batch)).map TrackPacket.capped).filter (·.trackId = id) =
        ((trackPackets seq (tracksOf batch)).filter (·.trackId = id)).map TrackPacket.capped :=
      List.filter_map
    rcases batch_track seq batch id with ⟨hnone, hnil⟩ | ⟨hne, sequence, hone⟩
    · exact .inl ⟨hnone, by rw [hfilter, hnil]; rfl⟩
    · exact .inr ⟨_, by rw [hfilter, hone]; rfl, rfl, carries_capped h sequence hne⟩
  refine ⟨fun pkt hpkt => ?sound, fun pkt hpkt => ?carries, ?rising, fun id => ?trail,
    fun id => ?row⟩
  case sound =>
    obtain ⟨pkt, hmem, rfl⟩ := List.mem_map.mp hpkt
    have hpoints := (hcarries pkt hmem).points
    refine ⟨?_, hpoints ▸ h.run.points pkt.trackId⟩
    rw [hpoints]
    exact List.map_eq_nil_iff.not.mpr (mem_trackPackets hmem).1
  case carries =>
    obtain ⟨pkt, hmem, rfl⟩ := List.mem_map.mp hpkt
    exact ⟨_, hcarries pkt hmem, fun v hv => hv⟩
  case rising =>
    have hids (tracks : List (U32 × TrackAccumulator)) (seq : U32) :
        (trackPackets seq tracks).map TrackPacket.trackId = tracks.map Prod.fst := by
      induction tracks generalizing seq with
      | nil => rfl
      | cons track tracks ih => exact congrArg (track.1 :: ·) (ih (seq + 1))
    have hdistinct : ((trackPackets seq (tracksOf batch)).map TrackPacket.trackId).Pairwise (· ≠ ·) := by
      rw [hids]
      refine List.pairwise_map.mpr ((tracksOf_ascending batch).ranks.imp fun hlt heq => ?_)
      exact absurd (congrArg BitVec.toNat heq) hlt.ne
    exact List.pairwise_map.mpr ((List.pairwise_map.mp hdistinct).imp fun hne heq => absurd heq hne)
  case trail =>
    rcases htrack id with ⟨hnone, hnil⟩ | ⟨pkt, hone, hid, hcarried⟩
    · rw [hnil, hnone]
      rfl
    · rw [hone, List.flatMap_singleton]
      exact hcarried.trail fun v hv => hid ▸ (mem_samples.mp hv).2
  case row =>
    rcases htrack id with ⟨hnone, hnil⟩ | ⟨pkt, hone, _, hcarried⟩
    · rw [lastOf, hnil, hnone]
      rfl
    · obtain ⟨v, hlast, _, htarget⟩ := hcarried.last
      rw [lastOf, hone, hlast, Option.map_some, ← htarget]
      rfl

/-- What is sent, as the backend decodes it. -/
def delivered (seq : U32) (batches : List (List (F64 × Frame))) : List TrackPacket :=
  (batchPackets seq batches).map TrackPacket.capped

theorem delivers_batches {batches : List (List (F64 × Frame))} (hrun : SoundRun batches.flatten)
    (hlen : ∀ batch ∈ batches, batch.length ≤ 25) (seq : U32) :
    Delivers batches.flatten (delivered seq batches) := by
  induction batches generalizing seq with
  | nil => exact Delivers.nil
  | cons batch batches ih =>
    rw [List.flatten_cons] at hrun ⊢
    have hhead : SoundBatch batch :=
      ⟨hrun.sublist (List.sublist_append_left _ _), hlen batch List.mem_cons_self⟩
    have hrest := ih (hrun.sublist (List.sublist_append_right _ _))
      (fun b hb => hlen b (List.mem_cons_of_mem batch hb)) (Serial.stamp seq (tracksOf batch).length)
    have happend := (delivers_batch hhead seq).append hrun hrest
    rw [delivered, batchPackets, List.map_append]
    exact happend

theorem mem_batchPackets {seq : U32} {batches : List (List (F64 × Frame))} {pkt : TrackPacket}
    (h : pkt ∈ batchPackets seq batches) :
    ∃ batch ∈ batches, ∃ seq, pkt ∈ trackPackets seq (tracksOf batch) := by
  induction batches generalizing seq with
  | nil => cases h
  | cons batch batches ih =>
    rcases List.mem_append.mp h with h | h
    · exact ⟨batch, List.mem_cons_self, seq, h⟩
    · obtain ⟨later, hlater, hpkt⟩ := ih h
      exact ⟨later, List.mem_cons_of_mem batch hlater, hpkt⟩

/-! ## At the backend -/

section World
variable {expiry : Int} {actions : List Action} {frames : List (F64 × Frame)} {points : Nat} {seq : U32}

/-- The run as the batcher cuts it. -/
def batchesOf (points : Nat) (frames : List (F64 × Frame)) : List (List (F64 × Frame)) :=
  Chunks.chunks (clampedPoints points) frames

theorem flatten_batchesOf (points : Nat) (frames : List (F64 × Frame)) :
    (batchesOf points frames).flatten = frames := Chunks.flatten_chunks ..

theorem length_batchesOf (points : Nat) (frames : List (F64 × Frame)) :
    ∀ batch ∈ batchesOf points frames, batch.length ≤ 25 := by
  intro batch hbatch
  have hsize := (Chunks.length_le_of_mem hbatch).1
  rw [clampedPoints_eq] at hsize
  omega

theorem sendRun_new (points : Nat) (seq : U32) (frames : List (F64 × Frame)) :
    sendRun (.new points) seq frames =
      (batchPackets seq (batchesOf points frames)).map Proto.Olv2.encode :=
  sendRun_eq (.new points) seq frames (clampedPoints points).2

theorem batches_documented (h : SoundRun frames) (points : Nat) (seq : U32) :
    ∀ pkt ∈ batchPackets seq (batchesOf points frames),
      Proto.Olv2.Documented (Proto.Olv2.encode pkt) := by
  intro pkt hpkt
  obtain ⟨batch, hbatch, _, hmem⟩ := mem_batchPackets hpkt
  refine flush_documented ⟨h.sublist ?_, length_batchesOf points frames batch hbatch⟩ hmem
  rw [← flatten_batchesOf points frames]
  exact List.sublist_flatten_of_mem hbatch

theorem delivers_run (h : SoundRun frames) (points : Nat) (seq : U32) :
    Delivers frames (delivered seq (batchesOf points frames)) := by
  rw [← flatten_batchesOf points frames] at h
  have hdelivers := delivers_batches h (length_batchesOf points frames) seq
  rwa [flatten_batchesOf] at hdelivers

theorem received_delivered (h : SoundRun frames) {ds : List Datagram}
    (hds : ds.map Datagram.bytes = sendRun (.new points) seq frames) :
    ds.map received = (delivered seq (batchesOf points frames)).map some := by
  have hreceived : ds.map received = (ds.map Datagram.bytes).map fun bytes => received { bytes } := by
    rw [List.map_map]
    rfl
  rw [hreceived, hds, sendRun_new, delivered, List.map_map, List.map_map]
  apply List.map_congr_left
  intro pkt hpkt
  have hv := (Proto.Olv2.verdict_iff _).mpr (batches_documented h points seq pkt hpkt)
  rw [Function.comp_apply, received, if_pos hv, Proto.Olv2.packetAt_encode]
  rfl

/-- The source accepts all of them. -/
theorem accepted_delivered (h : SoundRun frames) {w : World olv2InputSource}
    (hsent : w.settled.map Datagram.bytes = sendRun (.new points) seq frames) :
    acceptedIn w = delivered seq (batchesOf points frames) := by
  have hreceived : Olv2InputSource.receivedIn w = delivered seq (batchesOf points frames) := by
    have hmap : w.settled.filterMap received = (w.settled.map received).filterMap id := by
      rw [List.filterMap_map]
      rfl
    rw [Olv2InputSource.receivedIn, hmap, received_delivered h hsent, List.filterMap_map]
    exact List.filterMap_some
  rw [Olv2InputSource.acceptedIn_eq, hreceived]
  exact HighWater.passed_eq_self (fun _ _ _ hm => nomatch hm) (delivers_run h points seq).rising

/-- The last frame that has any object. -/
def lastPopulated (frames : List (F64 × Frame)) : Option Frame :=
  ((frames.filter fun f => !f.2.objects.isEmpty).getLast?).map Prod.snd

theorem satelliteOf_body {pkt : TrackPacket} {v : Visit} (hnewest : newest pkt = v.point)
    (hsat : pkt.satId = v.frame.sat.id) :
    (Olv2InputSource.satelliteOf pkt).body = satelliteOf v.frame 0 := by
  obtain ⟨_, _, ⟨hx, hy, hz⟩, hvx, hvy, hvz⟩ := v.point_fields
  unfold Olv2InputSource.satelliteOf
  dsimp only
  rw [hnewest, if_pos v.point_satHasVelocity, hx, hy, hz, hvx, hvy, hvz, hsat]
  rfl

/-- The newest point of a packet is of a visit. -/
theorem Delivers.visited (h : Delivers frames pkts) {pkt : TrackPacket} (hpkt : pkt ∈ pkts) :
    ∃ v ∈ visits frames, newest pkt = v.point ∧ pkt.satId = v.frame.sat.id := by
  obtain ⟨vs, hvs, hmem⟩ := h.carries pkt hpkt
  obtain ⟨v, hv, hnewest, hsat⟩ := hvs.newest_eq
  exact ⟨v, (mem_samples.mp (hmem v hv)).1, hnewest, hsat⟩

/-- A packet reaches as far as any visit. -/
theorem Delivers.reaches (h : Delivers frames pkts) {v : Visit} (hv : v ∈ visits frames) :
    ∃ pkt ∈ pkts, v.t.datum.toRat ≤ newestTime pkt := by
  have htrail := List.mem_map_of_mem (f := Visit.trailPoint) (mem_samples.mpr ⟨hv, rfl⟩)
  rw [← h.trail] at htrail
  obtain ⟨pkt, hpkt, hpoint⟩ := List.mem_flatMap.mp htrail
  obtain ⟨p, hp, htime⟩ := List.mem_map.mp hpoint
  have hpkt : pkt ∈ pkts := (List.mem_filter.mp hpkt).1
  have hle := (h.sound pkt hpkt).le_newestTime p hp
  have ht : p.t = v.t := congrArg TrailPoint.t htime
  exact ⟨pkt, hpkt, ht ▸ hle⟩

theorem visit_populated {v : Visit} (hv : v ∈ visits frames) :
    (v.t, v.frame) ∈ frames.filter fun f => !f.2.objects.isEmpty := by
  obtain ⟨hmem, hrec⟩ := mem_visits.mp hv
  refine List.mem_filter.mpr ⟨hmem, ?_⟩
  rw [List.isEmpty_eq_false_iff.mpr (List.ne_nil_of_mem hrec)]
  rfl

/-- A visit as late as the last populated frame is of that frame. -/
theorem visit_last (hrun : SoundRun frames) {last : F64 × Frame} {v : Visit}
    (hlast : (frames.filter fun f => !f.2.objects.isEmpty).getLast? = some last)
    (hv : v ∈ visits frames) (hle : last.1.datum.toRat ≤ v.t.datum.toRat) :
    (v.t, v.frame) = last := by
  obtain ⟨front, hfront⟩ := List.getLast?_eq_some_iff.mp hlast
  have hbefore := visit_populated hv
  have hascending := hrun.ascending.sublist
    (List.filter_sublist (p := fun f : F64 × Frame => !f.2.objects.isEmpty))
  rw [hfront] at hbefore hascending
  rcases List.mem_append.mp hbefore with hbefore | hsame
  · have hlt := (List.pairwise_append.mp hascending).2.2 _ hbefore _ List.mem_cons_self
    exact absurd hle (not_le.mpr hlt)
  · exact List.mem_singleton.mp hsame

/-- The newest of the packets is from the last frame that has any object. -/
theorem Delivers.satellite (hrun : SoundRun frames) {pkts : List TrackPacket}
    (h : Delivers frames pkts) :
    (pkts.argmax newestTime).map (fun pkt => (Olv2InputSource.satelliteOf pkt).body) =
      (lastPopulated frames).map fun frame => satelliteOf frame 0 := by
  unfold lastPopulated
  cases hlast : (frames.filter fun f => !f.2.objects.isEmpty).getLast? with
  | none =>
    have hnone : pkts = [] := by
      apply List.eq_nil_iff_forall_not_mem.mpr
      intro pkt hpkt
      obtain ⟨v, hv, _⟩ := h.visited hpkt
      have hpopulated := visit_populated hv
      rw [List.getLast?_eq_none_iff.mp hlast] at hpopulated
      cases hpopulated
    rw [hnone]
    rfl
  | some last =>
    obtain ⟨hmem, hobjects⟩ := List.mem_filter.mp (List.mem_of_getLast? hlast)
    obtain ⟨rec, hrec⟩ := List.isEmpty_eq_false_iff_exists_mem.mp (Bool.not_eq_true' _ |>.mp hobjects)
    have hvisited : (⟨last.1, last.2, rec⟩ : Visit) ∈ visits frames := mem_visits.mpr ⟨hmem, hrec⟩
    -- Some packet reaches as far as the last frame, so the newest does.
    obtain ⟨y, hy, hreach⟩ := h.reaches hvisited
    obtain ⟨x, hx⟩ := Option.ne_none_iff_exists'.mp
      (List.argmax_eq_none (f := newestTime).not.mpr (List.ne_nil_of_mem hy))
    obtain ⟨v, hv, hnewest, hsat⟩ := h.visited (List.argmax_mem hx)
    have hle := hreach.trans (List.le_of_mem_argmax hy hx)
    rw [newestTime, hnewest, Point.time, v.point_fields.1] at hle
    rw [hx, Option.map_some, satelliteOf_body hnewest hsat, ← visit_last hrun hlast hv hle]
    rfl

/-- The points of a track are in the packets of that track. -/
theorem filter_trail (id : U32) (pkts : List TrackPacket) :
    (pkts.flatMap trailOf).filter (·.id = id) = (pkts.filter (·.trackId = id)).flatMap trailOf := by
  induction pkts with
  | nil => rfl
  | cons pkt pkts ih =>
    have hids : ∀ p ∈ trailOf pkt, p.id = pkt.trackId := by
      intro p hp
      obtain ⟨q, _, rfl⟩ := List.mem_map.mp hp
      rfl
    rw [List.flatMap_cons, List.filter_append, ih]
    by_cases hid : pkt.trackId = id
    · have hall : (trailOf pkt).filter (·.id = id) = trailOf pkt :=
        List.filter_eq_self.mpr fun p hp => decide_eq_true ((hids p hp).trans hid)
      rw [List.filter_cons_of_pos (by simpa using hid), List.flatMap_cons, hall]
    · have hnone : (trailOf pkt).filter (·.id = id) = [] :=
        List.filter_eq_nil_iff.mpr fun p hp => by
          rw [hids p hp]
          simpa using hid
      rw [List.filter_cons_of_neg (by simpa using hid), hnone, List.nil_append]

/-- **Delivery.** The datagrams of a run of sound frames are all accepted, with
snapshots anywhere between. What is reported of an object's trail is its visits
in order, as long as no segment exceeds the cap; its row is that of its last
visit until a snapshot finds it expired; the satellite is that of the last frame
with objects. -/
theorem olv2_delivery (h : SoundRun frames)
    (hsent : (Olv2InputSource.world expiry actions).settled.map Datagram.bytes =
      sendRun (.new points) seq frames) :
    let w := Olv2InputSource.world expiry actions
    w.settled.map received = (acceptedIn w).map some ∧
    ((∀ segment ∈ StateStore.segments w.calls,
        segment.length ≤ StateStore.kMaxPendingTrailPoints) → ∀ id,
      (StateStore.reported { objectExpiry := expiry } w.calls).flatten.filter (·.id = id) =
        (samples id frames).map Visit.trailPoint) ∧
    (∀ id, rowsOf w.store id = (samples id frames).getLast?.map (fun v => sentRow v.record) ∨
      rowsOf w.store id = none ∧ ∃ o, StateStore.lastWrite expiry w.calls id = some o ∧
        ∃ m ∈ StateStore.snapshotStamps w.calls, m - o.lastUpdate > seconds expiry) ∧
    w.store.satellite.map SatelliteState.body =
      (lastPopulated frames).map fun frame => satelliteOf frame 0 := by
  intro w
  have hdelivers := delivers_run h points seq
  have haccepted := accepted_delivered h hsent
  refine ⟨?accepted, fun hfits id => ?trail, fun id => ?row, ?satellite⟩
  case accepted =>
    rw [received_delivered h hsent, haccepted]
  case trail =>
    rw [Olv2InputSource.reported_whole hfits, filter_trail, haccepted]
    exact hdelivers.trail id
  case row =>
    have hlast := Olv2InputSource.last_row expiry actions id
    rw [haccepted, hdelivers.row] at hlast
    have hstore := (Olv2InputSource.world_recorded expiry actions).store
    rw [← hlast]
    rcases StateStore.table_run expiry w.calls id with hsame | ⟨hgone, hexpired⟩
    · rw [← hstore] at hsame
      exact .inl (congrArg (Option.map StoredObject.obj) hsame)
    · rw [← hstore] at hgone
      exact .inr ⟨congrArg (Option.map StoredObject.obj) hgone, hexpired⟩
  case satellite =>
    rw [(Olv2InputSource.world_perTrack expiry actions).satellite, ← Olv2InputSource.satelliteOf_eq,
      Olv2InputSource.newestTrack, haccepted, Option.map_map]
    exact hdelivers.satellite h

end World

/-- The actions that feed a run to the source. -/
def feed (points : Nat) (frames : List (F64 × Frame)) : List Action :=
  World.whole ((sendRun (.new points) 0 frames).map fun bytes => { bytes })

theorem settled_feed (expiry : Int) (points : Nat) (frames : List (F64 × Frame)) :
    (Olv2InputSource.world expiry (feed points frames)).settled.map Datagram.bytes =
      sendRun (.new points) 0 frames := by
  rw [Olv2InputSource.world, feed, World.settled_whole _ _ rfl, List.map_append, List.map_map]
  exact List.map_id _

/-- Object 9 leaves after two frames and object 8 comes with the third. -/
def sampleRun : List (F64 × Frame) :=
  [(⟨0x3FF0000000000000⟩, { sat := { id := 1 }, objects := [{ id := 9, intensity := ⟨0x3F800000⟩ }] }),
    (⟨0x4000000000000000⟩, { sat := { id := 1 }, objects := [{ id := 9, intensity := ⟨0x3F800000⟩ }] }),
    (⟨0x4008000000000000⟩, { sat := { id := 2 }, objects := [{ id := 8 }] }),
    (⟨0x4010000000000000⟩, { sat := { id := 3 } })]

theorem sampleRun_sound : SoundRun sampleRun where
  frame := by decide +kernel
  distinct := by decide
  finite := by decide +kernel
  positive := by decide +kernel
  ascending := by decide +kernel

theorem olv2_delivery_sample :
    (Olv2InputSource.world 15 (feed 2 sampleRun)).store.satellite.map SatelliteState.body =
      some (satelliteOf { sat := { id := 2 }, objects := [{ id := 8 }] } 0) :=
  (olv2_delivery sampleRun_sound (settled_feed 15 2 sampleRun)).2.2.2

/-- The row of object 9 lacks the intensity of its record. -/
theorem sampleRun_intensity :
    SoundRun sampleRun ∧
    (Olv2InputSource.world 15 (feed 2 sampleRun)).settled.map Datagram.bytes =
      sendRun (.new 2) 0 sampleRun ∧
    rowsOf (Olv2InputSource.world 15 (feed 2 sampleRun)).store 9 = some { id := 9 } ∧
    (samples 9 sampleRun).getLast?.map (fun v => StateStore.objectOf v.record) ≠ some { id := 9 } :=
  ⟨sampleRun_sound, settled_feed 15 2 sampleRun, by decide +kernel, by decide +kernel⟩

end Olv.Sim
