import OrbitalViewer.ConfigRules
import OrbitalViewer.Lib.IeeeRounding
import OrbitalViewer.Olv2Delivery
import OrbitalViewer.SimMain

/-!
# Tracks of a run at the backend

In OLV2 mode the time of a sample is the start of the run and then so many cycles of the
rate, in doubles. At the rates that are taken these times ascend, so the backend accepts
whatever part of a run reaches it in order (`track_run`).
-/

namespace Olv.Sim
open Wire (Byte)
open Ieee (F64 binary64)
open Ieee.F64 (Between)
open Proto (ObjectRecord)
open Proto.Olv2 (TrackPacket)
open Olv2InputSource (acceptedIn trailOf newest newestTime lastOf targetOf received)

/-! ## Times -/

/-- A run from this time on at a rate that is taken, for at most 2^40 seconds. -/
structure Lasting (cfg : SimConfig) (startEpoch : F64) (cycles : ℕ) : Prop where
  rate : validRateHz cfg.rateHz = true
  start : Between 1 (2 ^ 40) startEpoch
  lasts : (cycles : ℚ) ≤ 2 ^ 40 * cfg.rateHz.datum.toRat

section Times
variable {cfg : SimConfig} {startEpoch : F64} {cycles : ℕ}

/-- A time of the run and what it is before rounding. -/
theorem Lasting.time (h : Lasting cfg startEpoch cycles) {k : ℕ} (hk : k ≤ cycles) :
    ∃ t, (startEpoch.add (cycleTime cfg k)).Is t ∧ 1 ≤ t ∧
      |t - (startEpoch.datum.toRat + k / cfg.rateHz.datum.toRat)| ≤ 2 ^ 43 / 2 ^ 54 := by
  obtain ⟨hfinite, hpos, hrate⟩ := validRate_iff.mp h.rate
  have hk' : (k : ℚ) ≤ 2 ^ 40 * cfg.rateHz.datum.toRat := le_trans (by exact_mod_cast hk) h.lasts
  generalize hr : cfg.rateHz.datum.toRat = r at hpos hrate hk'
  have hwhole : k < 2 ^ 53 := by
    have hlt : (k : ℚ) < 2 ^ 53 := by linarith
    exact_mod_cast hlt
  have hlasts : (k : ℚ) / r ≤ (2 ^ 40 : ℕ) := by
    rw [div_le_iff₀ hpos]
    exact_mod_cast hk'
  have hnonneg : 0 ≤ (k : ℚ) / r := div_nonneg (Nat.cast_nonneg k) hpos.le
  have hcycle := F64.is_div (F64.is_ofNat hwhole) ⟨hfinite, hr⟩ hpos.ne'
    (F64.lt_of_within (show 2 ^ 40 < 2 ^ 53 by decide) (by rwa [abs_of_nonneg hnonneg]))
  have hnear := F64.rd_near (k := 41) (by decide) (q := k / r) (by
    rw [abs_of_nonneg hnonneg]
    exact hlasts.trans_lt (by norm_num))
  have hlate := binary64.rd_mono hlasts
  rw [F64.rd_natCast (by decide)] at hlate
  have hearly := binary64.rd_nonneg hnonneg
  generalize binary64.rd (k / r) = c at hcycle hnear hlate hearly
  push_cast at hlate
  obtain ⟨hstart, hone, hfar⟩ := h.start
  generalize hs : startEpoch.datum.toRat = s at hone hfar
  have hsum : |s + c| < 2 ^ 42 := by
    rw [abs_of_nonneg (by linarith)]
    linarith
  have htime := F64.is_add ⟨hstart, hs⟩ hcycle
    (hsum.trans (pow_lt_pow_right₀ (by norm_num) (by decide)))
  have hrounded := F64.rd_near (by decide) hsum
  have hlow := binary64.rd_mono (show ((1 : ℕ) : ℚ) ≤ s + c by push_cast; linarith)
  rw [F64.rd_natCast (by decide), Nat.cast_one] at hlow
  refine ⟨_, htime, hlow, ?_⟩
  calc _ = |(binary64.rd (s + c) - (s + c)) + (c - k / r)| := congrArg _ (by ring)
    _ ≤ 2 ^ 42 / 2 ^ 54 + 2 ^ 41 / 2 ^ 54 := (abs_add_le _ _).trans (add_le_add hrounded hnear)
    _ ≤ 2 ^ 43 / 2 ^ 54 := by norm_num

/-- The times of the cycles ascend. -/
theorem Lasting.ascending (h : Lasting cfg startEpoch cycles) {k l : ℕ} (hkl : k < l)
    (hl : l ≤ cycles) : (startEpoch.add (cycleTime cfg k)).datum.toRat <
      (startEpoch.add (cycleTime cfg l)).datum.toRat := by
  obtain ⟨_, hpos, hrate⟩ := validRate_iff.mp h.rate
  obtain ⟨t, ht, _, hnear⟩ := h.time (hkl.le.trans hl)
  obtain ⟨u, hu, _, hnear'⟩ := h.time hl
  rw [ht.value, hu.value]
  generalize cfg.rateHz.datum.toRat = r at hpos hrate hnear hnear'
  have hstep : (k : ℚ) + 1 ≤ l := by exact_mod_cast hkl
  have hapart : 1 / 50 ≤ (l : ℚ) / r - k / r := by
    rw [← sub_div, div_le_div_iff₀ (by norm_num) hpos]
    nlinarith
  obtain ⟨_, hupper⟩ := abs_le.mp hnear
  obtain ⟨hlower, _⟩ := abs_le.mp hnear'
  have hsmall : (2 : ℚ) ^ 43 / 2 ^ 54 = 1 / 2048 := by norm_num
  linarith

/-- What is sent in OLV2 mode is sound when the frames are. -/
theorem timed_sound {frames : List Frame} (h : Lasting cfg startEpoch frames.length)
    (hsound : ∀ frame ∈ frames, SoundFrame frame)
    (hdistinct : ∀ frame ∈ frames, (frame.objects.map ObjectRecord.id).Nodup) :
    SoundRun (timed cfg startEpoch 0 frames) := by
  have hmem : ∀ e ∈ frames.zipIdx, e.1 ∈ frames ∧ e.2 ≤ frames.length := by
    intro e he
    have hindex := (List.mem_zipIdx he).2.1
    exact ⟨List.fst_mem_of_mem_zipIdx he, by omega⟩
  have htimed : ∀ f ∈ timed cfg startEpoch 0 frames, f.2 ∈ frames ∧
      ∃ t, f.1.Is t ∧ 1 ≤ t := by
    intro f hf
    obtain ⟨e, he, rfl⟩ := List.mem_map.mp hf
    obtain ⟨hframe, hindex⟩ := hmem e he
    obtain ⟨t, ht, hlow, _⟩ := h.time hindex
    exact ⟨hframe, t, ht, hlow⟩
  refine ⟨fun f hf => hsound _ (htimed f hf).1, fun f hf => hdistinct _ (htimed f hf).1,
    fun f hf => ?_, fun f hf => ?_, ?_⟩
  · obtain ⟨_, t, ht, _⟩ := htimed f hf
    exact ht.finite
  · obtain ⟨_, t, ht, hlow⟩ := htimed f hf
    rw [ht.value]
    linarith
  · have hindices : (frames.zipIdx.map Prod.snd).Pairwise (· < ·) := by
      rw [List.zipIdx_map_snd]
      exact List.pairwise_lt_range'
    refine List.pairwise_map.mpr ((List.pairwise_map.mp hindices).imp_of_mem ?_)
    intro e e' _ he' hlt
    exact h.ascending hlt (hmem e' he').2

end Times

/-! ## What arrives -/

section Arrived
variable {frames : List (F64 × Frame)} {pkts : List TrackPacket}

/-- The visits of each object that some packets carry. -/
structure Carried (frames : List (F64 × Frame)) (pkts : List TrackPacket)
    (arrived : U32 → List Visit) : Prop where
  sublist : ∀ id, (arrived id).Sublist (samples id frames)
  points : ∀ id, (pkts.filter (·.trackId = id)).flatMap trailOf = (arrived id).map Visit.trailPoint
  row : ∀ id, (lastOf id pkts).map targetOf =
    (arrived id).getLast?.map fun v => sentRow v.record
  satellite : ∀ pkt ∈ pkts.argmax newestTime, ∃ v ∈ arrived v.record.id,
    (Olv2InputSource.satelliteOf pkt).body = satelliteOf v.frame 0 ∧
      ∀ id, ∀ u ∈ arrived id, u.t.datum.toRat ≤ v.t.datum.toRat

/-- Visits of an object differ in their times. -/
theorem visit_of_trailPoint (hrun : SoundRun frames) {id : U32} {v w : Visit}
    (hv : v ∈ samples id frames) (hw : w ∈ samples id frames) (h : v.trailPoint = w.trailPoint) :
    v = w := by
  have htime : v.t = w.t := congrArg TrailPoint.t h
  have hnodup : ((samples id frames).map fun v => v.t.datum.toRat).Nodup :=
    (List.pairwise_map.mpr (hrun.samples_ascending id)).imp fun hlt => hlt.ne
  exact List.inj_on_of_nodup_map hnodup hv hw (congrArg (fun t : F64 => t.datum.toRat) htime)

/-- Some of the packets carry some of the visits. -/
theorem Delivers.carried (hrun : SoundRun frames) {all : List TrackPacket} (h : Delivers frames all)
    (hsub : pkts.Sublist all) : ∃ arrived, Carried frames pkts arrived := by
  have hsome (id : U32) : ∃ vs : List Visit, vs.Sublist (samples id frames) ∧
      (pkts.filter (·.trackId = id)).flatMap trailOf = vs.map Visit.trailPoint := by
    have htrail := (hsub.filter (·.trackId = id)).flatMap trailOf
    rw [h.trail] at htrail
    obtain ⟨vs, hvs, heq⟩ := List.sublist_map_iff.mp htrail
    exact ⟨vs, hvs, heq⟩
  choose arrived hsublist hpoints using hsome
  have hpacket {pkt : TrackPacket} (hpkt : pkt ∈ pkts) : ∃ vs, Carries pkt vs ∧
      (∀ v ∈ vs, v ∈ samples pkt.trackId frames) ∧ trailOf pkt = vs.map Visit.trailPoint := by
    obtain ⟨vs, hvs, hmem⟩ := h.carries pkt (hsub.subset hpkt)
    exact ⟨vs, hvs, hmem, hvs.trail fun v hv => (mem_samples.mp (hmem v hv)).2⟩
  refine ⟨arrived, hsublist, hpoints, fun id => ?_, fun pkt hnewest => ?_⟩
  · cases hlast : lastOf id pkts with
    | none =>
      have hnone := hpoints id
      rw [List.getLast?_eq_none_iff.mp hlast] at hnone
      rw [List.map_eq_nil_iff.mp hnone.symm]
      rfl
    | some pkt =>
      obtain ⟨front, hfront⟩ := List.getLast?_eq_some_iff.mp hlast
      obtain ⟨hpkt, hid⟩ := List.mem_filter.mp (List.mem_of_getLast? hlast)
      obtain rfl := of_decide_eq_true hid
      obtain ⟨vs, hvs, hmem, htrail⟩ := hpacket hpkt
      obtain ⟨v, hv, _, hrow⟩ := hvs.last
      have hend := congrArg List.getLast? (hpoints pkt.trackId)
      rw [hfront, List.flatMap_append, List.flatMap_singleton, htrail, List.getLast?_append,
        List.getLast?_map, hv, List.getLast?_map] at hend
      obtain ⟨w, hw, hsame⟩ := Option.map_eq_some_iff.mp hend.symm
      have hboth := visit_of_trailPoint hrun ((hsublist _).subset (List.mem_of_getLast? hw))
        (hmem v (List.mem_of_getLast? hv)) hsame
      rw [hw, hboth, Option.map_some, Option.map_some, hrow]
  · have hpkt := List.argmax_mem hnewest
    obtain ⟨vs, hvs, hmem, htrail⟩ := hpacket hpkt
    obtain ⟨v, hv, hpoint, hsat⟩ := hvs.newest_eq
    have hvisit := hmem v hv
    have hid := (mem_samples.mp hvisit).2
    have harrived : v.trailPoint ∈ (arrived pkt.trackId).map Visit.trailPoint := by
      rw [← hpoints]
      refine List.mem_flatMap.mpr ⟨pkt, List.mem_filter.mpr ⟨hpkt, decide_eq_true rfl⟩, ?_⟩
      rw [htrail]
      exact List.mem_map_of_mem hv
    obtain ⟨w, hw, hsame⟩ := List.mem_map.mp harrived
    obtain rfl := visit_of_trailPoint hrun ((hsublist _).subset hw) hvisit hsame
    refine ⟨w, hid.symm ▸ hw, satelliteOf_body hpoint hsat, fun id u hu => ?_⟩
    have hshown := List.mem_map_of_mem (f := Visit.trailPoint) hu
    rw [← hpoints] at hshown
    obtain ⟨other, hother, hp⟩ := List.mem_flatMap.mp hshown
    obtain ⟨p, hp, heq⟩ := List.mem_map.mp hp
    have hin := (List.mem_filter.mp hother).1
    have hle := (h.sound other (hsub.subset hin)).le_newestTime p hp
    have htime : p.t = u.t := congrArg TrailPoint.t heq
    have hlatest : newestTime pkt = w.t.datum.toRat := by
      rw [newestTime, hpoint, Proto.Olv2.Point.time, w.point_fields.1]
    rw [Proto.Olv2.Point.time, htime] at hle
    exact hle.trans ((List.le_of_mem_argmax hin hnewest).trans_eq hlatest)

end Arrived

/-! ## At the OLV2 source -/

section World
variable {frames : List (F64 × Frame)} {pkts : List TrackPacket} {points : ℕ} {seq : U32}

/-- Datagrams of some of the packets are all accepted. -/
theorem accepted_some (hrun : SoundRun frames)
    (hsub : pkts.Sublist (batchPackets seq (batchesOf points frames))) {w : World olv2InputSource}
    (hsent : w.settled.map Datagram.bytes = pkts.map Proto.Olv2.encode) :
    w.settled.map received = (acceptedIn w).map some ∧
      (acceptedIn w).Sublist (delivered seq (batchesOf points frames)) := by
  have hreceived : w.settled.map received = (pkts.map TrackPacket.capped).map some := by
    have hbytes : w.settled.map received =
        (w.settled.map Datagram.bytes).map fun bytes => received { bytes } := by
      rw [List.map_map]
      rfl
    rw [hbytes, hsent, List.map_map, List.map_map]
    refine List.map_congr_left fun pkt hpkt => ?_
    have hv := (Proto.Olv2.verdict_iff _).mpr
      (batches_documented hrun points seq pkt (hsub.subset hpkt))
    rw [Function.comp_apply, received, if_pos hv, Proto.Olv2.packetAt_encode]
    rfl
  have hin : Olv2InputSource.receivedIn w = pkts.map TrackPacket.capped := by
    have hmap : w.settled.filterMap received = (w.settled.map received).filterMap id := by
      rw [List.filterMap_map]
      rfl
    rw [Olv2InputSource.receivedIn, hmap, hreceived, List.filterMap_map]
    exact List.filterMap_some
  have hsub' := hsub.map TrackPacket.capped
  have haccepted : acceptedIn w = pkts.map TrackPacket.capped := by
    rw [Olv2InputSource.acceptedIn_eq, hin]
    refine HighWater.passed_eq_self ?_ ((delivers_run hrun points seq).rising.sublist hsub')
    intro _ _ _ hm
    cases hm
  rw [haccepted]
  exact ⟨hreceived, hsub'⟩

/-- What the backend has of some frames when these visits arrived. -/
structure Tracked (frames : List (F64 × Frame)) (expiry : Int) (actions : List Action)
    (arrived : U32 → List Visit) : Prop where
  sublist : ∀ id, (arrived id).Sublist (samples id frames)
  points : ∀ id, ((acceptedIn (Olv2InputSource.world expiry actions)).filter
    (·.trackId = id)).flatMap (fun pkt => pkt.points.map fun p =>
      { id := pkt.trackId, t := p.t, px := p.tgtPx, py := p.tgtPy, pz := p.tgtPz }) =
        (arrived id).map Visit.trailPoint
  trail : (∀ segment ∈ StateStore.segments (Olv2InputSource.world expiry actions).calls,
      segment.length ≤ StateStore.kMaxPendingTrailPoints) → ∀ id,
    (StateStore.reported { objectExpiry := expiry }
      (Olv2InputSource.world expiry actions).calls).flatten.filter (·.id = id) =
        (arrived id).map Visit.trailPoint
  overflow : ∀ id, ((StateStore.reported { objectExpiry := expiry }
    (Olv2InputSource.world expiry actions).calls).flatten.filter (·.id = id)).Sublist
      ((arrived id).map Visit.trailPoint)
  row : ∀ id, rowsOf (Olv2InputSource.world expiry actions).store id =
      (arrived id).getLast?.map (fun v => sentRow v.record) ∨
    rowsOf (Olv2InputSource.world expiry actions).store id = none ∧
      ∃ o, StateStore.lastWrite expiry (Olv2InputSource.world expiry actions).calls id = some o ∧
        ∃ m ∈ StateStore.snapshotStamps (Olv2InputSource.world expiry actions).calls,
          m - o.lastUpdate > seconds expiry
  satellite : (Olv2InputSource.world expiry actions).store.satellite = none ∧
      (∀ id, arrived id = []) ∨
    ∃ v ∈ arrived v.record.id,
      (Olv2InputSource.world expiry actions).store.satellite.map SatelliteState.body =
        some (satelliteOf v.frame 0) ∧
      ∀ id, ∀ u ∈ arrived id, u.t.datum.toRat ≤ v.t.datum.toRat

theorem tracked_of_carried {expiry : Int} {actions : List Action} {arrived : U32 → List Visit}
    (h : Carried frames (acceptedIn (Olv2InputSource.world expiry actions)) arrived) :
    Tracked frames expiry actions arrived where
  sublist := h.sublist
  points := h.points
  trail hfits id := by
    rw [Olv2InputSource.reported_whole hfits, filter_trail]
    exact h.points id
  overflow id := by
    rw [← h.points, ← filter_trail]
    exact (Olv2InputSource.reported_sublist expiry actions).filter _
  row id := by
    have hlast := Olv2InputSource.last_row expiry actions id
    rw [h.row] at hlast
    have hstore := (Olv2InputSource.world_recorded expiry actions).store
    rw [← hlast]
    rcases StateStore.table_run expiry (Olv2InputSource.world expiry actions).calls id with
      hsame | ⟨hgone, hexpired⟩
    · rw [← hstore] at hsame
      exact .inl (congrArg (Option.map StoredObject.obj) hsame)
    · rw [← hstore] at hgone
      exact .inr ⟨congrArg (Option.map StoredObject.obj) hgone, hexpired⟩
  satellite := by
    rw [(Olv2InputSource.world_perTrack expiry actions).satellite, ← Olv2InputSource.satelliteOf_eq,
      Olv2InputSource.newestTrack]
    cases hnewest : (acceptedIn (Olv2InputSource.world expiry actions)).argmax newestTime with
    | none =>
      refine .inl ⟨rfl, fun id => ?_⟩
      have hnone := h.points id
      rw [List.argmax_eq_none.mp hnewest] at hnone
      exact List.map_eq_nil_iff.mp hnone.symm
    | some pkt =>
      obtain ⟨v, hv, hframe, hlatest⟩ := h.satellite pkt hnewest
      exact .inr ⟨v, hv, congrArg some hframe, hlatest⟩

/-- What the loop builds for tracks is the start of what the batches give. -/
theorem built_tracks {marshal : OutPdu → List Byte} {cfg : SimConfig} (hprotocol : cfg.protocol = .kOlv2)
    {startEpoch : F64} {takes : ℕ → Bool} {source : Source} {built : List (List Byte)}
    (hran : Ran marshal cfg startEpoch takes (source.sent cfg)
      (runLoop marshal cfg startEpoch takes source) built) :
    built <+: (batchPackets 0 (batchesOf (toSize cfg.olv2Points)
      (timed cfg startEpoch 0 (source.sent cfg)))).map Proto.Olv2.encode := by
  have hall := hran.datagrams
  rw [← sendRun_new]
  refine ⟨_, hall.symm.trans ?_⟩
  simp only [Sender.datagrams, hprotocol, startSender]

theorem taken_sublist {α : Type} (takes : ℕ → Bool) (built : List α) :
    (taken takes built).Sublist built := by
  have hsub := (List.filter_sublist (p := fun e : α × ℕ => takes e.2) (l := built.zipIdx)).map Prod.fst
  rwa [List.zipIdx_map_fst] at hsub

/-- **Tracks of a run.** A run in OLV2 mode over sound frames, at a rate that is taken, lasts up
to 2^40 seconds. Any of the sends may fail and any of the datagrams get lost. The backend
accepts every datagram that arrives. Every trail is part of the visits of its object in order,
also where points are dropped beyond the cap, each row is that of the last visit of its trail
and the satellite that of the last of all. -/
theorem track_run (cfg : SimConfig) (hprotocol : cfg.protocol = .kOlv2) (source : Source)
    (hsound : ∀ frame ∈ source.sent cfg, SoundFrame frame)
    (hdistinct : ∀ frame ∈ source.sent cfg, (frame.objects.map ObjectRecord.id).Nodup)
    {startEpoch : F64} (hlasting : Lasting cfg startEpoch (source.sent cfg).length)
    (marshal : OutPdu → List Byte) (takes : ℕ → Bool) (expiry : Int) (actions : List Action)
    (harrives : ((Olv2InputSource.world expiry actions).settled.map Datagram.bytes).Sublist
      (runLoop marshal cfg startEpoch takes source).sender.wire) :
    (Olv2InputSource.world expiry actions).settled.map received =
      (acceptedIn (Olv2InputSource.world expiry actions)).map some ∧
    ∃ arrived, Tracked (timed cfg startEpoch 0 (source.sent cfg)) expiry actions arrived := by
  obtain ⟨built, hran⟩ := runLoop_ran marshal cfg startEpoch takes source
  have hrun := timed_sound hlasting hsound hdistinct
  rw [hran.counted.wire] at harrives
  have hsent := (harrives.trans (taken_sublist takes built)).trans (built_tracks hprotocol hran).sublist
  obtain ⟨pkts, hsub, hbytes⟩ := List.sublist_map_iff.mp hsent
  obtain ⟨haccepted, hsome⟩ := accepted_some hrun hsub hbytes
  obtain ⟨arrived, hcarried⟩ := (delivers_run hrun _ 0).carried hrun hsome
  exact ⟨haccepted, arrived, tracked_of_carried hcarried⟩

/-- Two rounds of two objects. -/
def trackSource : Source :=
  .csv [{ sat := { id := 1 }, objects := [{ id := 9 }, { id := 8 }] }] (List.cons_ne_nil _ _) 2

def trackConfig : SimConfig := { mode := .kCsv, protocol := .kOlv2, olv2Points := 2, loop := true }

/-- The first send fails. -/
def trackActions : List Action :=
  World.whole ((runLoop (fun _ => []) trackConfig (F64.ofNat 1) (fun k => k != 0)
    trackSource).sender.wire.map fun bytes => { bytes })

theorem settled_trackActions :
    (Olv2InputSource.world 15 trackActions).settled.map Datagram.bytes =
      (runLoop (fun _ => []) trackConfig (F64.ofNat 1) (fun k => k != 0) trackSource).sender.wire := by
  rw [Olv2InputSource.world, trackActions, World.settled_whole _ _ rfl, List.map_append, List.map_map]
  exact List.map_id _

theorem track_run_sample : ∃ arrived, Tracked
    (timed trackConfig (F64.ofNat 1) 0 (trackSource.sent trackConfig)) 15 trackActions arrived :=
  (track_run trackConfig rfl trackSource (by decide +kernel) (by decide +kernel)
    ⟨by decide +kernel, ⟨by decide +kernel, by decide +kernel, by decide +kernel⟩, by decide +kernel⟩
    (fun _ => []) (fun k => k != 0) 15 trackActions
    (settled_trackActions ▸ List.Sublist.refl _)).2

end World

end Olv.Sim
