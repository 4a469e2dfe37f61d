import OrbitalViewer.FrameBuilder
import OrbitalViewer.Lib.OrderedMap
import OrbitalViewer.ProtocolOlv2RoundTrip

/-!
# The simulator's OLV2 datagrams

`Olv2Batcher` of `tools/simulator/src/olv2_builder.cpp`, and the send loop of
`main.cpp` that feeds it. A flush turns a batch of frames into one packet a
track; over a run the batches are the chunks of the frames (`sendRun_eq`), and
a batch has one packet for every track it visits (`batch_track`).
-/

namespace Olv.Sim
open Wire (Byte)
open Ieee (F64)
open Proto (ObjectRecord)
open Proto.Olv2 (Point TrackPacket kPointSatHasVel kPointTgtHasVel kMaxPoints)

/-- The defaults are never read: an accumulator is made for a record. -/
structure TrackAccumulator where
  points : List Point := []
  newestRecord : ObjectRecord := {}
  newestSatId : U32 := 0

structure Olv2Batcher where
  pointsPerDatagram : Chunks.Size
  /-- With the time of each, in the order of the pushes. -/
  frames : List (F64 × Frame) := []

def clampedPoints (points : Nat) : Chunks.Size := Chunks.clamp kMaxPoints.toNat (by decide) points

theorem clampedPoints_eq (points : Nat) : (clampedPoints points).1 = max 1 (min points 25) :=
  Chunks.clamp_eq _ _ points

def pointFor (tEpoch : F64) (frame : Frame) (rec : ObjectRecord) : Point :=
  let point : Point := {
    t := tEpoch
    flags := kPointSatHasVel
    satPx := frame.sat.px
    satPy := frame.sat.py
    satPz := frame.sat.pz
    satVx := frame.sat.vx
    satVy := frame.sat.vy
    satVz := frame.sat.vz
    tgtPx := rec.px
    tgtPy := rec.py
    tgtPz := rec.pz }
  if rec.hasVelocity then
    { point with
      flags := point.flags ||| kPointTgtHasVel
      tgtVx := rec.vx
      tgtVy := rec.vy
      tgtVz := rec.vz }
  else point

def TrackAccumulator.add (acc : TrackAccumulator) (tEpoch : F64) (frame : Frame)
    (rec : ObjectRecord) : TrackAccumulator where
  points := acc.points ++ [pointFor tEpoch frame rec]
  newestRecord := rec
  newestSatId := frame.sat.id

/-- The tracks of a batch, by ascending id. -/
def tracksOf (frames : List (F64 × Frame)) : List (U32 × TrackAccumulator) :=
  frames.foldl (fun tracks f =>
    f.2.objects.foldl (fun tracks rec =>
      OrderedMap.upsert (fun a b : U32 => a < b) {} rec.id (fun acc => acc.add f.1 f.2 rec) tracks)
      tracks) []

def trackPacket (sequence : U32) (track : U32 × TrackAccumulator) : TrackPacket where
  sequence
  trackId := track.1
  satId := track.2.newestSatId
  targetType := track.2.newestRecord.type
  targetFlags := track.2.newestRecord.flags &&& Proto.kFlagHighlight
  confidence := track.2.newestRecord.confidence
  points := track.2.points

/-- One packet a track, from `seq` on. -/
def trackPackets (seq : U32) : List (U32 × TrackAccumulator) → List TrackPacket
  | [] => []
  | track :: tracks => trackPacket seq track :: trackPackets (seq + 1) tracks

namespace Olv2Batcher

def new (points : Nat) : Olv2Batcher := { pointsPerDatagram := clampedPoints points }

def push (frame : Frame) (tEpoch : F64) (b : Olv2Batcher) : Olv2Batcher :=
  { b with frames := b.frames ++ [(tEpoch, frame)] }

def ready (b : Olv2Batcher) : Bool := b.frames.length ≥ b.pointsPerDatagram.1

def empty (b : Olv2Batcher) : Bool := b.frames.isEmpty

/-- The datagrams, `seq` after them, and the batcher. -/
def flush (seq : U32) (b : Olv2Batcher) : List (List Byte) × U32 × Olv2Batcher :=
  if b.frames = [] then ([], seq, b)
  else
    let tracks := tracksOf b.frames
    ((trackPackets seq tracks).map Proto.Olv2.encode, Serial.stamp seq tracks.length,
      { b with frames := [] })

end Olv2Batcher

/-- `sendFrame` in OLV2 mode. -/
def sendFrame (b : Olv2Batcher) (seq : U32) (tEpoch : F64) (frame : Frame) :
    List (List Byte) × U32 × Olv2Batcher :=
  let b := b.push frame tEpoch
  if b.ready then b.flush seq else ([], seq, b)

/-- The send loop over timed frames, with the flush at a normal end. -/
def sendRun (b : Olv2Batcher) (seq : U32) : List (F64 × Frame) → List (List Byte)
  | [] => if b.empty then [] else (b.flush seq).1
  | (tEpoch, frame) :: frames =>
    let (packets, seq, b) := sendFrame b seq tEpoch frame
    packets ++ sendRun b seq frames

/-! ## Batches -/

/-- The packets of consecutive batches. -/
def batchPackets (seq : U32) : List (List (F64 × Frame)) → List TrackPacket
  | [] => []
  | batch :: batches => trackPackets seq (tracksOf batch) ++
      batchPackets (Serial.stamp seq (tracksOf batch).length) batches

theorem batchPackets_singleton (seq : U32) (batch : List (F64 × Frame)) :
    batchPackets seq [batch] = trackPackets seq (tracksOf batch) := List.append_nil _

theorem flush_packets (seq : U32) (b : Olv2Batcher) :
    (b.flush seq).1 = (trackPackets seq (tracksOf b.frames)).map Proto.Olv2.encode := by
  unfold Olv2Batcher.flush
  split
  · rename_i hnil
    rw [hnil]
    rfl
  · rfl

/-- A full batch goes out before what follows. -/
theorem batchPackets_full {c : Chunks.Size} {batch : List (F64 × Frame)} (hfull : batch.length = c.1)
    (seq : U32) (frames : List (F64 × Frame)) :
    batchPackets seq (Chunks.chunks c (batch ++ frames)) = trackPackets seq (tracksOf batch) ++
      batchPackets (Serial.stamp seq (tracksOf batch).length) (Chunks.chunks c frames) := by
  by_cases hnil : frames = []
  · have hempty : ([] : List (F64 × Frame)).length ≤ c.1 := Nat.zero_le _
    rw [hnil, List.append_nil, Chunks.chunks_of_le hfull.le, Chunks.chunks_of_le hempty,
      batchPackets_singleton, batchPackets_singleton]
    exact (List.append_nil _).symm
  · rw [Chunks.chunks_append hfull hnil]
    rfl

/-- **The send loop flushes the frames chunk by chunk.** -/
theorem sendRun_eq (b : Olv2Batcher) (seq : U32) (frames : List (F64 × Frame))
    (h : b.frames.length < b.pointsPerDatagram.1) :
    sendRun b seq frames = (batchPackets seq
      (Chunks.chunks b.pointsPerDatagram (b.frames ++ frames))).map Proto.Olv2.encode := by
  induction frames generalizing b seq with
  | nil =>
    rw [List.append_nil, Chunks.chunks_of_le h.le, batchPackets_singleton, sendRun, Olv2Batcher.empty,
      flush_packets]
    split
    · rename_i hnil
      rw [List.isEmpty_iff.mp hnil]
      rfl
    · rfl
  | cons f frames ih =>
    obtain ⟨tEpoch, frame⟩ := f
    have hpushed : (b.push frame tEpoch).frames.length = b.frames.length + 1 := List.length_append
    have hsplit : b.frames ++ (tEpoch, frame) :: frames = (b.push frame tEpoch).frames ++ frames :=
      List.append_cons ..
    rw [sendRun, sendFrame, hsplit]
    by_cases hfull : b.frames.length + 1 = b.pointsPerDatagram.1
    · have hready : (b.push frame tEpoch).ready = true := decide_eq_true (by
        rw [hpushed]
        exact hfull.ge)
      have hne : (b.push frame tEpoch).frames ≠ [] :=
        List.length_pos_iff.mp (by rw [hpushed]; omega)
      have hrest := ih { b with frames := [] }
        (Serial.stamp seq (tracksOf (b.push frame tEpoch).frames).length) b.pointsPerDatagram.2
      rw [if_pos hready, Olv2Batcher.flush, if_neg hne, batchPackets_full (hpushed.trans hfull),
        List.map_append]
      exact congrArg (_ ++ ·) hrest
    · have hready : (b.push frame tEpoch).ready = false := decide_eq_false (by
        rw [hpushed]
        change ¬ _ ≥ b.pointsPerDatagram.1
        omega)
      rw [hready]
      exact ih (b.push frame tEpoch) seq (by
        rw [hpushed]
        change _ < b.pointsPerDatagram.1
        omega)

/-! ## Visits -/

/-- A record of a frame of the run. -/
structure Visit where
  t : F64
  frame : Frame
  record : ObjectRecord

def visits (frames : List (F64 × Frame)) : List Visit :=
  frames.flatMap fun f => f.2.objects.map fun rec => ⟨f.1, f.2, rec⟩

/-- The visits of one object, in frame order. -/
def samples (id : U32) (frames : List (F64 × Frame)) : List Visit :=
  (visits frames).filter fun v => v.record.id = id

def Visit.point (v : Visit) : Point := pointFor v.t v.frame v.record

def TrackAccumulator.visit (acc : TrackAccumulator) (v : Visit) : TrackAccumulator :=
  acc.add v.t v.frame v.record

/-- The accumulator of a track after its visits. -/
def accumulated (vs : List Visit) : TrackAccumulator := vs.foldl TrackAccumulator.visit {}

theorem visits_append (frames frames' : List (F64 × Frame)) :
    visits (frames ++ frames') = visits frames ++ visits frames' := List.flatMap_append

theorem samples_append (id : U32) (frames frames' : List (F64 × Frame)) :
    samples id (frames ++ frames') = samples id frames ++ samples id frames' := by
  rw [samples, visits_append, List.filter_append]
  rfl

theorem tracksOf_eq (frames : List (F64 × Frame)) :
    tracksOf frames = OrderedMap.collect (fun a b : U32 => a < b) {} (fun v : Visit => v.record.id)
      TrackAccumulator.visit (visits frames) := by
  rw [OrderedMap.collect, visits, List.foldl_flatMap]
  simp only [List.foldl_map]
  rfl

theorem accumulated_append (vs : List Visit) (v : Visit) :
    accumulated (vs ++ [v]) = (accumulated vs).visit v := by
  rw [accumulated, List.foldl_append]
  rfl

theorem points_accumulated (vs : List Visit) : (accumulated vs).points = vs.map Visit.point := by
  induction vs using List.reverseRecOn with
  | nil => rfl
  | append_singleton vs v ih =>
    rw [accumulated_append, List.map_append, ← ih]
    rfl

theorem points_trackPacket (sequence id : U32) (vs : List Visit) :
    (trackPacket sequence (id, accumulated vs)).points = vs.map Visit.point := points_accumulated vs

theorem ranks_id : OrderedMap.Ranks (fun a b : U32 => decide (a < b)) BitVec.toNat Set.univ :=
  fun _ _ _ _ => by rw [decide_eq_true_iff, BitVec.lt_def]

theorem tracksOf_ascending (frames : List (F64 × Frame)) :
    OrderedMap.Ascending BitVec.toNat Set.univ (tracksOf frames) := by
  rw [tracksOf_eq]
  exact OrderedMap.collect_ascending _ _ ranks_id fun _ _ => Set.mem_univ _

/-- The entry of a track has accumulated its visits. -/
theorem tracksOf_valueAt (frames : List (F64 × Frame)) (id : U32) :
    OrderedMap.valueAt BitVec.toNat id.toNat (tracksOf frames) =
      if samples id frames = [] then none else some (accumulated (samples id frames)) := by
  have hgroup : ((visits frames).filter fun v => v.record.id.toNat = id.toNat) = samples id frames :=
    List.filter_congr fun v _ => by rw [decide_eq_decide, BitVec.toNat_inj]
  rw [tracksOf_eq, OrderedMap.valueAt_collect _ _ ranks_id fun _ _ => Set.mem_univ _]
  dsimp only
  rw [hgroup]
  rfl

/-- A batch has one packet for a track it visits, and none for another. -/
theorem trackPackets_track (seq : U32) {tracks : List (U32 × TrackAccumulator)}
    (h : OrderedMap.Ascending BitVec.toNat Set.univ tracks) (id : U32) :
    let ofTrack := (trackPackets seq tracks).filter fun pkt => pkt.trackId = id
    (OrderedMap.valueAt BitVec.toNat id.toNat tracks = none ∧ ofTrack = []) ∨
    ∃ acc sequence, OrderedMap.valueAt BitVec.toNat id.toNat tracks = some acc ∧
      ofTrack = [trackPacket sequence (id, acc)] := by
  induction tracks generalizing seq with
  | nil => exact .inl ⟨rfl, rfl⟩
  | cons track tracks ih =>
    obtain ⟨habove, hrest⟩ := List.pairwise_cons.mp h.ranks
    have htail := ih (seq + 1) ⟨fun _ _ => Set.mem_univ _, hrest⟩
    dsimp only at htail ⊢
    rw [trackPackets, OrderedMap.valueAt_cons]
    by_cases hid : track.1 = id
    · subst hid
      have hnone : OrderedMap.valueAt BitVec.toNat track.1.toNat tracks = none :=
        OrderedMap.valueAt_none fun e he => (habove e he).ne'
      rw [if_pos rfl, List.filter_cons_of_pos (by simp [trackPacket])]
      rcases htail with ⟨_, hnil⟩ | ⟨acc, _, hsome, _⟩
      · exact .inr ⟨track.2, seq, rfl, by rw [hnil]⟩
      · exact absurd (hnone.symm.trans hsome) (Option.some_ne_none acc).symm
    · have hne : track.1.toNat ≠ id.toNat := fun hnat => hid (BitVec.toNat_inj.mp hnat)
      rw [if_neg hne, List.filter_cons_of_neg (by rw [decide_eq_true_iff]; exact hid)]
      exact htail

theorem batch_track (seq : U32) (batch : List (F64 × Frame)) (id : U32) :
    let ofTrack := (trackPackets seq (tracksOf batch)).filter fun pkt => pkt.trackId = id
    (samples id batch = [] ∧ ofTrack = []) ∨
    samples id batch ≠ [] ∧
      ∃ sequence, ofTrack = [trackPacket sequence (id, accumulated (samples id batch))] := by
  have hvalue := tracksOf_valueAt batch id
  rcases trackPackets_track seq (tracksOf_ascending batch) id with ⟨hnone, hnil⟩ | ⟨acc, sequence, hsome, hone⟩
  · rw [hnone] at hvalue
    by_cases hs : samples id batch = []
    · exact .inl ⟨hs, hnil⟩
    · rw [if_neg hs] at hvalue
      cases hvalue
  · rw [hsome] at hvalue
    by_cases hs : samples id batch = []
    · rw [if_pos hs] at hvalue
      cases hvalue
    · rw [if_neg hs] at hvalue
      obtain rfl := Option.some.inj hvalue
      exact .inr ⟨hs, sequence, hone⟩

/-! ## Runs of sound frames -/

/-- Sound frames without an object twice, at ascending positive times. -/
structure SoundRun (frames : List (F64 × Frame)) : Prop where
  frame : ∀ f ∈ frames, SoundFrame f.2
  distinct : ∀ f ∈ frames, (f.2.objects.map ObjectRecord.id).Nodup
  finite : ∀ f ∈ frames, f.1.datum.isFinite = true
  positive : ∀ f ∈ frames, 0 < f.1.datum.toRat
  ascending : frames.Pairwise fun f g => f.1.datum.toRat < g.1.datum.toRat

theorem SoundRun.sublist {frames frames' : List (F64 × Frame)} (h : SoundRun frames)
    (hsub : frames'.Sublist frames) : SoundRun frames' where
  frame f hf := h.frame f (hsub.subset hf)
  distinct f hf := h.distinct f (hsub.subset hf)
  finite f hf := h.finite f (hsub.subset hf)
  positive f hf := h.positive f (hsub.subset hf)
  ascending := h.ascending.sublist hsub

theorem mem_visits {frames : List (F64 × Frame)} {v : Visit} :
    v ∈ visits frames ↔ (v.t, v.frame) ∈ frames ∧ v.record ∈ v.frame.objects := by
  rw [visits, List.mem_flatMap]
  constructor
  · rintro ⟨f, hf, hv⟩
    obtain ⟨rec, hrec, rfl⟩ := List.mem_map.mp hv
    exact ⟨hf, hrec⟩
  · rintro ⟨hf, hrec⟩
    exact ⟨(v.t, v.frame), hf, List.mem_map_of_mem hrec⟩

theorem mem_samples {id : U32} {frames : List (F64 × Frame)} {v : Visit} :
    v ∈ samples id frames ↔ v ∈ visits frames ∧ v.record.id = id := by
  rw [samples, List.mem_filter, decide_eq_true_iff]

theorem samples_cons (id : U32) (f : F64 × Frame) (frames : List (F64 × Frame)) :
    samples id (f :: frames) =
      (f.2.objects.filter fun rec => rec.id = id).map (fun rec => ⟨f.1, f.2, rec⟩) ++
        samples id frames := by
  rw [samples, visits, List.flatMap_cons, List.filter_append, List.filter_map]
  rfl

/-- A frame has an object at most once. -/
theorem SoundRun.once {f : F64 × Frame} {frames : List (F64 × Frame)} (h : SoundRun (f :: frames))
    (id : U32) : (f.2.objects.filter fun rec => rec.id = id).length ≤ 1 := by
  have hcount := List.nodup_iff_count_le_one.mp (h.distinct f List.mem_cons_self) id
  rw [List.count, List.countP_map, List.countP_eq_length_filter] at hcount
  exact hcount

theorem SoundRun.length_samples {frames : List (F64 × Frame)} (h : SoundRun frames) (id : U32) :
    (samples id frames).length ≤ frames.length := by
  induction frames with
  | nil => exact Nat.le_refl 0
  | cons f frames ih =>
    have hrest := ih (h.sublist (List.sublist_cons_self f frames))
    have honce := h.once id
    rw [samples_cons, List.length_append, List.length_map, List.length_cons]
    omega

theorem SoundRun.samples_ascending {frames : List (F64 × Frame)} (h : SoundRun frames) (id : U32) :
    (samples id frames).Pairwise fun v w => v.t.datum.toRat < w.t.datum.toRat := by
  induction frames with
  | nil => exact List.Pairwise.nil
  | cons f frames ih =>
    have honce := h.once id
    rw [samples_cons]
    refine List.pairwise_append.mpr ⟨?_, ih (h.sublist (List.sublist_cons_self f frames)), ?_⟩
    · refine List.pairwise_map.mpr ?_
      generalize (f.2.objects.filter fun rec => rec.id = id) = records at honce
      match records, honce with
      | [], _ => exact List.Pairwise.nil
      | [rec], _ => exact List.pairwise_singleton _ _
    · intro v hv w hw
      obtain ⟨rec, _, rfl⟩ := List.mem_map.mp hv
      have hframe := (mem_visits.mp (mem_samples.mp hw).1).1
      exact (List.pairwise_cons.mp h.ascending).1 (w.t, w.frame) hframe

end Olv.Sim
