import OrbitalViewer.CsvReader
import OrbitalViewer.Olv2Delivery

/-!
# Mission files on the wire

`buildFrames` of `tools/simulator/src/frame_builder.cpp` groups the rows of a
mission file by time. The reader lets through positions of any size and an object
more than once at a time, and the wire does neither, so the backend decodes all
that is sent of a file exactly when the file has none of these (`decodes_iff`).
-/

namespace Olv.Sim
open Wire (Byte)
open Ieee (F64)
open Proto (ObjectRecord StatePacket SoundRecord Coordinate)
open Proto.Olv2 (Point)

structure Group where
  t : F64 := ⟨0⟩
  hasSat : Bool := false
  sat : ObjectRecord := {}
  objects : List ObjectRecord := []

structure BuildError where
  message : String
  deriving DecidableEq

structure GroupResult where
  frames : List Frame := []
  error : Option BuildError := none

def Group.add (g : Group) (row : CsvRow) : Group :=
  if row.isSat then { g with t := row.timeS, sat := row.record, hasSat := true }
  else { g with t := row.timeS, objects := g.objects ++ [row.record] }

def byTime (rows : List CsvRow) : List (F64 × Group) :=
  OrderedMap.collect (fun a b : F64 => a.datum.lt b.datum) {} CsvRow.timeS Group.add rows

/-- The frames of groups in order; a group without a satellite has the last one. -/
def framesOf (lastSat : Option ObjectRecord) : List (F64 × Group) → List Frame
  | [] => []
  | (_, g) :: groups =>
    let lastSat := if g.hasSat then some g.sat else lastSat
    { t := g.t, sat := lastSat.getD {}, objects := g.objects } :: framesOf lastSat groups

def buildFrames (rows : List CsvRow) : GroupResult :=
  match byTime rows with
  | [] => {}
  | (t, g) :: groups =>
    if g.hasSat then { frames := framesOf none ((t, g) :: groups) }
    else
      { error := some ⟨"first frame (t=" ++ String.ofList (Decimal.fixed 6 t.datum) ++
          ") has no sat row"⟩ }

/-! ## Frames of a file -/

/-- What holds of the satellite and every object of a frame. -/
def Frame.All (P : ObjectRecord → Prop) (frame : Frame) : Prop :=
  P frame.sat ∧ ∀ rec ∈ frame.objects, P rec

theorem framesOf_all {P : ObjectRecord → Prop} {lastSat : Option ObjectRecord} (hlast : P (lastSat.getD {}))
    {groups : List (F64 × Group)} (h : ∀ e ∈ groups, P e.2.sat ∧ ∀ rec ∈ e.2.objects, P rec) :
    ∀ frame ∈ framesOf lastSat groups, frame.All P := by
  induction groups generalizing lastSat with
  | nil => exact fun _ hframe => nomatch hframe
  | cons e groups ih =>
    obtain ⟨⟨hsat, hobjects⟩, hrest⟩ := List.forall_mem_cons.mp h
    have hnext : P ((if e.2.hasSat then some e.2.sat else lastSat).getD {}) := by
      split
      · exact hsat
      · exact hlast
    exact List.forall_mem_cons.mpr ⟨⟨hnext, hobjects⟩, ih hnext hrest⟩

/-- What holds of every row's record holds in every frame. -/
theorem buildFrames_all {P : ObjectRecord → Prop} (hdefault : P {}) {rows : List CsvRow}
    (h : ∀ row ∈ rows, P row.record) : ∀ frame ∈ (buildFrames rows).frames, frame.All P := by
  have hgroups : ∀ e ∈ byTime rows, P e.2.sat ∧ ∀ rec ∈ e.2.objects, P rec := by
    refine OrderedMap.forall_collect (P := fun g : Group => P g.sat ∧ ∀ rec ∈ g.objects, P rec)
      ⟨hdefault, by rintro _ ⟨⟩⟩ CsvRow.timeS fun row hrow g hg => ?_
    unfold Group.add
    split
    · exact ⟨h row hrow, hg.2⟩
    · refine ⟨hg.1, fun rec hrec => ?_⟩
      rcases List.mem_append.mp hrec with hold | hnew
      · exact hg.2 rec hold
      · exact List.mem_singleton.mp hnew ▸ h row hrow
  unfold buildFrames
  split
  · rintro _ ⟨⟩
  · rename_i hby
    rw [hby] at hgroups
    split
    · exact framesOf_all hdefault hgroups
    · rintro _ ⟨⟩

theorem default_finite : FiniteRecord {} := by constructor <;> decide +kernel

/-! ## What the backend decodes -/

/-- Frames of the file as the loop sends them from some point on, one after the
other and over again, at ascending positive times. -/
structure Stretch (frames : List Frame) (timed : List (F64 × Frame)) : Prop where
  frames : ∃ n, timed.map Prod.snd <:+: (List.replicate n frames).flatten
  finite : ∀ f ∈ timed, f.1.datum.isFinite = true
  positive : ∀ f ∈ timed, 0 < f.1.datum.toRat
  ascending : timed.Pairwise fun f g => f.1.datum.toRat < g.1.datum.toRat

/-- The backend decodes every datagram of the frames. -/
structure Decodes (frames : List Frame) : Prop where
  packets : ∀ frame ∈ frames, ∀ chunk seq, ∀ d ∈ (buildPackets frame chunk seq).1,
    (Proto.decode d {}).map Prod.fst = some .kNone
  tracks : ∀ timed, Stretch frames timed → ∀ points seq, ∀ d ∈ sendRun (.new points) seq timed,
    (Proto.Olv2.decode d {}).map Prod.fst = some .kNone

/-- A position within the bound of the wire. -/
def InRange (rec : ObjectRecord) : Prop :=
  Coordinate rec.px ∧ Coordinate rec.py ∧ Coordinate rec.pz

/-- What the wire asks of a frame and the reader does not. -/
structure Sendable (frame : Frame) : Prop where
  inRange : frame.All InRange
  distinct : (frame.objects.map ObjectRecord.id).Nodup

theorem decode_kNone_iff (d : List Byte) :
    (Proto.decode d {}).map Prod.fst = some .kNone ↔ Proto.Documented d := by
  rw [Proto.decode_eq, Option.map_some, Option.some_inj, Proto.verdict_iff]

theorem olv2_decode_kNone_iff (d : List Byte) :
    (Proto.Olv2.decode d {}).map Prod.fst = some .kNone ↔ Proto.Olv2.Documented d := by
  rw [Proto.Olv2.decode_eq, Option.map_some, Option.some_inj, Proto.Olv2.verdict_iff]

theorem Stretch.mem {frames : List Frame} {timed : List (F64 × Frame)} (h : Stretch frames timed) :
    ∀ f ∈ timed, f.2 ∈ frames := by
  intro f hf
  obtain ⟨n, hsub⟩ := h.frames
  have hmem := hsub.subset (List.mem_map_of_mem (f := Prod.snd) hf)
  obtain ⟨copy, hcopy, hin⟩ := List.mem_flatten.mp hmem
  exact List.eq_of_mem_replicate hcopy ▸ hin

theorem Sendable.sound {frame : Frame} (h : Sendable frame) (hfinite : frame.All FiniteRecord) :
    SoundFrame frame where
  px := h.inRange.1.1
  py := h.inRange.1.2.1
  pz := h.inRange.1.2.2
  vx := hfinite.1.vx
  vy := hfinite.1.vy
  vz := hfinite.1.vz
  objects rec hrec := by
    obtain ⟨px, py, pz⟩ := h.inRange.2 rec hrec
    have hrec := hfinite.2 rec hrec
    exact ⟨px, py, pz, hrec.vx, hrec.vy, hrec.vz, hrec.intensity⟩

theorem mem_packetsOf {frame : Frame} {seq : U32} {cs : List (List ObjectRecord)} {pkt : StatePacket} :
    pkt ∈ packetsOf frame seq cs → ∃ objects ∈ cs, ∃ seq, pkt = packetFor frame seq objects := by
  induction cs generalizing seq with
  | nil => exact fun h => nomatch h
  | cons objects cs ih =>
    intro h
    rcases List.mem_cons.mp h with rfl | h
    · exact ⟨objects, List.mem_cons_self, seq, rfl⟩
    · obtain ⟨later, hlater, hpkt⟩ := ih h
      exact ⟨later, List.mem_cons_of_mem objects hlater, hpkt⟩

/-- Finite frames that the wire takes are decoded. -/
theorem decodes_of_sendable {frames : List Frame} (hfinite : ∀ frame ∈ frames, frame.All FiniteRecord)
    (h : ∀ frame ∈ frames, Sendable frame) : Decodes frames where
  packets frame hframe chunk seq d hd := by
    have hsound := (h frame hframe).sound (hfinite frame hframe)
    rw [buildPackets_eq] at hd
    obtain ⟨pkt, hpkt, rfl⟩ := List.mem_map.mp hd
    obtain ⟨objects, hobjects, seq, rfl⟩ := mem_packetsOf hpkt
    obtain ⟨hlen, hle, hsub⟩ := cut_chunksOf frame chunk objects hobjects
    exact (decode_kNone_iff _).mpr (packetFor_decodes hsound seq hsub hlen hle).1
  tracks timed htimed points seq d hd := by
    have hrun : SoundRun timed := ⟨fun f hf =>
      (h f.2 (htimed.mem f hf)).sound (hfinite f.2 (htimed.mem f hf)),
      fun f hf => (h f.2 (htimed.mem f hf)).distinct, htimed.finite, htimed.positive,
      htimed.ascending⟩
    rw [sendRun_new] at hd
    obtain ⟨pkt, hpkt, rfl⟩ := List.mem_map.mp hd
    exact (olv2_decode_kNone_iff _).mpr (batches_documented hrun points seq pkt hpkt)

theorem exists_packet (frame : Frame) (seq : U32) {cs : List (List ObjectRecord)}
    {objects : List ObjectRecord} (h : objects ∈ cs) :
    ∃ seq', packetFor frame seq' objects ∈ packetsOf frame seq cs := by
  obtain ⟨k, hk⟩ := List.getElem?_of_mem h
  have hpacket := getElem?_packetsOf frame seq cs k
  rw [hk] at hpacket
  exact ⟨_, List.mem_of_getElem? hpacket⟩

/-- A frame whose OLV1 packets decode is in range. -/
theorem inRange_of_documented {frame : Frame}
    (h : ∀ d ∈ (buildPackets frame 128 0).1, Proto.Documented d) : frame.All InRange := by
  have hsound {objects : List ObjectRecord} (hobjects : objects ∈ chunksOf frame 128) :
      ∃ seq, Proto.SoundPacket (packetFor frame seq objects).capped := by
    obtain ⟨seq, hmem⟩ := exists_packet frame 0 hobjects
    have hdocumented := h (Proto.encode (packetFor frame seq objects)) (by
      rw [buildPackets_eq]
      exact List.mem_map_of_mem hmem)
    exact ⟨seq, Proto.packetAt_encode _ ▸ hdocumented.sound⟩
  refine ⟨?_, fun rec hrec => ?_⟩
  · obtain ⟨objects, hobjects⟩ := List.exists_mem_of_ne_nil _
      (Chunks.chunks_ne (clampedChunk 128) frame.objects)
    obtain ⟨_, hpacket⟩ := hsound hobjects
    exact ⟨hpacket.header.px, hpacket.header.py, hpacket.header.pz⟩
  · rw [← Chunks.flatten_chunks (clampedChunk 128) frame.objects] at hrec
    obtain ⟨objects, hobjects, hin⟩ := List.mem_flatten.mp hrec
    obtain ⟨seq, hpacket⟩ := hsound hobjects
    have hlen := (cut_chunksOf frame 128 objects hobjects).1
    have hcapped : rec.capped ∈ (packetFor frame seq objects).capped.objects :=
      List.mem_map_of_mem (by rwa [packetFor, List.take_of_length_le hlen])
    have hrecord := hpacket.records rec.capped hcapped
    exact ⟨hrecord.px, hrecord.py, hrecord.pz⟩

/-- One second. -/
def oneSecond : F64 := ⟨0x3FF0000000000000⟩

/-- Two visits of one object at one time do not decode. -/
theorem not_documented_twice {frame : Frame} (sequence : U32) {id : U32}
    (htwice : 1 < (samples id [(oneSecond, frame)]).length) :
    ¬ Proto.Olv2.Documented (Proto.Olv2.encode
      (trackPacket sequence (id, accumulated (samples id [(oneSecond, frame)])))) := by
  intro h
  have htimes : ∀ v ∈ samples id [(oneSecond, frame)], v.point.masked.time = oneSecond.datum.toRat := by
    intro v hv
    have hmem := (mem_visits.mp (mem_samples.mp hv).1).1
    have ht : v.t = oneSecond := congrArg Prod.fst (List.mem_singleton.mp hmem)
    rw [v.point_masked, Point.time, v.point_fields.1, ht]
  have hasc := h.sound.ascending
  rw [Proto.Olv2.packetAt_encode, Proto.Olv2.TrackPacket.capped, points_trackPacket] at hasc
  rcases hs : samples id [(oneSecond, frame)] with _ | ⟨v, _ | ⟨w, rest⟩⟩
  · rw [hs] at htwice
    exact absurd htwice (by decide)
  · rw [hs] at htwice
    exact absurd htwice (lt_irrefl 1)
  · rw [hs] at hasc htimes
    have hlt := (List.pairwise_cons.mp hasc).1 w.point.masked List.mem_cons_self
    have hv := htimes v List.mem_cons_self
    have hw := htimes w (List.mem_cons_of_mem v List.mem_cons_self)
    exact absurd hlt (hv.trans hw.symm).not_lt

/-- A frame whose OLV2 packets decode has no object twice. -/
theorem distinct_of_documented {frame : Frame}
    (h : ∀ d ∈ sendRun (.new 1) 0 [(oneSecond, frame)], Proto.Olv2.Documented d) :
    (frame.objects.map ObjectRecord.id).Nodup := by
  refine List.nodup_iff_count_le_one.mpr fun id => not_lt.mp fun htwice => ?_
  have hbatches : batchesOf 1 [(oneSecond, frame)] = [[(oneSecond, frame)]] :=
    Chunks.chunks_of_le (clampedPoints 1).2
  have hlen : 1 < (samples id [(oneSecond, frame)]).length := by
    rw [List.count, List.countP_map, List.countP_eq_length_filter] at htwice
    rw [samples_cons, List.length_append, List.length_map]
    exact Nat.lt_add_right _ htwice
  rcases batch_track 0 [(oneSecond, frame)] id with ⟨hnone, _⟩ | ⟨_, sequence, hone⟩
  · rw [hnone] at hlen
    exact absurd hlen (by decide)
  · have hpkt := List.mem_of_mem_filter (hone ▸ List.mem_singleton_self _ :
      trackPacket sequence (id, accumulated (samples id [(oneSecond, frame)])) ∈ _)
    refine not_documented_twice sequence hlen (h _ ?_)
    rw [sendRun_new, hbatches, batchPackets_singleton]
    exact List.mem_map_of_mem hpkt

theorem stretch_singleton {frames : List Frame} {frame : Frame} (h : frame ∈ frames) :
    Stretch frames [(oneSecond, frame)] where
  frames := by
    obtain ⟨before, later, rfl⟩ := List.append_of_mem h
    exact ⟨1, before, later, by simp⟩
  finite := List.forall_mem_singleton.mpr (by decide +kernel : oneSecond.datum.isFinite = true)
  positive := List.forall_mem_singleton.mpr (by decide +kernel : 0 < oneSecond.datum.toRat)
  ascending := List.pairwise_singleton _ _

/-- **What is sent of a mission file.** The backend decodes all of it exactly when
every position of the frames is within the bound of the wire and no object comes
twice at one time. A file that is rejected has no frames. -/
theorem decodes_iff (text : List Char) :
    Decodes (buildFrames (parseCsv text).rows).frames ↔
      ∀ frame ∈ (buildFrames (parseCsv text).rows).frames, Sendable frame := by
  constructor
  · intro h frame hframe
    exact ⟨inRange_of_documented fun d hd => (decode_kNone_iff d).mp (h.packets frame hframe 128 0 d hd),
      distinct_of_documented fun d hd =>
        (olv2_decode_kNone_iff d).mp (h.tracks _ (stretch_singleton hframe) 1 0 d hd)⟩
  · exact decodes_of_sendable (buildFrames_all default_finite
      fun row hrow => (parseCsv_finite text row hrow).record)

/-- Both the reader and the grouping take the file. -/
def Accepted (text : List Char) : Prop :=
  (parseCsv text).error = none ∧ (buildFrames (parseCsv text).rows).error = none

/-- A satellite 2e13 m away. -/
def farFile : List Char := (kHeaderLine ++ "\n0,sat,1,,2e13,0,0,,,,,,").toList

def farRows : List CsvRow :=
  [{ isSat := true, record := { id := 1, confidence := 100, px := ⟨0x42B2309CE5400000⟩ } }]

theorem parse_farFile : parseCsv farFile = { rows := farRows } := by decide +kernel

/-- Object 9 twice at one time. -/
def twiceFile : List Char :=
  (kHeaderLine ++ "\n0,sat,1,,0,0,0,,,,,,\n0,obj,9,,0,0,0,,,,,,\n0,obj,9,,0,0,0,,,,,,").toList

def twiceRows : List CsvRow :=
  [{ isSat := true, record := { id := 1, confidence := 100 } },
    { record := { id := 9, confidence := 100 } }, { record := { id := 9, confidence := 100 } }]

theorem parse_twiceFile : parseCsv twiceFile = { rows := twiceRows } := by decide +kernel

/-- Both files are accepted, and the backend rejects a packet of the one and a track
of the other. -/
theorem accepted_not_decoded :
    (Accepted farFile ∧ ¬ Decodes (buildFrames (parseCsv farFile).rows).frames) ∧
    Accepted twiceFile ∧ ¬ Decodes (buildFrames (parseCsv twiceFile).rows).frames := by
  unfold Accepted
  rw [parse_farFile, parse_twiceFile]
  refine ⟨⟨by decide +kernel, fun h => ?_⟩, by decide +kernel, fun h => ?_⟩
  · obtain ⟨frame, hframe, d, hd, herror⟩ : ∃ frame ∈ (buildFrames farRows).frames,
        ∃ d ∈ (buildPackets frame 128 0).1,
          (Proto.decode d {}).map Prod.fst = some .kOutOfRange := by decide +kernel
    rw [h.packets frame hframe 128 0 d hd] at herror
    cases herror
  · obtain ⟨frame, hframe, d, hd, herror⟩ : ∃ frame ∈ (buildFrames twiceRows).frames,
        ∃ d ∈ sendRun (.new 1) 0 [(oneSecond, frame)],
          (Proto.Olv2.decode d {}).map Prod.fst = some .kBadTime := by decide +kernel
    rw [h.tracks _ (stretch_singleton hframe) 1 0 d hd] at herror
    cases herror

end Olv.Sim
