import OrbitalViewer.ProtocolOlv2Decode

/-!
# OLV2 encode and decode are inverse

The plan of the OLV1 round trip over the other layout: `decode_encode` for
packets, `encode_packetAt_iff` for datagrams.
-/

namespace Olv.Proto.Olv2
open Wire (Byte slice leAt)
open Ieee (F32 F64)

/-! ## Points -/

@[simp] theorem length_encodeHeader (p : TrackPacket) (n : Nat) : (encodeHeader p n).length = 24 :=
  rfl

@[simp] theorem length_encodePoint (p : Point) : (encodePoint p).length = 84 := rfl

/-- What decoding makes of a point: its undefined flag bits dropped. -/
def Point.masked (p : Point) : Point := { p with flags := p.flags &&& 0x03 }

theorem pointAt_encodePoint (p : Point) : pointAt (encodePoint p) 0 = p.masked := by
  have ht : f64At (encodePoint p) 0 = p.t := f64At_putF64 rfl
  have hsatPx : f64At (encodePoint p) (0 + 12) = p.satPx := f64At_putF64 rfl
  have hsatPy : f64At (encodePoint p) (0 + 20) = p.satPy := f64At_putF64 rfl
  have hsatPz : f64At (encodePoint p) (0 + 28) = p.satPz := f64At_putF64 rfl
  have htgtPx : f64At (encodePoint p) (0 + 36) = p.tgtPx := f64At_putF64 rfl
  have htgtPy : f64At (encodePoint p) (0 + 44) = p.tgtPy := f64At_putF64 rfl
  have htgtPz : f64At (encodePoint p) (0 + 52) = p.tgtPz := f64At_putF64 rfl
  have hsatVx : f32At (encodePoint p) (0 + 60) = p.satVx := f32At_putF32 rfl
  have hsatVy : f32At (encodePoint p) (0 + 64) = p.satVy := f32At_putF32 rfl
  have hsatVz : f32At (encodePoint p) (0 + 68) = p.satVz := f32At_putF32 rfl
  have htgtVx : f32At (encodePoint p) (0 + 72) = p.tgtVx := f32At_putF32 rfl
  have htgtVy : f32At (encodePoint p) (0 + 76) = p.tgtVy := f32At_putF32 rfl
  have htgtVz : f32At (encodePoint p) (0 + 80) = p.tgtVz := f32At_putF32 rfl
  have hflags : byteAt (encodePoint p) (0 + 8) = p.flags &&& 0x03 := rfl
  rw [pointAt, ht, hsatPx, hsatPy, hsatPz, htgtPx, htgtPy, htgtPz, hsatVx, hsatVy, hsatVz, htgtVx,
    htgtVy, htgtVz, hflags, BitVec.and_assoc, BitVec.and_self, Point.masked]

theorem pointAt_slice (d : List Byte) (p : Nat) : pointAt (slice d p 84) 0 = pointAt d p := by
  simp (disch := omega) only [pointAt, f64At, f32At, Wire.leAt_slice, byteAt_slice, Nat.zero_add,
    Nat.add_zero]

/-! ## Packets -/

/-- What decoding makes of an encoded packet. -/
def TrackPacket.capped (p : TrackPacket) : TrackPacket :=
  { p with
    targetType := if p.targetType > 5 then 0 else p.targetType
    targetFlags := p.targetFlags &&& 0x02
    confidence := if p.confidence > 100 then 100 else p.confidence
    points := (p.points.take 25).map Point.masked }

/-- How many points `encode` writes. -/
def TrackPacket.sent (p : TrackPacket) : Nat := min p.points.length 25

/-- What the checksum covers. -/
def body (p : TrackPacket) : List Byte :=
  encodeHeader p p.sent ++ (p.points.take 25).flatMap encodePoint

theorem encode_eq (p : TrackPacket) : encode p = body p ++ putU32 (crc32 (body p)) := by
  have hcount : (if p.points.length > kMaxPoints.toNat
      then kMaxPoints.toNat else p.points.length) = p.sent := by
    rw [TrackPacket.sent, show kMaxPoints.toNat = 25 from rfl]
    split <;> omega
  have htake : p.points.take p.sent = p.points.take 25 := by
    rw [List.take_eq_take_iff, TrackPacket.sent]
    omega
  simp only [encode, hcount, htake, body]

theorem length_body (p : TrackPacket) : (body p).length = 24 + 84 * p.sent := by
  rw [body, List.length_append, length_encodeHeader, Wire.length_chunks length_encodePoint,
    List.length_take, TrackPacket.sent, Nat.min_comm]

theorem length_encode (p : TrackPacket) : (encode p).length = 24 + 84 * p.sent + 4 := by
  rw [encode_eq, List.length_append, length_body]
  rfl

theorem slice_encode_header (p : TrackPacket) {off n : Nat} (h : off + n ≤ 24) :
    slice (encode p) off n = slice (encodeHeader p p.sent) off n := by
  rw [encode_eq, Wire.slice_append_left (by rw [length_body]; omega), body,
    Wire.slice_append_left (by rwa [length_encodeHeader])]

theorem slice_encode_point (p : TrackPacket) {i : Nat} (h : i < (p.points.take 25).length) :
    slice (encode p) (24 + i * 84) 84 = encodePoint (p.points.take 25)[i] := by
  have hoff : 24 + i * 84 = (encodeHeader p p.sent).length + 84 * i := by
    rw [length_encodeHeader, Nat.mul_comm]
  rw [encode_eq, body, List.append_assoc, hoff, Wire.slice_append_right,
    Wire.slice_chunks length_encodePoint _ _ h]

theorem byteAt_encode_header (p : TrackPacket) {i : Nat} (h : i < 24) :
    byteAt (encode p) i = byteAt (encodeHeader p p.sent) i := by
  have hs : slice (encode p) i 1 = slice (encodeHeader p p.sent) i 1 :=
    slice_encode_header p (by omega)
  rw [← Nat.add_zero i, ← byteAt_slice (m := 1) (by decide), hs, byteAt_slice (by decide)]

theorem countAt_encode (p : TrackPacket) : (byteAt (encode p) 23).toNat = p.sent := by
  have hle : p.sent ≤ 25 := Nat.min_le_right _ _
  have hb : byteAt (encode p) 23 = BitVec.ofNat 8 p.sent := byteAt_encode_header p (by decide)
  rw [hb, BitVec.toNat_ofNat, Nat.mod_eq_of_lt (by omega)]

theorem headerAt_encode (p : TrackPacket) :
    headerAt (encode p) = { p.capped with points := [] } := by
  have hsequence : leAt 32 (encode p) 8 = p.sequence := leAt_putU32 (slice_encode_header p (by decide))
  have htrackId : leAt 32 (encode p) 12 = p.trackId := leAt_putU32 (slice_encode_header p (by decide))
  have hsatId : leAt 32 (encode p) 16 = p.satId := leAt_putU32 (slice_encode_header p (by decide))
  have htype : byteAt (encode p) 20 = p.targetType := byteAt_encode_header p (by decide)
  have hflags : byteAt (encode p) 21 = p.targetFlags &&& 0x02 := byteAt_encode_header p (by decide)
  have hconf : byteAt (encode p) 22 = clampConfidence p.confidence :=
    byteAt_encode_header p (by decide)
  rw [headerAt, hsequence, htrackId, hsatId, htype, hflags, hconf, BitVec.and_assoc, BitVec.and_self,
    TrackPacket.capped, clampConfidence]
  grind

theorem packetAt_encode (p : TrackPacket) : packetAt (encode p) = p.capped := by
  have hpoints : ((List.range (byteAt (encode p) 23).toNat).map fun i =>
      pointAt (encode p) (24 + i * 84)) = (p.points.take 25).map Point.masked := by
    rw [countAt_encode]
    apply List.ext_getElem
    · simp [TrackPacket.sent, Nat.min_comm]
    · intro i _ h
      have hi : i < (p.points.take 25).length := by simpa using h
      rw [List.getElem_map, List.getElem_range, List.getElem_map, ← pointAt_slice,
        slice_encode_point p hi, pointAt_encodePoint]
  rw [packetAt, headerAt_encode, hpoints]
  rfl

theorem sound_masked {ps : List Point} (h : SoundPoints ps) : SoundPoints (ps.map Point.masked) where
  sound := by
    rintro _ hp
    obtain ⟨p, hp', rfl⟩ := List.mem_map.mp hp
    obtain ⟨a, b, c, d, e, f, g, h, i, j, k, l, m⟩ := h.sound p hp'
    exact ⟨a, b, c, d, e, f, g, h, i, j, k, l, m⟩
  positive := by
    rintro _ hp
    obtain ⟨p, hp', rfl⟩ := List.mem_map.mp hp
    exact h.positive p hp'
  ascending := List.pairwise_map.mpr h.ascending

theorem documented_encode {p : TrackPacket} (hne : p.points ≠ [])
    (hs : SoundPoints (p.points.take 25)) : Documented (encode p) := by
  have hsent : p.sent ≤ 25 := Nat.min_le_right _ _
  have hpos : 1 ≤ p.sent := by
    have := List.length_pos_iff.mpr hne
    rw [TrackPacket.sent]
    omega
  have hlen := length_encode p
  have hbody : (encode p).take ((encode p).length - 4) = body p := by
    rw [hlen, Nat.add_sub_cancel, ← length_body, encode_eq, List.take_left]
  refine ⟨by omega, by omega, slice_encode_header p (by decide),
    (byteAt_encode_header p (by decide)).trans rfl, (byteAt_encode_header p (by decide)).trans rfl,
    by rwa [countAt_encode], by rwa [countAt_encode], by rw [countAt_encode, hlen], ?_, ?_⟩
  · rw [hbody]
    apply leAt_putU32
    rw [hlen, Nat.add_sub_cancel, ← length_body, encode_eq, ← Nat.add_zero (body p).length,
      Wire.slice_append_right]
    rfl
  · rw [packetAt_encode]
    exact sound_masked hs

theorem decode_encode {p : TrackPacket} (hne : p.points ≠ [])
    (hs : SoundPoints (p.points.take 25)) (out : TrackPacket) :
    decode (encode p) out = some (.kNone, p.capped) := by
  have hv : verdict (encode p) = .kNone := (verdict_iff _).mpr (documented_encode hne hs)
  rw [decode_eq, hv, if_pos rfl, packetAt_encode]

/-! ## Decoded packets -/

theorem decode_accepts {d : List Byte} {out pkt : TrackPacket}
    (h : decode d out = some (.kNone, pkt)) : Documented d ∧ packetAt d = pkt := by
  rw [decode_eq, Option.some.injEq, Prod.mk.injEq] at h
  obtain ⟨hv, hp⟩ := h
  rw [if_pos hv] at hp
  exact ⟨(verdict_iff d).mp hv, hp⟩

theorem take_packetAt {d : List Byte} (h : Documented d) :
    (packetAt d).points.take 25 = (packetAt d).points :=
  List.take_of_length_le (by rw [length_packetAt]; exact h.count_le)

theorem packetAt_capped {d : List Byte} (h : Documented d) : (packetAt d).capped = packetAt d := by
  have hpoint (p : Point) (hp : p ∈ (packetAt d).points) : p.masked = p := by
    obtain ⟨i, _, rfl⟩ := List.mem_map.mp hp
    rw [Point.masked, pointAt, BitVec.and_assoc, BitVec.and_self]
  rw [TrackPacket.capped, take_packetAt h, List.map_congr_left hpoint, List.map_id']
  simp only [packetAt, headerAt, BitVec.and_assoc, BitVec.and_self]
  grind

/-- The flag bits decoding drops, and the reserved bytes. -/
structure CanonicalPoint (d : List Byte) (p : Nat) : Prop where
  flags : byteAt d (p + 8) &&& 0xFC = 0
  reserved : byteAt d (p + 9) = 0 ∧ byteAt d (p + 10) = 0 ∧ byteAt d (p + 11) = 0

/-- Datagrams `encode` can have written. -/
structure Canonical (d : List Byte) : Prop where
  flags : leAt 16 d 6 = 0
  type : byteAt d 20 ≤ 5
  targetFlags : byteAt d 21 &&& 0xFD = 0
  confidence : byteAt d 22 ≤ 100
  points : ∀ i < (byteAt d 23).toNat, CanonicalPoint d (24 + i * 84)

/-- A mask keeps a byte exactly when the bits it drops are zero. -/
theorem mask_eq_iff (b m : U8) : b &&& m = b ↔ b &&& ~~~m = 0#8 := by
  constructor
  · intro h
    rw [← h, BitVec.and_assoc, BitVec.and_not_self]
    exact BitVec.and_zero
  · intro h
    have hsplit : b = (b &&& m) ||| (b &&& ~~~m) := by
      rw [← BitVec.and_or_distrib_left, BitVec.or_not_self, BitVec.and_allOnes]
    rw [h, BitVec.or_zero] at hsplit
    exact hsplit.symm

theorem encodePoint_pointAt {d : List Byte} {p : Nat} (h : p + 84 ≤ d.length) :
    encodePoint (pointAt d p) = slice d p 84 ↔ CanonicalPoint d p := by
  have hsplit : slice d p 84 = slice d p 8 ++ ([byteAt d (p + 8), byteAt d (p + 9),
      byteAt d (p + 10), byteAt d (p + 11)] ++ slice d (p + 12) 72) := by
    rw [Wire.slice_split d p 8 76, Wire.slice_split d (p + 8) 4 72,
      slice_bytes (p := p + 8) (n := 4) (by omega)]
    rfl
  have htail : slice d (p + 12) 72 = putF64 (pointAt d p).satPx ++ (putF64 (pointAt d p).satPy ++
      (putF64 (pointAt d p).satPz ++ (putF64 (pointAt d p).tgtPx ++ (putF64 (pointAt d p).tgtPy ++
      (putF64 (pointAt d p).tgtPz ++ (putF32 (pointAt d p).satVx ++ (putF32 (pointAt d p).satVy ++
      (putF32 (pointAt d p).satVz ++ (putF32 (pointAt d p).tgtVx ++ (putF32 (pointAt d p).tgtVy ++
      putF32 (pointAt d p).tgtVz)))))))))) := by
    simp (disch := omega) only [pointAt, putF64_f64At, putF32_f32At]
    rw [Wire.slice_split d (p + 12) 8 64, Wire.slice_split d (p + 20) 8 56,
      Wire.slice_split d (p + 28) 8 48, Wire.slice_split d (p + 36) 8 40,
      Wire.slice_split d (p + 44) 8 32, Wire.slice_split d (p + 52) 8 24,
      Wire.slice_split d (p + 60) 4 20, Wire.slice_split d (p + 64) 4 16,
      Wire.slice_split d (p + 68) 4 12, Wire.slice_split d (p + 72) 4 8,
      Wire.slice_split d (p + 76) 4 4]
  have ht : putF64 (pointAt d p).t = slice d p 8 := putF64_f64At (by omega)
  have hflags : (pointAt d p).flags &&& (kPointSatHasVel ||| kPointTgtHasVel) =
      byteAt d (p + 8) &&& 0x03 := by
    rw [pointAt, show kPointSatHasVel ||| kPointTgtHasVel = 0x03 from rfl, BitVec.and_assoc,
      BitVec.and_self]
  have hmask : byteAt d (p + 8) &&& 0x03 = byteAt d (p + 8) ↔ byteAt d (p + 8) &&& 0xFC = 0 :=
    mask_eq_iff _ 0x03
  rw [hsplit, encodePoint, ← htail, ht, hflags, List.append_cancel_left_eq,
    List.append_cancel_right_eq, List.cons.injEq, hmask]
  simp only [List.cons.injEq, and_true]
  constructor
  · rintro ⟨h8, h9, h10, h11⟩
    exact ⟨h8, h9.symm, h10.symm, h11.symm⟩
  · rintro ⟨h8, h9, h10, h11⟩
    exact ⟨h8, h9.symm, h10.symm, h11.symm⟩

/-- The header that is written back, and when it is the one that was read. -/
theorem encodeHeader_packetAt {d : List Byte} (h : Documented d) :
    encodeHeader (packetAt d) (packetAt d).sent = slice d 0 24 ↔
      leAt 16 d 6 = 0 ∧ byteAt d 20 ≤ 5 ∧ byteAt d 21 &&& 0xFD = 0 ∧ byteAt d 22 ≤ 100 := by
  have hlen := h.length_ge
  have hcount : BitVec.ofNat 8 (packetAt d).sent = byteAt d 23 := by
    rw [TrackPacket.sent, length_packetAt, Nat.min_eq_left h.count_le, BitVec.ofNat_toNat,
      BitVec.setWidth_eq]
  have hhead : slice d 0 6 = kMagic ++ [kVersion, kTrackUpdate] := by
    rw [Wire.slice_split d 0 4 2, h.magic, slice_bytes (p := 0 + 4) (n := 2) (by omega),
      show (List.range 2).map (fun i => byteAt d (0 + 4 + i)) = [byteAt d 4, byteAt d 5] from rfl,
      h.version, h.msgType]
    rfl
  have hread : slice d 0 24 = kMagic ++ ([kVersion, kTrackUpdate] ++ (slice d 6 2 ++ (slice d 8 4 ++
      (slice d 12 4 ++ (slice d 16 4 ++
      [byteAt d 20, byteAt d 21, byteAt d 22, byteAt d 23]))))) := by
    rw [Wire.slice_split d 0 6 18, hhead, Wire.slice_split d (0 + 6) 2 16,
      Wire.slice_split d (0 + 6 + 2) 4 12, Wire.slice_split d (0 + 6 + 2 + 4) 4 8,
      Wire.slice_split d (0 + 6 + 2 + 4 + 4) 4 4,
      slice_bytes (p := 0 + 6 + 2 + 4 + 4 + 4) (n := 4) (by omega), List.append_assoc]
    rfl
  have hfields : putU32 (packetAt d).sequence = slice d 8 4 ∧
      putU32 (packetAt d).trackId = slice d 12 4 ∧ putU32 (packetAt d).satId = slice d 16 4 :=
    ⟨putU32_leAt (by omega), putU32_leAt (by omega), putU32_leAt (by omega)⟩
  have htarget : (packetAt d).targetFlags &&& kFlagHighlight = byteAt d 21 &&& 0x02 := by
    rw [packetAt, headerAt, show kFlagHighlight = 0x02 from rfl, BitVec.and_assoc, BitVec.and_self]
  have hmask : byteAt d 21 &&& 0x02 = byteAt d 21 ↔ byteAt d 21 &&& 0xFD = 0 := mask_eq_iff _ 0x02
  have hflags : putU16 0 = slice d 6 2 ↔ leAt 16 d 6 = 0 :=
    ⟨fun he => leAt_putU16 he.symm, fun he => by rw [← he, putU16_leAt (by omega)]⟩
  rw [encodeHeader, hcount, hread, hfields.1, hfields.2.1, hfields.2.2, htarget,
    List.append_cancel_left_eq, List.append_cancel_left_eq,
    Wire.append_eq_iff (by rw [Wire.length_slice (by omega)]; rfl), hflags,
    List.append_cancel_left_eq, List.append_cancel_left_eq, List.append_cancel_left_eq]
  simp only [List.cons.injEq, and_true, hmask, packetAt, headerAt, clampConfidence]
  grind

theorem body_packetAt {d : List Byte} (h : Documented d) :
    body (packetAt d) = d.take (d.length - 4) ↔ Canonical d := by
  have hlen := h.length_eq
  have hwritten : (packetAt d).points.flatMap encodePoint = (List.range (byteAt d 23).toNat).flatMap
      fun i => encodePoint (pointAt d (24 + i * 84)) := by
    rw [packetAt, List.flatMap_map]
  have hbody : d.take (d.length - 4) = slice d 0 24 ++
      (List.range (byteAt d 23).toNat).flatMap fun i => slice d (24 + i * 84) 84 := by
    have hwhole : d.take (d.length - 4) = slice d 0 (24 + 84 * (byteAt d 23).toNat) := by
      rw [slice, List.drop_zero]
      congr 1
      omega
    rw [hwhole, Wire.slice_split, Wire.chunks_slice]
  have hslices : ∀ i ∈ List.range (byteAt d 23).toNat,
      (encodePoint (pointAt d (24 + i * 84))).length = (slice d (24 + i * 84) 84).length := by
    intro i hi
    have hi' := List.mem_range.mp hi
    rw [length_encodePoint, Wire.length_slice (by omega)]
  have hiff (i : Nat) (hi : i < (byteAt d 23).toNat) :=
    encodePoint_pointAt (d := d) (p := 24 + i * 84) (by omega)
  rw [body, take_packetAt h, hwritten, hbody,
    Wire.append_eq_iff (by rw [Wire.length_slice (by omega)]; rfl), Wire.chunks_eq_iff hslices,
    encodeHeader_packetAt h]
  constructor
  · rintro ⟨⟨hf, htype, htf, hconf⟩, hp⟩
    exact ⟨hf, htype, htf, hconf, fun i hi => (hiff i hi).mp (hp i (List.mem_range.mpr hi))⟩
  · rintro ⟨hf, htype, htf, hconf, hp⟩
    refine ⟨⟨hf, htype, htf, hconf⟩, fun i hi => ?_⟩
    have hi' := List.mem_range.mp hi
    exact (hiff i hi').mpr (hp i hi')

theorem encode_packetAt_iff {d : List Byte} (h : Documented d) :
    encode (packetAt d) = d ↔ Canonical d := by
  have hlen := h.length_ge
  have hcrc : putU32 (crc32 (d.take (d.length - 4))) = slice d (d.length - 4) 4 := by
    rw [← h.crc, putU32_leAt (by omega)]
  have hsplit := Wire.take_append_last (d := d) (n := 4) (by omega)
  have hlast : (slice d (d.length - 4) 4).length = 4 := Wire.length_slice (by omega)
  rw [← body_packetAt h, encode_eq]
  constructor
  · intro he
    exact (List.append_inj' (he.trans hsplit.symm) hlast.symm).1
  · intro he
    rw [he, hcrc, hsplit]

/-- **Round trip.** A packet whose first 25 points are sound decodes to itself,
cut and masked; and a decoded packet encodes to a datagram that decodes to the
same packet, and to the very same bytes exactly when the ones decoding ignores
were zero. -/
theorem track_encode_roundTrip :
    (∀ p out, p.points ≠ [] → SoundPoints (p.points.take 25) →
      decode (encode p) out = some (.kNone, p.capped)) ∧
    (∀ d out pkt, decode d out = some (.kNone, pkt) →
      (∀ out', decode (encode pkt) out' = some (.kNone, pkt)) ∧
      (encode pkt = d ↔ Canonical d)) := by
  refine ⟨fun p out hne hs => decode_encode hne hs out, fun d out pkt h => ?_⟩
  obtain ⟨hd, rfl⟩ := decode_accepts h
  refine ⟨fun out' => ?_, encode_packetAt_iff hd⟩
  have hs : SoundPoints ((packetAt d).points.take 25) := by
    rw [take_packetAt hd]
    exact hd.sound
  rw [decode_encode (points_packetAt_ne hd) hs, packetAt_capped hd]

/-- One point at one second, with an undefined flag bit set. -/
def samplePacket : TrackPacket :=
  { trackId := 9, satId := 1, targetType := 7, points := [{ t := ⟨0x3FF0000000000000⟩, flags := 4 }] }

theorem samplePacket_sound : SoundPoints (samplePacket.points.take 25) where
  sound := by
    intro p hp
    rw [List.mem_singleton.mp hp]
    constructor <;> decide +kernel
  positive := by
    intro p hp
    rw [List.mem_singleton.mp hp]
    decide +kernel
  ascending := List.pairwise_singleton _ _

theorem track_encode_roundTrip_sample :
    decode (encode samplePacket) {} = some (.kNone, samplePacket.capped) ∧
    (encode samplePacket.capped = encode samplePacket ↔ Canonical (encode samplePacket)) :=
  have h := track_encode_roundTrip.1 samplePacket {} (by decide) samplePacket_sound
  ⟨h, (track_encode_roundTrip.2 (encode samplePacket) {} _ h).2⟩

end Olv.Proto.Olv2
