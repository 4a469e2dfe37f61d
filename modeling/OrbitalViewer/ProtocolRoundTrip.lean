import OrbitalViewer.ProtocolDecode

/-!
# OLV1 encode and decode are inverse

What `encode` writes is read back field by field, so decoding an encoded packet
returns it with its counts, types and confidences capped (`decode_encode`);
and what `encode` writes for a decoded packet is the datagram itself but for
the bytes decoding ignores (`encode_packetAt_iff`).
-/

namespace Olv.Proto
open Wire (Byte slice leAt leBytes leValue)
open Ieee (F32 F64)

/-! ## Records -/

@[simp] theorem length_encodeHeader (p : StatePacket) (n : Nat) : (encodeHeader p n).length = 56 :=
  rfl

@[simp] theorem length_encodeRecord (r : ObjectRecord) : (encodeRecord r).length = 48 := rfl

/-- What decoding makes of a record: its type and confidence capped. -/
def ObjectRecord.capped (r : ObjectRecord) : ObjectRecord :=
  { r with
    type := if r.type > 5 then 0 else r.type
    confidence := if r.confidence > 100 then 100 else r.confidence }

theorem recordAt_encodeRecord (r : ObjectRecord) : recordAt (encodeRecord r) 0 = r.capped := by
  have hid : leAt 32 (encodeRecord r) 0 = r.id := leAt_putU32 rfl
  have hpx : f64At (encodeRecord r) (0 + 8) = r.px := f64At_putF64 rfl
  have hpy : f64At (encodeRecord r) (0 + 16) = r.py := f64At_putF64 rfl
  have hpz : f64At (encodeRecord r) (0 + 24) = r.pz := f64At_putF64 rfl
  have hvx : f32At (encodeRecord r) (0 + 32) = r.vx := f32At_putF32 rfl
  have hvy : f32At (encodeRecord r) (0 + 36) = r.vy := f32At_putF32 rfl
  have hvz : f32At (encodeRecord r) (0 + 40) = r.vz := f32At_putF32 rfl
  have hi : f32At (encodeRecord r) (0 + 44) = r.intensity := f32At_putF32 rfl
  have htype : byteAt (encodeRecord r) (0 + 4) = r.type := rfl
  have hflags : byteAt (encodeRecord r) (0 + 5) = r.flags := rfl
  have hconf : byteAt (encodeRecord r) (0 + 6) = clampConfidence r.confidence := rfl
  rw [recordAt, hid, hpx, hpy, hpz, hvx, hvy, hvz, hi, htype, hflags, hconf, ObjectRecord.capped,
    clampConfidence]
  grind

theorem recordAt_slice (d : List Byte) (p : Nat) : recordAt (slice d p 48) 0 = recordAt d p := by
  simp (disch := omega) only [recordAt, f64At, f32At, Wire.leAt_slice, byteAt_slice, Nat.zero_add,
    Nat.add_zero]

/-! ## Packets -/

/-- What decoding makes of an encoded packet. -/
def StatePacket.capped (p : StatePacket) : StatePacket :=
  { p with
    objectTotal := if p.objectTotal > 5000 then 5000 else p.objectTotal
    objects := (p.objects.take 128).map ObjectRecord.capped }

/-- How many records `encode` writes. -/
def StatePacket.sent (p : StatePacket) : Nat := min p.objects.length 128

/-- What the checksum covers. -/
def body (p : StatePacket) : List Byte :=
  encodeHeader p p.sent ++ (p.objects.take 128).flatMap encodeRecord

theorem encode_eq (p : StatePacket) : encode p = body p ++ putU32 (crc32 (body p)) := by
  have hcount : (if p.objects.length > kMaxObjectsPerPacket.toNat
      then kMaxObjectsPerPacket.toNat else p.objects.length) = p.sent := by
    rw [StatePacket.sent, show kMaxObjectsPerPacket.toNat = 128 from rfl]
    split <;> omega
  have htake : p.objects.take p.sent = p.objects.take 128 := by
    rw [List.take_eq_take_iff, StatePacket.sent]
    omega
  simp only [encode, hcount, htake, body]

theorem length_body (p : StatePacket) : (body p).length = 56 + 48 * p.sent := by
  rw [body, List.length_append, length_encodeHeader, Wire.length_chunks length_encodeRecord,
    List.length_take, StatePacket.sent, Nat.min_comm]

theorem length_encode (p : StatePacket) : (encode p).length = 56 + 48 * p.sent + 4 := by
  rw [encode_eq, List.length_append, length_body]
  rfl

theorem slice_encode_header (p : StatePacket) {off n : Nat} (h : off + n ≤ 56) :
    slice (encode p) off n = slice (encodeHeader p p.sent) off n := by
  rw [encode_eq, Wire.slice_append_left (by rw [length_body]; omega), body,
    Wire.slice_append_left (by rwa [length_encodeHeader])]

theorem slice_encode_record (p : StatePacket) {i : Nat} (h : i < (p.objects.take 128).length) :
    slice (encode p) (56 + i * 48) 48 = encodeRecord (p.objects.take 128)[i] := by
  have hoff : 56 + i * 48 = (encodeHeader p p.sent).length + 48 * i := by
    rw [length_encodeHeader, Nat.mul_comm]
  rw [encode_eq, body, List.append_assoc, hoff, Wire.slice_append_right,
    Wire.slice_chunks length_encodeRecord _ _ h]

theorem byteAt_encode_header (p : StatePacket) {i : Nat} (h : i < 56) :
    byteAt (encode p) i = byteAt (encodeHeader p p.sent) i := by
  have hs : slice (encode p) i 1 = slice (encodeHeader p p.sent) i 1 :=
    slice_encode_header p (by omega)
  rw [← Nat.add_zero i, ← byteAt_slice (m := 1) (by decide), hs, byteAt_slice (by decide)]

theorem countAt_encode (p : StatePacket) : (leAt 16 (encode p) 52).toNat = p.sent := by
  have hle : p.sent ≤ 128 := Nat.min_le_right _ _
  have hs : slice (encode p) 52 2 = putU16 (BitVec.ofNat 16 p.sent) :=
    slice_encode_header p (by decide)
  rw [leAt_putU16 hs, BitVec.toNat_ofNat, Nat.mod_eq_of_lt (by omega)]

theorem headerAt_encode (p : StatePacket) :
    headerAt (encode p) = { p.capped with objects := [] } := by
  have hsequence : leAt 32 (encode p) 8 = p.sequence := leAt_putU32 (slice_encode_header p (by decide))
  have hsatId : leAt 32 (encode p) 12 = p.satId := leAt_putU32 (slice_encode_header p (by decide))
  have hpx : f64At (encode p) 16 = p.satPx := f64At_putF64 (slice_encode_header p (by decide))
  have hpy : f64At (encode p) 24 = p.satPy := f64At_putF64 (slice_encode_header p (by decide))
  have hpz : f64At (encode p) 32 = p.satPz := f64At_putF64 (slice_encode_header p (by decide))
  have hvx : f32At (encode p) 40 = p.satVx := f32At_putF32 (slice_encode_header p (by decide))
  have hvy : f32At (encode p) 44 = p.satVy := f32At_putF32 (slice_encode_header p (by decide))
  have hvz : f32At (encode p) 48 = p.satVz := f32At_putF32 (slice_encode_header p (by decide))
  have htotal : leAt 16 (encode p) 54 =
      if p.objectTotal > kMaxTrackedObjects then kMaxTrackedObjects else p.objectTotal :=
    leAt_putU16 (slice_encode_header p (by decide))
  rw [headerAt, hsequence, hsatId, hpx, hpy, hpz, hvx, hvy, hvz, htotal]
  rfl

theorem packetAt_encode (p : StatePacket) : packetAt (encode p) = p.capped := by
  have hobjects : ((List.range (countAt (encode p)).toNat).map fun i =>
      recordAt (encode p) (56 + i * 48)) = (p.objects.take 128).map ObjectRecord.capped := by
    rw [countAt, countAt_encode]
    apply List.ext_getElem
    · simp [StatePacket.sent, Nat.min_comm]
    · intro i _ h
      have hi : i < (p.objects.take 128).length := by simpa using h
      rw [List.getElem_map, List.getElem_range, List.getElem_map, ← recordAt_slice,
        slice_encode_record p hi, recordAt_encodeRecord]
  rw [packetAt, headerAt_encode, hobjects]
  rfl

theorem sound_capped {p : StatePacket} (h : SoundPacket p) : SoundPacket p.capped where
  header := ⟨h.header.px, h.header.py, h.header.pz, h.header.vx, h.header.vy, h.header.vz⟩
  records := by
    rintro _ hr
    obtain ⟨r, hr', rfl⟩ := List.mem_map.mp hr
    obtain ⟨px, py, pz, vx, vy, vz, hi⟩ := h.records r (List.mem_of_mem_take hr')
    exact ⟨px, py, pz, vx, vy, vz, hi⟩

theorem documented_encode {p : StatePacket} (hs : SoundPacket p)
    (hc : min p.objects.length 128 ≤ min p.objectTotal.toNat 5000) : Documented (encode p) := by
  have hsent : p.sent ≤ 128 := Nat.min_le_right _ _
  have hlen := length_encode p
  have htotal : leAt 16 (encode p) 54 = p.capped.objectTotal :=
    congrArg StatePacket.objectTotal (headerAt_encode p)
  have hcap : p.capped.objectTotal.toNat = min p.objectTotal.toNat 5000 := by
    simp only [StatePacket.capped, gt_iff_lt, BitVec.lt_def]
    split <;> simp at * <;> omega
  have hbody : (encode p).take ((encode p).length - 4) = body p := by
    rw [hlen, Nat.add_sub_cancel, ← length_body, encode_eq, List.take_left]
  refine ⟨by omega, by omega, slice_encode_header p (by decide),
    (byteAt_encode_header p (by decide)).trans rfl, (byteAt_encode_header p (by decide)).trans rfl,
    ?_, ?_, ?_, ?_, ?_, ?_⟩
  · rwa [countAt_encode]
  · rw [htotal, hcap]
    exact Nat.min_le_right _ _
  · rwa [countAt_encode, htotal, hcap]
  · rw [countAt_encode, hlen]
  · rw [hbody]
    apply leAt_putU32
    rw [hlen, Nat.add_sub_cancel, ← length_body, encode_eq, ← Nat.add_zero (body p).length,
      Wire.slice_append_right]
    rfl
  · rw [packetAt_encode]
    exact sound_capped hs

theorem decode_encode {p : StatePacket} (hs : SoundPacket p)
    (hc : min p.objects.length 128 ≤ min p.objectTotal.toNat 5000) (out : StatePacket) :
    decode (encode p) out = some (.kNone, p.capped) := by
  have hv : verdict (encode p) = .kNone := (verdict_iff _).mpr (documented_encode hs hc)
  rw [decode_eq, hv, if_pos rfl, packetAt_encode]

/-! ## Decoded packets -/

theorem decode_accepts {d : List Byte} {out pkt : StatePacket}
    (h : decode d out = some (.kNone, pkt)) : Documented d ∧ packetAt d = pkt := by
  rw [decode_eq, Option.some.injEq, Prod.mk.injEq] at h
  obtain ⟨hv, hp⟩ := h
  rw [if_pos hv] at hp
  exact ⟨(verdict_iff d).mp hv, hp⟩

theorem packetAt_capped {d : List Byte} (h : Documented d) : (packetAt d).capped = packetAt d := by
  have htotal : ¬ (packetAt d).objectTotal > 5000 := BitVec.not_lt.mpr h.total_le
  have hrecord (r : ObjectRecord) (hr : r ∈ (packetAt d).objects) : r.capped = r := by
    obtain ⟨i, _, rfl⟩ := List.mem_map.mp hr
    simp only [ObjectRecord.capped, recordAt]
    grind
  have hlen : (packetAt d).objects.length ≤ 128 := by
    simpa [packetAt, countAt] using h.count_le
  rw [StatePacket.capped, if_neg htotal, List.take_of_length_le hlen,
    List.map_congr_left hrecord, List.map_id']

theorem length_packetAt {d : List Byte} : (packetAt d).objects.length = (countAt d).toNat := by
  simp [packetAt]

theorem count_packetAt {d : List Byte} (h : Documented d) :
    min (packetAt d).objects.length 128 ≤ min (packetAt d).objectTotal.toNat 5000 := by
  have h1 := h.count_le_total
  have h2 := h.total_le
  have h3 : (packetAt d).objectTotal = leAt 16 d 54 := rfl
  rw [length_packetAt, h3, countAt]
  omega

/-- The record bytes decoding looks at, and the reserved one. -/
structure CanonicalRecord (d : List Byte) (p : Nat) : Prop where
  type : byteAt d (p + 4) ≤ 5
  confidence : byteAt d (p + 6) ≤ 100
  reserved : byteAt d (p + 7) = 0

/-- Datagrams `encode` can have written. -/
structure Canonical (d : List Byte) : Prop where
  flags : leAt 16 d 6 = 0
  records : ∀ i < (leAt 16 d 52).toNat, CanonicalRecord d (56 + i * 48)

theorem encodeRecord_recordAt {d : List Byte} {p : Nat} (h : p + 48 ≤ d.length) :
    encodeRecord (recordAt d p) = slice d p 48 ↔ CanonicalRecord d p := by
  have hsplit : slice d p 48 = slice d p 4 ++ ([byteAt d (p + 4), byteAt d (p + 5),
      byteAt d (p + 6), byteAt d (p + 7)] ++ slice d (p + 8) 40) := by
    rw [Wire.slice_split d p 4 44, Wire.slice_split d (p + 4) 4 40,
      slice_bytes (p := p + 4) (n := 4) (by omega)]
    rfl
  have htail : slice d (p + 8) 40 = putF64 (recordAt d p).px ++ (putF64 (recordAt d p).py ++
      (putF64 (recordAt d p).pz ++ (putF32 (recordAt d p).vx ++ (putF32 (recordAt d p).vy ++
      (putF32 (recordAt d p).vz ++ putF32 (recordAt d p).intensity))))) := by
    simp (disch := omega) only [recordAt, putF64_f64At, putF32_f32At]
    rw [Wire.slice_split d (p + 8) 8 32, Wire.slice_split d (p + 16) 8 24,
      Wire.slice_split d (p + 24) 8 16, Wire.slice_split d (p + 32) 4 12,
      Wire.slice_split d (p + 36) 4 8, Wire.slice_split d (p + 40) 4 4]
  have hid : putU32 (recordAt d p).id = slice d p 4 := putU32_leAt (by omega)
  rw [hsplit, encodeRecord, ← htail, hid, List.append_cancel_left_eq, List.append_cancel_right_eq]
  simp only [recordAt, clampConfidence, List.cons.injEq, and_true]
  constructor
  · rintro ⟨h4, _, h6, h7⟩
    exact ⟨by grind, by grind, h7.symm⟩
  · rintro ⟨h4, h6, h7⟩
    exact ⟨by grind, trivial, by grind, h7.symm⟩

theorem encodeHeader_packetAt {d : List Byte} (h : Documented d) :
    encodeHeader (packetAt d) (packetAt d).sent =
      slice d 0 6 ++ (putU16 0 ++ slice d 8 48) := by
  have hlen := h.length_ge
  have hsent : BitVec.ofNat 16 (packetAt d).sent = leAt 16 d 52 := by
    rw [StatePacket.sent, length_packetAt, countAt, Nat.min_eq_left h.count_le, BitVec.ofNat_toNat,
      BitVec.setWidth_eq]
  have htotal : putU16 (if (packetAt d).objectTotal > kMaxTrackedObjects then kMaxTrackedObjects
      else (packetAt d).objectTotal) = slice d 54 2 := by
    rw [if_neg (BitVec.not_lt.mpr h.total_le)]
    exact putU16_leAt (by omega)
  have hhead : slice d 0 6 = kMagic ++ [kVersion, kStateUpdate] := by
    rw [Wire.slice_split d 0 4 2, h.magic, slice_bytes (p := 0 + 4) (n := 2) (by omega),
      show (List.range 2).map (fun i => byteAt d (0 + 4 + i)) = [byteAt d 4, byteAt d 5] from rfl,
      h.version, h.msgType]
    rfl
  have htail : slice d 8 48 = slice d 8 4 ++ (slice d 12 4 ++ (slice d 16 8 ++ (slice d 24 8 ++
      (slice d 32 8 ++ (slice d 40 4 ++ (slice d 44 4 ++ (slice d 48 4 ++ (slice d 52 2 ++
      slice d 54 2)))))))) := by
    rw [Wire.slice_split d 8 4 44, Wire.slice_split d 12 4 40, Wire.slice_split d 16 8 32,
      Wire.slice_split d 24 8 24, Wire.slice_split d 32 8 16, Wire.slice_split d 40 4 12,
      Wire.slice_split d 44 4 8, Wire.slice_split d 48 4 4, Wire.slice_split d 52 2 2]
  rw [encodeHeader, hsent, htotal, hhead, htail, List.append_assoc]
  simp (disch := omega) only [packetAt, headerAt, putU32_leAt, putF64_f64At, putF32_f32At,
    putU16_leAt]

theorem body_packetAt {d : List Byte} (h : Documented d) :
    body (packetAt d) = d.take (d.length - 4) ↔ Canonical d := by
  have hlen := h.length_eq
  have hrecords : (packetAt d).objects.take 128 = (packetAt d).objects :=
    List.take_of_length_le (by rw [length_packetAt]; exact h.count_le)
  have hwritten : (packetAt d).objects.flatMap encodeRecord = (List.range (countAt d).toNat).flatMap
      fun i => encodeRecord (recordAt d (56 + i * 48)) := by
    rw [packetAt, List.flatMap_map]
  have hbody : d.take (d.length - 4) = slice d 0 6 ++ (slice d 6 2 ++ (slice d 8 48 ++
      (List.range (countAt d).toNat).flatMap fun i => slice d (56 + i * 48) 48)) := by
    have hwhole : d.take (d.length - 4) = slice d 0 (6 + (2 + (48 + 48 * (countAt d).toNat))) := by
      rw [slice, List.drop_zero, countAt]
      congr 1
      omega
    rw [hwhole, Wire.slice_split, Wire.slice_split, Wire.slice_split, Wire.chunks_slice]
  have hflags : putU16 0 = slice d 6 2 ↔ leAt 16 d 6 = 0 :=
    ⟨fun he => leAt_putU16 he.symm, fun he => by rw [← he, putU16_leAt (by omega)]⟩
  have hslices : ∀ i ∈ List.range (countAt d).toNat,
      (encodeRecord (recordAt d (56 + i * 48))).length = (slice d (56 + i * 48) 48).length := by
    intro i hi
    have hi' : i < (leAt 16 d 52).toNat := List.mem_range.mp hi
    rw [length_encodeRecord, Wire.length_slice (by omega)]
  rw [body, encodeHeader_packetAt h, hrecords, hwritten, hbody, List.append_assoc, List.append_assoc,
    List.append_cancel_left_eq, Wire.append_eq_iff (by rw [Wire.length_slice (by omega)]; rfl),
    List.append_cancel_left_eq, Wire.chunks_eq_iff hslices, hflags]
  have hiff (i : Nat) (hi : i < (leAt 16 d 52).toNat) :=
    encodeRecord_recordAt (d := d) (p := 56 + i * 48) (by omega)
  constructor
  · rintro ⟨hf, hr⟩
    exact ⟨hf, fun i hi => (hiff i hi).mp (hr i (List.mem_range.mpr hi))⟩
  · rintro ⟨hf, hr⟩
    refine ⟨hf, fun i hi => ?_⟩
    have hi' := List.mem_range.mp hi
    exact (hiff i hi').mpr (hr i hi')

theorem encode_packetAt_iff {d : List Byte} (h : Documented d) :
    encode (packetAt d) = d ↔ Canonical d := by
  have hlen := h.length_ge
  have hcrc : putU32 (crc32 (d.take (d.length - 4))) = slice d (d.length - 4) 4 := by
    rw [← h.crc, putU32_leAt (by omega)]
  have hsplit := Wire.take_append_last (d := d) (n := 4) (by omega)
  have hlast : (slice d (d.length - 4) 4).length = 4 := Wire.length_slice (by omega)
  rw [← body_packetAt h, encode_eq]
  constructor
  · intro he
    exact (List.append_inj' (he.trans hsplit.symm) hlast.symm).1
  · intro he
    rw [he, hcrc, hsplit]

/-- **Round trip.** A sound packet that is encoded decodes to itself, capped;
and a decoded packet encodes to a datagram that decodes to the same packet,
and to the very same bytes exactly when the ones decoding ignores were zero. -/
theorem encode_roundTrip :
    (∀ p out, SoundPacket p → min p.objects.length 128 ≤ min p.objectTotal.toNat 5000 →
      decode (encode p) out = some (.kNone, p.capped)) ∧
    (∀ d out pkt, decode d out = some (.kNone, pkt) →
      (∀ out', decode (encode pkt) out' = some (.kNone, pkt)) ∧
      (encode pkt = d ↔ Canonical d)) := by
  refine ⟨fun p out hs hc => decode_encode hs hc out, fun d out pkt h => ?_⟩
  obtain ⟨hd, rfl⟩ := decode_accepts h
  refine ⟨fun out' => ?_, encode_packetAt_iff hd⟩
  rw [decode_encode hd.sound (count_packetAt hd), packetAt_capped hd]

/-- One record with a type and a confidence that decoding caps. -/
def samplePacket : StatePacket :=
  { sequence := 7, satId := 1, objectTotal := 1,
    objects := [{ id := 9, type := 7, flags := 3, confidence := 200 }] }

theorem samplePacket_sound : SoundPacket samplePacket where
  header := by constructor <;> decide +kernel
  records := by
    intro r hr
    rw [List.mem_singleton.mp hr]
    constructor <;> decide +kernel

/-- The bytes of the sample are not canonical: its type is not. -/
theorem encode_roundTrip_sample :
    decode (encode samplePacket) {} = some (.kNone, samplePacket.capped) ∧
    (encode samplePacket.capped = encode samplePacket ↔ Canonical (encode samplePacket)) :=
  have h := encode_roundTrip.1 samplePacket {} samplePacket_sound (by decide)
  ⟨h, (encode_roundTrip.2 (encode samplePacket) {} _ h).2⟩

end Olv.Proto
