import OrbitalViewer.ProtocolFields

/-!
# What OLV1 decode accepts

`decode_eq` runs `decode` on any datagram: every read it makes is inside the
datagram, its answer is `verdict`, and the caller's packet changes only when
that is `kNone`. `verdict_iff` says when it is, in the words of
docs/PROTOCOL_UDP.md.
-/

namespace Olv.Proto
open Wire (Byte slice leAt)
open Ieee (F32 F64 Datum)

/-! ## The run of decode -/

/-- The header fields at their documented offsets. -/
def headerAt (d : List Byte) : StatePacket where
  sequence := leAt 32 d 8
  satId := leAt 32 d 12
  satPx := f64At d 16
  satPy := f64At d 24
  satPz := f64At d 32
  satVx := f32At d 40
  satVy := f32At d 44
  satVz := f32At d 48
  objectTotal := leAt 16 d 54

/-- The record whose first byte is `p`: a type above 5 reads as 0, a confidence
above 100 as 100. -/
def recordAt (d : List Byte) (p : Nat) : ObjectRecord where
  id := leAt 32 d p
  type := if byteAt d (p + 4) ≤ 5 then byteAt d (p + 4) else 0
  flags := byteAt d (p + 5)
  confidence := if byteAt d (p + 6) > 100 then 100 else byteAt d (p + 6)
  px := f64At d (p + 8)
  py := f64At d (p + 16)
  pz := f64At d (p + 24)
  vx := f32At d (p + 32)
  vy := f32At d (p + 36)
  vz := f32At d (p + 40)
  intensity := f32At d (p + 44)

def countAt (d : List Byte) : U16 := leAt 16 d 52

/-- The whole packet, `object_count` records in wire order. -/
def packetAt (d : List Byte) : StatePacket :=
  { headerAt d with objects := (List.range (countAt d).toNat).map fun i => recordAt d (56 + i * 48) }

theorem readHeader_eq {d : List Byte} (h : 56 ≤ d.length) :
    readHeader d (leAt 16 d 54) = some (headerAt d) := by
  simp (disch := omega) only [readHeader, getU32_eq, getF64_eq, getF32_eq]
  rfl

theorem readRecord_eq {d : List Byte} {p : Nat} (h : p + 48 ≤ d.length) :
    readRecord d p = some (recordAt d p) := by
  simp (disch := omega) only [readRecord, getU32_eq, getF64_eq, getF32_eq, byte_read]
  simp [recordAt, normalizeObjectType, isKnownObjectType, clampConfidence, ObjectType.value]

/-- The verdict on a datagram, item by item in the order of the code. -/
def verdict (d : List Byte) : DecodeError :=
  if d.length < 60 then .kTooShort
  else if d.length > 6204 then .kTooLong
  else if slice d 0 4 ≠ kMagic then .kBadMagic
  else if byteAt d 4 ≠ 1 then .kBadVersion
  else if byteAt d 5 ≠ 1 then .kBadMsgType
  else if countAt d > 128 ∨ leAt 16 d 54 > 5000 ∨ countAt d > leAt 16 d 54 then .kTooManyObjects
  else if d.length ≠ 56 + (countAt d).toNat * 48 + 4 then .kBadLength
  else if crc32 (slice d 0 (d.length - 4)) ≠ leAt 32 d (d.length - 4) then .kBadCrc
  else match headerError (headerAt d) with
    | some e => e
    | none => ((packetAt d).objects.findSome? recordError).getD .kNone

/-! ## Checked values -/

structure SoundHeader (p : StatePacket) : Prop where
  px : Coordinate p.satPx
  py : Coordinate p.satPy
  pz : Coordinate p.satPz
  vx : p.satVx.datum.isFinite = true
  vy : p.satVy.datum.isFinite = true
  vz : p.satVz.datum.isFinite = true

structure SoundRecord (r : ObjectRecord) : Prop where
  px : Coordinate r.px
  py : Coordinate r.py
  pz : Coordinate r.pz
  vx : r.vx.datum.isFinite = true
  vy : r.vy.datum.isFinite = true
  vz : r.vz.datum.isFinite = true
  intensity : r.intensity.datum.isFinite = true

/-- Every float finite and every position in range. -/
structure SoundPacket (p : StatePacket) : Prop where
  header : SoundHeader p
  records : ∀ r ∈ p.objects, SoundRecord r

theorem headerError_none_iff (p : StatePacket) : headerError p = none ↔ SoundHeader p := by
  have hs : SoundHeader p ↔ (Coordinate p.satPx ∧ Coordinate p.satPy ∧ Coordinate p.satPz) ∧
      p.satVx.datum.isFinite = true ∧ p.satVy.datum.isFinite = true ∧
      p.satVz.datum.isFinite = true :=
    ⟨fun ⟨a, b, c, d, e, f⟩ => ⟨⟨a, b, c⟩, d, e, f⟩, fun ⟨⟨a, b, c⟩, d, e, f⟩ => ⟨a, b, c, d, e, f⟩⟩
  simp only [hs, coordinate_iff, headerError, finiteAll, inCoordRange, List.all_cons, List.all_nil,
    Bool.not_eq_true', Bool.and_true]
  grind

theorem recordError_none_iff (r : ObjectRecord) : recordError r = none ↔ SoundRecord r := by
  have hs : SoundRecord r ↔ (Coordinate r.px ∧ Coordinate r.py ∧ Coordinate r.pz) ∧
      r.vx.datum.isFinite = true ∧ r.vy.datum.isFinite = true ∧
      r.vz.datum.isFinite = true ∧ r.intensity.datum.isFinite = true :=
    ⟨fun ⟨a, b, c, d, e, f, g⟩ => ⟨⟨a, b, c⟩, d, e, f, g⟩,
      fun ⟨⟨a, b, c⟩, d, e, f, g⟩ => ⟨a, b, c, d, e, f, g⟩⟩
  simp only [hs, coordinate_iff, recordError, finiteAll, inCoordRange, List.all_cons, List.all_nil,
    Bool.not_eq_true', Bool.and_true]
  grind

instance (r : ObjectRecord) : Decidable (SoundRecord r) := decidable_of_iff _ (recordError_none_iff r)

/-- The complaint about a packet is never that there is none. -/
theorem headerError_ne {p : StatePacket} {e : DecodeError} (h : headerError p = some e) :
    e ≠ .kNone := by
  unfold headerError at h
  split at h
  · cases h; decide
  · split at h
    · cases h; decide
    · cases h

theorem recordError_ne {r : ObjectRecord} {e : DecodeError} (h : recordError r = some e) :
    e ≠ .kNone := by
  unfold recordError at h
  split at h
  · cases h; decide
  · split at h
    · cases h; decide
    · cases h

/-- **decode on any datagram.** It never reads past the end, and it touches the
caller's packet only when it accepts. -/
theorem decode_eq (d : List Byte) (out : StatePacket) :
    decode d out = some (verdict d, if verdict d = .kNone then packetAt d else out) := by
  unfold decode verdict
  refine check_eq (c := d.length < 60) (by decide) fun h1 => ?_
  refine check_eq (c := d.length > 6204) (by decide) fun _ => ?_
  have hmagic : Wire.read d 0 4 = some (slice d 0 4) := Wire.read_eq (by omega)
  have hversion : d[4]? = some (byteAt d 4) := byte_read (by omega)
  have htype : d[5]? = some (byteAt d 5) := byte_read (by omega)
  have hcount : getU16 d 52 = some (countAt d) := getU16_eq (by omega)
  have htotal : getU16 d 54 = some (leAt 16 d 54) := getU16_eq (by omega)
  have hcrc : getU32 d (d.length - 4) = some (leAt 32 d (d.length - 4)) := getU32_eq (by omega)
  have hbody : Wire.read d 0 (d.length - 4) = some (slice d 0 (d.length - 4)) :=
    Wire.read_eq (by omega)
  have hheader : readHeader d (leAt 16 d 54) = some (headerAt d) := readHeader_eq (by omega)
  simp only [kHeaderSize, kCrcSize, kRecordSize, kMaxObjectsPerPacket, kMaxTrackedObjects,
    kVersion, kStateUpdate, hmagic, hversion, htype, hcount, htotal, hcrc, hbody, hheader,
    Option.bind_eq_bind, Option.bind_some]
  refine check_eq (by decide) fun _ => check_eq (by decide) fun _ => check_eq (by decide) fun _ =>
    check_eq (by decide) fun _ => check_eq (by decide) fun h7 => check_eq (by decide) fun _ => ?_
  cases hh : headerError (headerAt d) with
  | some e => simp only [headerError_ne hh, if_false]
  | none =>
    -- The length check is what keeps every record of the loop inside the datagram.
    have hloop := Wire.collect_eq (r := fun i => readRecord d (56 + i * 48))
      (g := fun i => recordAt d (56 + i * 48)) recordError (countAt d).toNat 0 []
      (fun j _ hj => readRecord_eq (by omega))
    rw [hloop, Option.bind_some, ← List.range_eq_range', List.nil_append]
    have hobjects : (packetAt d).objects =
        (List.range (countAt d).toNat).map fun i => recordAt d (56 + i * 48) := rfl
    rw [hobjects]
    cases hr : ((List.range (countAt d).toNat).map fun i => recordAt d (56 + i * 48)).findSome?
        recordError with
    | none => rfl
    | some e =>
      obtain ⟨r, _, hre⟩ := List.exists_of_findSome?_eq_some hr
      simp only [Option.getD_some, recordError_ne hre, if_false]

/-- What `decode` returns; that it returns at all is `decode_eq`. -/
def decoded (d : List Byte) (out : StatePacket) : DecodeError × StatePacket :=
  (decode d out).get (decode_eq d out ▸ rfl)

theorem decoded_eq (d : List Byte) (out : StatePacket) :
    decoded d out = (verdict d, if verdict d = .kNone then packetAt d else out) :=
  Option.get_of_eq_some _ (decode_eq d out)

/-! ## The documented language -/

/-- docs/PROTOCOL_UDP.md, sections 3 and 4. -/
structure Documented (d : List Byte) : Prop where
  length_ge : 60 ≤ d.length
  length_le : d.length ≤ 6204
  magic : slice d 0 4 = [0x4F, 0x4C, 0x56, 0x31]
  version : byteAt d 4 = 1
  msgType : byteAt d 5 = 1
  count_le : (leAt 16 d 52).toNat ≤ 128
  total_le : (leAt 16 d 54).toNat ≤ 5000
  count_le_total : (leAt 16 d 52).toNat ≤ (leAt 16 d 54).toNat
  length_eq : d.length = 56 + 48 * (leAt 16 d 52).toNat + 4
  crc : leAt 32 d (d.length - 4) = crc32 (d.take (d.length - 4))
  sound : SoundPacket (packetAt d)

theorem body_sound_iff (d : List Byte) :
    (match headerError (headerAt d) with
      | some e => e
      | none => ((packetAt d).objects.findSome? recordError).getD .kNone) = DecodeError.kNone ↔
    SoundPacket (packetAt d) := by
  have hheader : SoundHeader (packetAt d) ↔ headerError (headerAt d) = none :=
    (headerError_none_iff (packetAt d)).symm
  cases hh : headerError (headerAt d) with
  | some e =>
    refine iff_of_false (headerError_ne hh) fun hs => ?_
    have := hheader.mp hs.header
    simp [hh] at this
  | none =>
    have hs : SoundPacket (packetAt d) ↔ ∀ r ∈ (packetAt d).objects, recordError r = none :=
      ⟨fun h r hr => (recordError_none_iff r).mpr (h.records r hr),
        fun h => ⟨hheader.mpr hh, fun r hr => (recordError_none_iff r).mp (h r hr)⟩⟩
    rw [hs, ← List.findSome?_eq_none_iff]
    cases hr : (packetAt d).objects.findSome? recordError with
    | none => simp
    | some e =>
      obtain ⟨r, _, hre⟩ := List.exists_of_findSome?_eq_some hr
      simpa using recordError_ne hre

theorem verdict_iff (d : List Byte) : verdict d = .kNone ↔ Documented d := by
  have htake : slice d 0 (d.length - 4) = d.take (d.length - 4) := by simp [slice]
  constructor
  · intro h
    unfold verdict at h
    split_ifs at h with h1 h2 h3 h4 h5 h6 h7 h8
    simp only [not_or, gt_iff_lt, BitVec.not_lt, ne_eq, not_not] at h3 h4 h5 h6 h7 h8
    rw [htake] at h8
    exact ⟨by omega, by omega, h3, h4, h5, h6.1, h6.2.1, h6.2.2,
      by rw [h7, Nat.mul_comm 48]; rfl, h8.symm, (body_sound_iff d).mp h⟩
  · rintro ⟨h1, h2, h3, h4, h5, h6, h6', h6'', h7, h8, h9⟩
    have hcount : ¬ (countAt d > 128 ∨ leAt 16 d 54 > 5000 ∨ countAt d > leAt 16 d 54) := by
      simp only [not_or, gt_iff_lt, BitVec.not_lt]
      exact ⟨h6, h6', h6''⟩
    have hlen : d.length = 56 + (countAt d).toNat * 48 + 4 := by
      rw [h7, Nat.mul_comm 48]
      rfl
    have hcrc : crc32 (slice d 0 (d.length - 4)) = leAt 32 d (d.length - 4) := by
      rw [htake, h8]
    have hmagic : slice d 0 4 = kMagic := h3
    unfold verdict
    rw [if_neg (by omega), if_neg (by omega), if_neg (not_not.mpr hmagic), if_neg (not_not.mpr h4),
      if_neg (not_not.mpr h5), if_neg hcount, if_neg (not_not.mpr hlen), if_neg (not_not.mpr hcrc)]
    exact (body_sound_iff d).mpr h9

/-- **decode accepts exactly the documented language**, reads nothing past the
end, and leaves the caller's packet alone when it rejects. -/
theorem decode_documented (d : List Byte) (out : StatePacket) :
    ∃ err pkt, decode d out = some (err, pkt) ∧ (err = .kNone ↔ Documented d) ∧
      (err = .kNone → pkt = packetAt d) ∧ (err ≠ .kNone → pkt = out) := by
  refine ⟨verdict d, _, decode_eq d out, verdict_iff d, fun h => ?_, fun h => ?_⟩
  · rw [if_pos h]
  · rw [if_neg h]

end Olv.Proto
