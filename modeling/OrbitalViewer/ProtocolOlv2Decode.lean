import OrbitalViewer.ProtocolFields
import OrbitalViewer.ProtocolOlv2

/-!
# What OLV2 decode accepts

As for OLV1: `decode_eq` runs `decode` on any datagram and `verdict_iff` says
which ones it accepts, in the words of docs/PROTOCOL_OLV2.md. The ordering loop
compares neighbours only; `timeError_none_iff` turns that into the strict order
of every pair of times.
-/

namespace Olv.Proto.Olv2
open Wire (Byte slice leAt)
open Ieee (F32 F64 Datum)

/-! ## The run of decode -/

/-- The header fields at their documented offsets: a type above 5 reads as 0, a
confidence above 100 as 100, and only HIGHLIGHT is kept of the flags. -/
def headerAt (d : List Byte) : TrackPacket where
  sequence := leAt 32 d 8
  trackId := leAt 32 d 12
  satId := leAt 32 d 16
  targetType := if byteAt d 20 ≤ 5 then byteAt d 20 else 0
  targetFlags := byteAt d 21 &&& 0x02
  confidence := if byteAt d 22 > 100 then 100 else byteAt d 22

/-- The point whose first byte is `p`. -/
def pointAt (d : List Byte) (p : Nat) : Point where
  t := f64At d p
  flags := byteAt d (p + 8) &&& 0x03
  satPx := f64At d (p + 12)
  satPy := f64At d (p + 20)
  satPz := f64At d (p + 28)
  tgtPx := f64At d (p + 36)
  tgtPy := f64At d (p + 44)
  tgtPz := f64At d (p + 52)
  satVx := f32At d (p + 60)
  satVy := f32At d (p + 64)
  satVz := f32At d (p + 68)
  tgtVx := f32At d (p + 72)
  tgtVy := f32At d (p + 76)
  tgtVz := f32At d (p + 80)

/-- The whole packet, `point_count` points in wire order. -/
def packetAt (d : List Byte) : TrackPacket :=
  { headerAt d with
    points := (List.range (byteAt d 23).toNat).map fun i => pointAt d (24 + i * 84) }

theorem readHeader_eq {d : List Byte} (h : 24 ≤ d.length) : readHeader d = some (headerAt d) := by
  simp (disch := omega) only [readHeader, getU32_eq, byte_read]
  simp [headerAt, normalizeObjectType, isKnownObjectType, clampConfidence, ObjectType.value,
    kFlagHighlight]

theorem readPoint_eq {d : List Byte} {p : Nat} (h : p + 84 ≤ d.length) :
    readPoint d p = some (pointAt d p) := by
  simp (disch := omega) only [readPoint, getF64_eq, getF32_eq, byte_read]
  rfl

/-- The verdict on a datagram, item by item in the order of the code. -/
def verdict (d : List Byte) : DecodeError :=
  if d.length < 112 then .kTooShort
  else if d.length > 2128 then .kTooLong
  else if slice d 0 4 ≠ kMagic then .kBadMagic
  else if byteAt d 4 ≠ 1 then .kBadVersion
  else if byteAt d 5 ≠ 1 then .kBadMsgType
  else if byteAt d 23 = 0 ∨ byteAt d 23 > 25 then .kBadPointCount
  else if d.length ≠ 24 + (byteAt d 23).toNat * 84 + 4 then .kBadLength
  else if crc32 (slice d 0 (d.length - 4)) ≠ leAt 32 d (d.length - 4) then .kBadCrc
  else match (packetAt d).points.findSome? pointError with
    | some e => e
    | none => (timeError none (packetAt d).points).getD .kNone

/-! ## Checked values -/

/-- The time of a point, exactly. -/
def Point.time (p : Point) : ℚ := p.t.datum.toRat

structure SoundPoint (p : Point) : Prop where
  t : p.t.datum.isFinite = true
  satPx : Coordinate p.satPx
  satPy : Coordinate p.satPy
  satPz : Coordinate p.satPz
  tgtPx : Coordinate p.tgtPx
  tgtPy : Coordinate p.tgtPy
  tgtPz : Coordinate p.tgtPz
  satVx : p.satVx.datum.isFinite = true
  satVy : p.satVy.datum.isFinite = true
  satVz : p.satVz.datum.isFinite = true
  tgtVx : p.tgtVx.datum.isFinite = true
  tgtVy : p.tgtVy.datum.isFinite = true
  tgtVz : p.tgtVz.datum.isFinite = true

/-- Every float finite, every position in range, times positive and strictly
ascending. -/
structure SoundPoints (ps : List Point) : Prop where
  sound : ∀ p ∈ ps, SoundPoint p
  positive : ∀ p ∈ ps, 0 < p.time
  ascending : ps.Pairwise fun p q => p.time < q.time

theorem pointError_none_iff (p : Point) : pointError p = none ↔ SoundPoint p := by
  have hs : SoundPoint p ↔ p.t.datum.isFinite = true ∧
      (Coordinate p.satPx ∧ Coordinate p.satPy ∧ Coordinate p.satPz) ∧
      (Coordinate p.tgtPx ∧ Coordinate p.tgtPy ∧ Coordinate p.tgtPz) ∧
      p.satVx.datum.isFinite = true ∧ p.satVy.datum.isFinite = true ∧
      p.satVz.datum.isFinite = true ∧ p.tgtVx.datum.isFinite = true ∧
      p.tgtVy.datum.isFinite = true ∧ p.tgtVz.datum.isFinite = true :=
    ⟨fun ⟨a, b, c, d, e, f, g, h, i, j, k, l, m⟩ => ⟨a, ⟨b, c, d⟩, ⟨e, f, g⟩, h, i, j, k, l, m⟩,
      fun ⟨a, ⟨b, c, d⟩, ⟨e, f, g⟩, h, i, j, k, l, m⟩ => ⟨a, b, c, d, e, f, g, h, i, j, k, l, m⟩⟩
  simp only [hs, coordinate_iff, pointError, finiteAll, inCoordRange, List.all_cons, List.all_nil,
    Bool.not_eq_true', Bool.and_true]
  grind

/-- The neighbours the loop compares are enough for every pair. -/
theorem timeError_none_iff (prev : Option F64) (ps : List Point)
    (hprev : ∀ q ∈ prev, q.datum.isFinite = true) (hps : ∀ p ∈ ps, p.t.datum.isFinite = true) :
    timeError prev ps = none ↔ (∀ p ∈ ps, 0 < p.time) ∧
      (∀ q ∈ prev, ∀ p ∈ ps, q.datum.toRat < p.time) ∧
      ps.Pairwise fun p q => p.time < q.time := by
  induction ps generalizing prev with
  | nil => simp [timeError]
  | cons p ps ih =>
    have hp := hps p List.mem_cons_self
    have hrest := ih (some p.t) (by simpa using hp)
      fun q hq => hps q (List.mem_cons_of_mem p hq)
    have hpos : p.t.datum.le (.fin false 0) = true ↔ p.time ≤ 0 := Datum.le_iff hp rfl
    have hafter : (prev.any fun q => p.t.datum.le q.datum) = true ↔
        ∃ q ∈ prev, p.time ≤ q.datum.toRat := by
      rw [Option.any_eq_true]
      exact exists_congr fun q => and_congr_right fun hq => Datum.le_iff hp (hprev q hq)
    rw [timeError, List.pairwise_cons]
    simp only [List.forall_mem_cons]
    by_cases h0 : p.time ≤ 0
    · rw [if_pos (hpos.mpr h0)]
      exact iff_of_false (by simp) fun h => absurd h.1.1 (not_lt.mpr h0)
    · rw [if_neg (mt hpos.mp h0)]
      by_cases h1 : ∃ q ∈ prev, p.time ≤ q.datum.toRat
      · rw [if_pos (hafter.mpr h1)]
        obtain ⟨q, hq, hle⟩ := h1
        exact iff_of_false (by simp) fun h => absurd (h.2.1 q hq).1 (not_lt.mpr hle)
      · rw [if_neg (mt hafter.mp h1), hrest]
        have hq (q : F64) (hq : q ∈ prev) : q.datum.toRat < p.time := by
          by_contra hle
          exact h1 ⟨q, hq, not_lt.mp hle⟩
        constructor
        · rintro ⟨hpos', hlt, hpw⟩
          have hlt' : ∀ r ∈ ps, p.time < r.time := hlt p.t rfl
          exact ⟨⟨not_le.mp h0, hpos'⟩,
            fun q hq' => ⟨hq q hq', fun r hr => (hq q hq').trans (hlt' r hr)⟩, hlt', hpw⟩
        · rintro ⟨⟨_, hpos'⟩, _, hlt, hpw⟩
          refine ⟨hpos', fun q hq' => ?_, hpw⟩
          cases hq'
          exact hlt

/-- The complaint about a packet is never that there is none. -/
theorem pointError_ne {p : Point} {e : DecodeError} (h : pointError p = some e) : e ≠ .kNone := by
  unfold pointError at h
  split at h
  · cases h; decide
  · split at h
    · cases h; decide
    · cases h

theorem timeError_ne {prev : Option F64} {ps : List Point} {e : DecodeError}
    (h : timeError prev ps = some e) : e ≠ .kNone := by
  induction ps generalizing prev with
  | nil => cases h
  | cons p ps ih =>
    rw [timeError] at h
    split at h
    · cases h; decide
    · split at h
      · cases h; decide
      · exact ih h

/-- **decode on any datagram.** It never reads past the end, and it touches the
caller's packet only when it accepts. -/
theorem decode_eq (d : List Byte) (out : TrackPacket) :
    decode d out = some (verdict d, if verdict d = .kNone then packetAt d else out) := by
  unfold decode verdict
  refine check_eq (c := d.length < 112) (by decide) fun h1 => ?_
  refine check_eq (c := d.length > 2128) (by decide) fun _ => ?_
  have hmagic : Wire.read d 0 4 = some (slice d 0 4) := Wire.read_eq (by omega)
  have hversion : d[4]? = some (byteAt d 4) := byte_read (by omega)
  have htype : d[5]? = some (byteAt d 5) := byte_read (by omega)
  have hcount : d[23]? = some (byteAt d 23) := byte_read (by omega)
  have hcrc : getU32 d (d.length - 4) = some (leAt 32 d (d.length - 4)) := getU32_eq (by omega)
  have hbody : Wire.read d 0 (d.length - 4) = some (slice d 0 (d.length - 4)) :=
    Wire.read_eq (by omega)
  have hheader : readHeader d = some (headerAt d) := readHeader_eq (by omega)
  simp only [kHeaderSize, kCrcSize, kPointSize, kMaxPoints, kVersion, kTrackUpdate, hmagic,
    hversion, htype, hcount, hcrc, hbody, hheader, Option.bind_eq_bind, Option.bind_some]
  refine check_eq (by decide) fun _ => check_eq (by decide) fun _ => check_eq (by decide) fun _ =>
    check_eq (by decide) fun _ => check_eq (by decide) fun h7 => check_eq (by decide) fun _ => ?_
  -- The length check is what keeps every point of the loop inside the datagram.
  have hloop := Wire.collect_eq (r := fun i => readPoint d (24 + i * 84))
    (g := fun i => pointAt d (24 + i * 84)) pointError (byteAt d 23).toNat 0 []
    (fun j _ hj => readPoint_eq (by omega))
  have hpoints : (packetAt d).points =
      (List.range (byteAt d 23).toNat).map fun i => pointAt d (24 + i * 84) := rfl
  rw [hloop, Option.bind_some, ← List.range_eq_range', List.nil_append, hpoints]
  cases hp : ((List.range (byteAt d 23).toNat).map fun i => pointAt d (24 + i * 84)).findSome?
      pointError with
  | some e =>
    obtain ⟨p, _, hpe⟩ := List.exists_of_findSome?_eq_some hp
    simp only [pointError_ne hpe, if_false]
  | none =>
    dsimp only
    cases ht : timeError none
        ((List.range (byteAt d 23).toNat).map fun i => pointAt d (24 + i * 84)) with
    | none => rfl
    | some e => simp only [Option.getD_some, timeError_ne ht, if_false]

/-- What `decode` returns; that it returns at all is `decode_eq`. -/
def decoded (d : List Byte) (out : TrackPacket) : DecodeError × TrackPacket :=
  (decode d out).get (decode_eq d out ▸ rfl)

theorem decoded_eq (d : List Byte) (out : TrackPacket) :
    decoded d out = (verdict d, if verdict d = .kNone then packetAt d else out) :=
  Option.get_of_eq_some _ (decode_eq d out)

/-! ## The documented language -/

/-- docs/PROTOCOL_OLV2.md, sections 3 and 4. -/
structure Documented (d : List Byte) : Prop where
  length_ge : 112 ≤ d.length
  length_le : d.length ≤ 2128
  magic : slice d 0 4 = [0x4F, 0x4C, 0x56, 0x32]
  version : byteAt d 4 = 1
  msgType : byteAt d 5 = 1
  count_ge : 1 ≤ (byteAt d 23).toNat
  count_le : (byteAt d 23).toNat ≤ 25
  length_eq : d.length = 24 + 84 * (byteAt d 23).toNat + 4
  crc : leAt 32 d (d.length - 4) = crc32 (d.take (d.length - 4))
  sound : SoundPoints (packetAt d).points

theorem length_packetAt {d : List Byte} : (packetAt d).points.length = (byteAt d 23).toNat := by
  simp [packetAt]

theorem points_packetAt_ne {d : List Byte} (h : Documented d) : (packetAt d).points ≠ [] := by
  have := h.count_ge
  rw [← length_packetAt] at this
  exact List.length_pos_iff.mp this

theorem points_sound_iff (ps : List Point) :
    (match ps.findSome? pointError with
      | some e => e
      | none => (timeError none ps).getD .kNone) = DecodeError.kNone ↔ SoundPoints ps := by
  have hsound : ps.findSome? pointError = none ↔ ∀ p ∈ ps, SoundPoint p := by
    rw [List.findSome?_eq_none_iff]
    exact forall₂_congr fun p _ => pointError_none_iff p
  cases hp : ps.findSome? pointError with
  | some e =>
    obtain ⟨p, _, hpe⟩ := List.exists_of_findSome?_eq_some hp
    refine iff_of_false (pointError_ne hpe) fun hs => ?_
    have := hsound.mpr hs.sound
    simp [hp] at this
  | none =>
    have hs := hsound.mp hp
    have htime := timeError_none_iff none ps (by simp) fun p h => (hs p h).t
    have hiff : SoundPoints ps ↔ timeError none ps = none := by
      rw [htime]
      exact ⟨fun h => ⟨h.positive, by simp, h.ascending⟩, fun ⟨h, _, h'⟩ => ⟨hs, h, h'⟩⟩
    rw [hiff]
    cases ht : timeError none ps with
    | none => simp
    | some e => simpa using timeError_ne ht

theorem verdict_iff (d : List Byte) : verdict d = .kNone ↔ Documented d := by
  have htake : slice d 0 (d.length - 4) = d.take (d.length - 4) := by simp [slice]
  have hcount : ¬ (byteAt d 23 = 0 ∨ byteAt d 23 > 25) ↔
      1 ≤ (byteAt d 23).toNat ∧ (byteAt d 23).toNat ≤ 25 := by
    rw [not_or, gt_iff_lt, BitVec.not_lt, BitVec.le_def, ← BitVec.toNat_inj,
      show BitVec.toNat (25 : U8) = 25 from rfl, show BitVec.toNat (0 : U8) = 0 from rfl]
    omega
  constructor
  · intro h
    unfold verdict at h
    split_ifs at h with h1 h2 h3 h4 h5 h6 h7 h8
    simp only [ne_eq, not_not] at h3 h4 h5 h7 h8
    rw [htake] at h8
    exact ⟨by omega, by omega, h3, h4, h5, (hcount.mp h6).1, (hcount.mp h6).2, by omega, h8.symm,
      (points_sound_iff _).mp h⟩
  · rintro ⟨h1, h2, h3, h4, h5, h6, h6', h7, h8, h9⟩
    have hmagic : slice d 0 4 = kMagic := h3
    have hlen : d.length = 24 + (byteAt d 23).toNat * 84 + 4 := by omega
    have hcrc : crc32 (slice d 0 (d.length - 4)) = leAt 32 d (d.length - 4) := by
      rw [htake, h8]
    unfold verdict
    rw [if_neg (by omega), if_neg (by omega), if_neg (not_not.mpr hmagic), if_neg (not_not.mpr h4),
      if_neg (not_not.mpr h5), if_neg (hcount.mpr ⟨h6, h6'⟩), if_neg (not_not.mpr hlen),
      if_neg (not_not.mpr hcrc)]
    exact (points_sound_iff _).mpr h9

/-- **decode accepts exactly the documented language**, reads nothing past the
end, and leaves the caller's packet alone when it rejects. -/
theorem track_decode_documented (d : List Byte) (out : TrackPacket) :
    ∃ err pkt, decode d out = some (err, pkt) ∧ (err = .kNone ↔ Documented d) ∧
      (err = .kNone → pkt = packetAt d) ∧ (err ≠ .kNone → pkt = out) := by
  refine ⟨verdict d, _, decode_eq d out, verdict_iff d, fun h => ?_, fun h => ?_⟩
  · rw [if_pos h]
  · rw [if_neg h]

end Olv.Proto.Olv2
