import OrbitalViewer.ProtocolRoundTrip
import OrbitalViewer.ProtocolOlv2Decode
import OrbitalViewer.Lib.Checklist

/-!
# The order of the drop reasons

The validation sections of docs/PROTOCOL_UDP.md and docs/PROTOCOL_OLV2.md as
checklists. OLV2 checks its points one by one, and decode gives the reason of the
first item that a datagram violates. OLV1 is to check every field for finiteness
before it checks any position, but decode goes record by record
(`drop_reason_order`).
-/

namespace Olv.Proto
open Wire (Byte slice leAt)
open Ieee (F32 F64 Datum)
open Checklist (First Clear Decides Masked rowwise swept)

/-! ## Checked values -/

/-- |value| > 1e13 m. -/
def Beyond (x : F64) : Prop :=
  match x.datum with
  | .nan _ => False
  | .inf _ => True
  | .fin neg mag => 10 ^ 13 < |(Datum.fin neg mag).toRat|

/-- The floats of the header, of a record or of a point, and the positions among
them. -/
structure Block where
  floats : List Datum
  positions : List F64
  checked : ∀ x ∈ positions, x.datum ∈ floats

namespace Block

def NonFinite (b : Block) : Prop := ∃ x ∈ b.floats, x.isFinite = false

def OutOfRange (b : Block) : Prop := ∃ x ∈ b.positions, Beyond x

/-- Finiteness first, then the range. -/
def error {ε : Type} (nonFinite outOfRange : ε) (b : Block) : Option ε :=
  if !finiteAll b.floats then some nonFinite
  else if !b.positions.all fun x => x.datum.abs.le kMaxCoordinateMeters then some outOfRange
  else none

theorem beyond_iff {x : F64} (h : x.datum.isFinite = true) :
    Beyond x ↔ x.datum.abs.le kMaxCoordinateMeters = false := by
  have hp := x.datum_proper
  rw [Beyond]
  cases hx : x.datum with
  | nan _ => simp [hx, Datum.isFinite] at h
  | inf _ => simp [hx, Datum.isFinite] at h
  | fin neg mag =>
    rw [hx] at hp
    dsimp only
    rw [Datum.abs_toRat hp]
    simp [Datum.abs, Datum.le, Datum.toRat, kMaxCoordinateMeters]

theorem error_decides {ε : Type} (nonFinite outOfRange : ε) (b : Block) :
    Decides [(b.NonFinite, nonFinite), (b.OutOfRange, outOfRange)]
      (b.error nonFinite outOfRange) := by
  have hnon : (!finiteAll b.floats) = true ↔ b.NonFinite := by
    simp [finiteAll, NonFinite]
  by_cases hfinite : b.NonFinite
  · have herror : b.error nonFinite outOfRange = some nonFinite := if_pos (hnon.mpr hfinite)
    rw [herror]
    refine ⟨fun e he => ?_, by simp⟩
    exact Checklist.first_cons.mpr (.inl ⟨hfinite, Option.some.inj he⟩)
  · have hall : ∀ x ∈ b.positions, x.datum.isFinite = true := fun x hx => by
      by_contra hx'
      exact hfinite ⟨x.datum, b.checked x hx, by simpa using hx'⟩
    have hrange : (!b.positions.all fun x => x.datum.abs.le kMaxCoordinateMeters) = true ↔
        b.OutOfRange := by
      simp only [Bool.not_eq_true', List.all_eq_false, OutOfRange, Bool.not_eq_true]
      exact exists_congr fun x => and_congr_right fun hx => (beyond_iff (hall x hx)).symm
    by_cases hout : b.OutOfRange
    · have herror : b.error nonFinite outOfRange = some outOfRange :=
        (if_neg (mt hnon.mp hfinite)).trans (if_pos (hrange.mpr hout))
      rw [herror]
      refine ⟨fun e he => ?_, by simp⟩
      apply Checklist.first_cons.mpr
      exact .inr ⟨hfinite, Checklist.first_cons.mpr (.inl ⟨hout, Option.some.inj he⟩)⟩
    · have herror : b.error nonFinite outOfRange = none :=
        (if_neg (mt hnon.mp hfinite)).trans (if_neg (mt hrange.mp hout))
      rw [herror]
      exact ⟨by simp, fun _ => by simp [Clear, hfinite, hout]⟩

/-- The blocks one by one. -/
theorem errors_decide {ε : Type} (nonFinite outOfRange : ε) (bs : List Block) :
    Decides (rowwise NonFinite OutOfRange nonFinite outOfRange bs)
      (bs.findSome? (error nonFinite outOfRange)) :=
  Decides.flatMap bs fun b _ => error_decides nonFinite outOfRange b

end Block

/-! ## OLV1 -/

def headerBlock (p : StatePacket) : Block where
  floats := [p.satPx.datum, p.satPy.datum, p.satPz.datum,
    p.satVx.datum, p.satVy.datum, p.satVz.datum]
  positions := [p.satPx, p.satPy, p.satPz]
  checked := by simp

def recordBlock (r : ObjectRecord) : Block where
  floats := [r.px.datum, r.py.datum, r.pz.datum,
    r.vx.datum, r.vy.datum, r.vz.datum, r.intensity.datum]
  positions := [r.px, r.py, r.pz]
  checked := by simp

/-- The satellite, then the records in wire order. -/
def blocks (p : StatePacket) : List Block := headerBlock p :: p.objects.map recordBlock

/-- docs/PROTOCOL_UDP.md, section 4, items 1 to 7. -/
def frameItems (d : List Byte) : List (Prop × DecodeError) :=
  [(d.length < 60, .kTooShort),
    (d.length > 6204, .kTooLong),
    (slice d 0 4 ≠ [0x4F, 0x4C, 0x56, 0x31], .kBadMagic),
    (byteAt d 4 ≠ 1, .kBadVersion),
    (byteAt d 5 ≠ 1, .kBadMsgType),
    ((leAt 16 d 52).toNat > 128 ∨ (leAt 16 d 54).toNat > 5000 ∨
      (leAt 16 d 52).toNat > (leAt 16 d 54).toNat, .kTooManyObjects),
    (d.length ≠ 56 + 48 * (leAt 16 d 52).toNat + 4, .kBadLength),
    (leAt 32 d (d.length - 4) ≠ crc32 (d.take (d.length - 4)), .kBadCrc)]

/-- Items 1 to 9. -/
def items (d : List Byte) : List (Prop × DecodeError) :=
  frameItems d ++
    swept Block.NonFinite Block.OutOfRange .kNonFinite .kOutOfRange (blocks (packetAt d))

def frameError (d : List Byte) : Option DecodeError :=
  if d.length < 60 then some .kTooShort
  else if d.length > 6204 then some .kTooLong
  else if slice d 0 4 ≠ [0x4F, 0x4C, 0x56, 0x31] then some .kBadMagic
  else if byteAt d 4 ≠ 1 then some .kBadVersion
  else if byteAt d 5 ≠ 1 then some .kBadMsgType
  else if (leAt 16 d 52).toNat > 128 ∨ (leAt 16 d 54).toNat > 5000 ∨
      (leAt 16 d 52).toNat > (leAt 16 d 54).toNat then some .kTooManyObjects
  else if d.length ≠ 56 + 48 * (leAt 16 d 52).toNat + 4 then some .kBadLength
  else if leAt 32 d (d.length - 4) ≠ crc32 (d.take (d.length - 4)) then some .kBadCrc
  else none

theorem frameError_decides (d : List Byte) : Decides (frameItems d) (frameError d) :=
  .cons (.cons (.cons (.cons (.cons (.cons (.cons (.cons .nil)))))))

theorem headerError_eq (p : StatePacket) :
    headerError p = (headerBlock p).error .kNonFinite .kOutOfRange := by
  simp [headerError, headerBlock, Block.error, inCoordRange, Bool.and_assoc]

theorem recordError_eq (r : ObjectRecord) :
    recordError r = (recordBlock r).error .kNonFinite .kOutOfRange := by
  simp [recordError, recordBlock, Block.error, inCoordRange, Bool.and_assoc]

/-- decode, as a check of the frame and then of block after block. -/
def dropReason (d : List Byte) : Option DecodeError :=
  (frameError d).or ((blocks (packetAt d)).findSome? (Block.error .kNonFinite .kOutOfRange))

theorem crc_iff (d : List Byte) : crc32 (slice d 0 (d.length - 4)) ≠ leAt 32 d (d.length - 4) ↔
    leAt 32 d (d.length - 4) ≠ crc32 (d.take (d.length - 4)) := by
  have htake : slice d 0 (d.length - 4) = d.take (d.length - 4) := by simp [slice]
  rw [htake]
  exact ne_comm

/-- One check of a verdict and of the reason it is the value of. -/
theorem ite_getD {ε : Type} {c c' : Prop} [Decidable c] [Decidable c'] (hc : c ↔ c')
    {e rest none' : ε} {frame rows : Option ε} (h : rest = (frame.or rows).getD none') :
    (if c then e else rest) = ((if c' then some e else frame).or rows).getD none' := by
  by_cases hcheck : c
  · rw [if_pos hcheck, if_pos (hc.mp hcheck)]
    rfl
  · rw [if_neg hcheck, if_neg (mt hc.mpr hcheck)]
    exact h

theorem verdict_eq (d : List Byte) : verdict d = (dropReason d).getD .kNone := by
  have hblocks : (blocks (packetAt d)).findSome? (Block.error .kNonFinite .kOutOfRange) =
      (headerError (headerAt d)).or ((packetAt d).objects.findSome? recordError) := by
    have hrecords : (Block.error .kNonFinite .kOutOfRange ∘ recordBlock) = recordError :=
      funext fun r => (recordError_eq r).symm
    rw [blocks, List.findSome?_cons, List.findSome?_map, hrecords, headerError_eq]
    cases h : (headerBlock (packetAt d)).error DecodeError.kNonFinite .kOutOfRange <;>
      simp [show headerBlock (headerAt d) = headerBlock (packetAt d) from rfl, h]
  have hcount : (countAt d > 128 ∨ leAt 16 d 54 > 5000 ∨ countAt d > leAt 16 d 54) ↔
      (leAt 16 d 52).toNat > 128 ∨ (leAt 16 d 54).toNat > 5000 ∨
        (leAt 16 d 52).toNat > (leAt 16 d 54).toNat := Iff.rfl
  have hlength : d.length ≠ 56 + (countAt d).toNat * 48 + 4 ↔
      d.length ≠ 56 + 48 * (leAt 16 d 52).toNat + 4 := by
    rw [Nat.mul_comm]
    rfl
  rw [dropReason, hblocks]
  refine ite_getD .rfl <| ite_getD .rfl <| ite_getD .rfl <| ite_getD .rfl <| ite_getD .rfl <|
    ite_getD hcount <| ite_getD hlength <| ite_getD (crc_iff d) ?_
  cases headerError (headerAt d) <;> rfl

theorem dropReason_decides (d : List Byte) :
    Decides (frameItems d ++
      rowwise Block.NonFinite Block.OutOfRange .kNonFinite .kOutOfRange (blocks (packetAt d)))
      (dropReason d) :=
  (frameError_decides d).append fun _ => Block.errors_decide _ _ _

/-- What `check` complains of is the first violation, when no complaint is `kNone`. -/
theorem rejects_iff {ε : Type} {items rows : List (Prop × ε)} {none' : ε} {reason : Option ε}
    (h : Decides rows reason) (hne : none' ∉ rows.map Prod.snd) :
    (reason.getD none' ≠ none' → First items (reason.getD none')) ↔
      ∀ e, First rows e → First items e := by
  simp only [h.first_iff]
  cases hr : reason with
  | none => simp
  | some e =>
    have he : e ≠ none' := fun heq => hne (heq ▸ (h.1 e hr).mem)
    simp [he]

/-- The satellite or a record is out of range but finite, nothing before it is
wrong, and a record after it is not finite. -/
def MasksNonFinite (d : List Byte) : Prop :=
  Clear (frameItems d) ∧ Masked Block.NonFinite Block.OutOfRange (blocks (packetAt d))

theorem olv1_order_iff (d : List Byte) :
    (verdict d ≠ .kNone → First (items d) (verdict d)) ↔ ¬ MasksNonFinite d := by
  rw [verdict_eq, rejects_iff (dropReason_decides d) (by simp [frameItems, rowwise])]
  exact Checklist.rowwise_swept_iff (by decide)

namespace Olv2

def pointBlock (p : Point) : Block where
  floats := [p.t.datum, p.satPx.datum, p.satPy.datum, p.satPz.datum,
    p.tgtPx.datum, p.tgtPy.datum, p.tgtPz.datum, p.satVx.datum, p.satVy.datum, p.satVz.datum,
    p.tgtVx.datum, p.tgtVy.datum, p.tgtVz.datum]
  positions := [p.satPx, p.satPy, p.satPz, p.tgtPx, p.tgtPy, p.tgtPz]
  checked := by simp

def blocks (p : TrackPacket) : List Block := p.points.map pointBlock

/-- docs/PROTOCOL_OLV2.md, section 4, items 1 to 7. -/
def frameItems (d : List Byte) : List (Prop × DecodeError) :=
  [(d.length < 112, .kTooShort),
    (d.length > 2128, .kTooLong),
    (slice d 0 4 ≠ [0x4F, 0x4C, 0x56, 0x32], .kBadMagic),
    (byteAt d 4 ≠ 1, .kBadVersion),
    (byteAt d 5 ≠ 1, .kBadMsgType),
    ((byteAt d 23).toNat = 0 ∨ (byteAt d 23).toNat > 25, .kBadPointCount),
    (d.length ≠ 24 + 84 * (byteAt d 23).toNat + 4, .kBadLength),
    (leAt 32 d (d.length - 4) ≠ crc32 (d.take (d.length - 4)), .kBadCrc)]

/-- Item 10. -/
def BadTimes (ps : List Point) : Prop :=
  (∃ p ∈ ps, p.time ≤ 0) ∨ ¬ ps.Pairwise fun p q => p.time < q.time

/-- Items 1 to 7, items 8 and 9 point by point, item 10. -/
def items (d : List Byte) : List (Prop × DecodeError) :=
  frameItems d ++
    (rowwise Block.NonFinite Block.OutOfRange .kNonFinite .kOutOfRange (blocks (packetAt d)) ++
      [(BadTimes (packetAt d).points, .kBadTime)])

def frameError (d : List Byte) : Option DecodeError :=
  if d.length < 112 then some .kTooShort
  else if d.length > 2128 then some .kTooLong
  else if slice d 0 4 ≠ [0x4F, 0x4C, 0x56, 0x32] then some .kBadMagic
  else if byteAt d 4 ≠ 1 then some .kBadVersion
  else if byteAt d 5 ≠ 1 then some .kBadMsgType
  else if (byteAt d 23).toNat = 0 ∨ (byteAt d 23).toNat > 25 then some .kBadPointCount
  else if d.length ≠ 24 + 84 * (byteAt d 23).toNat + 4 then some .kBadLength
  else if leAt 32 d (d.length - 4) ≠ crc32 (d.take (d.length - 4)) then some .kBadCrc
  else none

theorem frameError_decides (d : List Byte) : Decides (frameItems d) (frameError d) :=
  .cons (.cons (.cons (.cons (.cons (.cons (.cons (.cons .nil)))))))

theorem pointError_eq (p : Point) :
    pointError p = (pointBlock p).error .kNonFinite .kOutOfRange := by
  simp [pointError, pointBlock, Block.error, inCoordRange, Bool.and_assoc, or_assoc]

/-- decode, as a check of the frame, of point after point, and of the times. -/
def dropReason (d : List Byte) : Option DecodeError :=
  (frameError d).or (((blocks (packetAt d)).findSome? (Block.error .kNonFinite .kOutOfRange)).or
    (timeError none (packetAt d).points))

theorem findSome_blocks (ps : List Point) :
    (ps.map pointBlock).findSome? (Block.error .kNonFinite .kOutOfRange) =
      ps.findSome? pointError := by
  have hpoints : (Block.error .kNonFinite .kOutOfRange ∘ pointBlock) = pointError :=
    funext fun p => (pointError_eq p).symm
  rw [List.findSome?_map, hpoints]

theorem verdict_eq (d : List Byte) : verdict d = (dropReason d).getD .kNone := by
  have hcount : (byteAt d 23 = 0 ∨ byteAt d 23 > 25) ↔
      (byteAt d 23).toNat = 0 ∨ (byteAt d 23).toNat > 25 := or_congr BitVec.toNat_inj.symm Iff.rfl
  have hlength : d.length ≠ 24 + (byteAt d 23).toNat * 84 + 4 ↔
      d.length ≠ 24 + 84 * (byteAt d 23).toNat + 4 := by rw [Nat.mul_comm]
  rw [dropReason, blocks, findSome_blocks]
  refine ite_getD .rfl <| ite_getD .rfl <| ite_getD .rfl <| ite_getD .rfl <| ite_getD .rfl <|
    ite_getD hcount <| ite_getD hlength <| ite_getD (crc_iff d) ?_
  cases (packetAt d).points.findSome? pointError <;> rfl

/-- Every time is finite once the points have passed. -/
theorem timeError_decides {ps : List Point} (h : ps.findSome? pointError = none) :
    Decides [(BadTimes ps, DecodeError.kBadTime)] (timeError none ps) := by
  have hfinite : ∀ p ∈ ps, p.t.datum.isFinite = true := fun p hp =>
    ((pointError_none_iff p).mp (List.findSome?_eq_none_iff.mp h p hp)).t
  have hnone := timeError_none_iff none ps (by simp) hfinite
  have hgood : timeError none ps = none ↔ ¬ BadTimes ps := by
    rw [hnone, BadTimes]
    simp
  constructor
  · intro e he
    have hbad : BadTimes ps := by
      by_contra hb
      rw [hgood.mpr hb] at he
      cases he
    have hkind : DecodeError.kBadTime = e := by
      clear h hfinite hnone hgood hbad
      generalize none = prev at he
      induction ps generalizing prev with
      | nil => cases he
      | cons p ps ih =>
        rw [timeError] at he
        split at he
        · exact Option.some.inj he
        · split at he
          · exact Option.some.inj he
          · exact ih _ he
    exact Checklist.first_cons.mpr (.inl ⟨hbad, hkind⟩)
  · intro he
    simpa [Clear] using hgood.mp he

theorem dropReason_decides (d : List Byte) : Decides (items d) (dropReason d) := by
  apply (frameError_decides d).append
  intro _
  apply (Block.errors_decide _ _ _).append
  intro hpoints
  rw [blocks, findSome_blocks] at hpoints
  exact timeError_decides hpoints

theorem order (d : List Byte) : verdict d ≠ .kNone → First (items d) (verdict d) := by
  rw [verdict_eq, rejects_iff (dropReason_decides d) (by simp [items, frameItems, rowwise])]
  exact fun _ h => h

end Olv2

/-- **The reported drop reason.** OLV2 decode gives the reason of the first item
violated in the documented order. OLV1 decode gives that of the lowest-numbered
item violated exactly when no satellite or record out of range masks a later
record that is not finite. -/
theorem drop_reason_order (d : List Byte) (out : StatePacket) (trackOut : Olv2.TrackPacket) :
    ((∀ e p, decode d out = some (e, p) → e ≠ .kNone → First (items d) e) ↔ ¬ MasksNonFinite d) ∧
    ∀ e p, Olv2.decode d trackOut = some (e, p) → e ≠ .kNone → First (Olv2.items d) e := by
  rw [decode_eq, Olv2.decode_eq, ← olv1_order_iff]
  constructor
  · constructor
    · exact fun h => h (verdict d) _ rfl
    · rintro h e p ⟨⟩
      exact h
  · rintro e p ⟨⟩
    exact Olv2.order d

def nanRecord : ObjectRecord := { px := ⟨0x7FF8000000000000⟩ }

/-- The satellite is 2e13 m away, and the x of the record is not a number. -/
def maskedPacket : StatePacket where
  satPx := ⟨0x42B2309CE5400000⟩
  objectTotal := 1
  objects := [nanRecord]

theorem maskedPacket_reason :
    decode (encode maskedPacket) {} = some (.kOutOfRange, {}) ∧
      ¬ First (items (encode maskedPacket)) .kOutOfRange := by
  constructor
  · have hverdict : verdict (encode maskedPacket) = .kOutOfRange := by decide +kernel
    rw [decode_eq, hverdict]
    rfl
  · intro h
    have hnan : ∃ b ∈ blocks (packetAt (encode maskedPacket)), b.NonFinite := by
      rw [packetAt_encode]
      have hmem : recordBlock nanRecord.capped ∈ blocks maskedPacket.capped := by
        simp [blocks, StatePacket.capped, maskedPacket]
      exact ⟨_, hmem, _, List.mem_cons_self, by decide +kernel⟩
    rcases Checklist.first_append.mp h with hframe | ⟨_, hswept⟩
    · simpa [frameItems] using hframe.mem
    · rcases Checklist.first_cons.mp hswept with ⟨_, heq⟩ | ⟨hnone, _⟩
      · exact absurd heq (by decide)
      · exact hnone hnan

end Olv.Proto
