import OrbitalViewer.ProtocolRoundTrip
import OrbitalViewer.ProtocolOlv2RoundTrip

/-!
# Burst errors

`crc32` is the shift register over the bits of the message, least significant
bit of each byte first (`crc32_eq`). A datagram with its own checksum behind it
leaves the register in one fixed state (`feed_checked`), and a burst no longer
than the register never does.
-/

namespace Olv.Proto
open Wire (Byte slice leAt)
open Crc (bitsOf feed shift)

/-! ## The table -/

theorem tableStep_eq (c : U32) :
    (if c &&& 1 ≠ 0 then kPoly ^^^ (c >>> 1) else c >>> 1) = Crc.step kPoly c false := by
  have hone (i : Nat) : (c &&& 1).getLsbD i = (c.getLsbD i && decide (i = 0)) := by
    rw [BitVec.getLsbD_and, show (1 : U32) = 1#32 from rfl, BitVec.getLsbD_one]
    rfl
  have hbit : c &&& 1 ≠ 0 ↔ c.getLsbD 0 = true := by
    constructor
    · intro h
      by_contra h0
      apply h
      apply BitVec.eq_of_getLsbD_eq
      intro i _
      rw [hone]
      cases i with
      | zero => rw [Bool.eq_false_of_not_eq_true h0]; rfl
      | succ i => simp
    · intro h h0
      have hbit0 := hone 0
      rw [h0, h] at hbit0
      cases hbit0
  simp only [Crc.step, Bool.xor_false, hbit]

theorem repeat_step (k : Nat) (c : U32) :
    Nat.repeat (fun c : U32 => if c &&& 1 ≠ 0 then kPoly ^^^ (c >>> 1) else c >>> 1) k c =
      shift kPoly k c := by
  induction k with
  | zero => rfl
  | succ k ih =>
    rw [Nat.repeat, ih, tableStep_eq, shift, shift, List.replicate_succ', Crc.feed_append]
    rfl

theorem crcByte_eq (c : U32) (b : Byte) :
    crcByte c b = feed kPoly c ((List.range 8).map b.getLsbD) := by
  have hindex : (c ^^^ b.setWidth 32) &&& 0xFF = (c.setWidth 8 ^^^ b).setWidth 32 := by
    have hlow : c.setWidth 8 ^^^ b = (c ^^^ b.setWidth 32).setWidth 8 := by
      rw [BitVec.setWidth_xor, BitVec.setWidth_setWidth_of_le _ (by decide), BitVec.setWidth_eq]
    have hand := Nat.and_two_pow_sub_one_eq_mod (c ^^^ b.setWidth 32).toNat 8
    apply BitVec.eq_of_toNat_eq
    rw [hlow, BitVec.toNat_and, show BitVec.toNat (0xFF : U32) = 2 ^ 8 - 1 from rfl, hand,
      BitVec.toNat_setWidth, BitVec.toNat_setWidth]
    omega
  have hlt : ((c.setWidth 8 ^^^ b).setWidth 32).toNat < 256 := by
    rw [BitVec.toNat_setWidth]
    omega
  rw [crcByte, hindex, Crc.feed_byte kPoly (by decide), kCrcTable, makeCrcTable,
    List.getD_eq_getElem _ _ (by simpa using hlt), List.getElem_map, List.getElem_range,
    repeat_step, BitVec.ofNat_toNat, BitVec.setWidth_eq]

/-- What the loop of `crc32` makes of its register. -/
def register (c : U32) (data : List Byte) : U32 := data.foldl crcByte c

theorem register_append (c : U32) (a b : List Byte) :
    register c (a ++ b) = register (register c a) b := List.foldl_append

/-- The look-ups of the table are the steps of the bits. -/
theorem register_eq (c : U32) (d : List Byte) : register c d = feed kPoly c (bitsOf d) := by
  induction d generalizing c with
  | nil => rfl
  | cons b d ih =>
    rw [register, List.foldl_cons, ← register, ih, crcByte_eq, ← Crc.feed_append]
    rfl

/-- The table-driven checksum is the bitwise one of docs/PROTOCOL_UDP.md. -/
theorem crc32_eq (d : List Byte) :
    crc32 d = feed kPoly 0xFFFFFFFF (bitsOf d) ^^^ 0xFFFFFFFF := by
  rw [← register_eq]
  rfl

/-- **CRC-32, bit by bit.** The checksum is that of the reflected polynomial, and its
register goes on where it stopped. -/
theorem crc32_bitwise (d : List Byte) :
    crc32 d = ~~~feed 0xEDB88320 0xFFFFFFFF (bitsOf d) ∧ crc32 d = ~~~register 0xFFFFFFFF d ∧
      ∀ (c : U32) (a b : List Byte), register c (a ++ b) = register (register c a) b ∧
        register c a = feed 0xEDB88320 c (bitsOf a) := by
  have hones : (0xFFFFFFFF : U32) = BitVec.allOnes 32 := rfl
  have hregister : crc32 d = ~~~register 0xFFFFFFFF d := by
    rw [crc32, ← register]
    nth_rewrite 2 [hones]
    exact BitVec.xor_allOnes
  exact ⟨hregister.trans (congrArg _ (register_eq _ d)), hregister,
    fun c a b => ⟨register_append c a b, register_eq c a⟩⟩

example : crc32 [49, 50, 51, 52, 53, 54, 55, 56, 57] = 0xCBF43926 := by decide +kernel

/-! ## Checked datagrams -/

/-- The checksum behind a message leaves the register in one state. -/
theorem feed_checked {d : List Byte} (hlen : 4 ≤ d.length)
    (h : leAt 32 d (d.length - 4) = crc32 (d.take (d.length - 4))) :
    feed kPoly 0xFFFFFFFF (bitsOf d) = shift kPoly 32 0xFFFFFFFF := by
  have hlast : slice d (d.length - 4) 4 = Wire.leBytes 4 (crc32 (d.take (d.length - 4))) := by
    rw [← h]
    exact (Wire.leBytes_leAt (n := 4) (by omega)).symm
  have hxor (r : U32) : r ^^^ (r ^^^ 0xFFFFFFFF) = 0xFFFFFFFF := by
    rw [← BitVec.xor_assoc, BitVec.xor_self, BitVec.zero_xor]
  conv_lhs => rw [← Wire.take_append_last hlen]
  rw [hlast, Crc.bitsOf_append, Crc.feed_append, Crc.bitsOf_leBytes, Crc.feed_word, crc32_eq, hxor]

/-- `d'` is another datagram of the length of `d`, and they differ only inside
32 consecutive bits. -/
def BurstOf (d d' : List Byte) : Prop :=
  d'.length = d.length ∧ d' ≠ d ∧
    ∃ k, ∀ i, (bitsOf d')[i]? ≠ (bitsOf d)[i]? → k ≤ i ∧ i < k + 32

/-- One wrong byte is a burst. -/
theorem burstOf_set {d : List Byte} {j : Nat} {b : Byte} (hj : j < d.length) (hb : b ≠ d[j]) :
    BurstOf d (d.set j b) := by
  refine ⟨List.length_set, fun h => ?_, 8 * j, fun i hi => ?_⟩
  · have := congrArg (fun l => l[j]?) h
    simp only [List.getElem?_set_self hj, List.getElem?_eq_getElem hj, Option.some.injEq] at this
    exact hb this
  · have hbyte : i / 8 = j := by
      by_contra hne
      apply hi
      rw [Crc.getElem?_bitsOf, Crc.getElem?_bitsOf, List.getElem?_set_ne (Ne.symm hne)]
    omega

/-- No burst leads from one checked datagram to another. -/
theorem burst_unchecked {d d' : List Byte} (hlen : 4 ≤ d.length) (hburst : BurstOf d d')
    (h : leAt 32 d (d.length - 4) = crc32 (d.take (d.length - 4))) :
    leAt 32 d' (d'.length - 4) ≠ crc32 (d'.take (d'.length - 4)) := by
  obtain ⟨hsame, hne, k, hwin⟩ := hburst
  intro h'
  have hbits : (bitsOf d').length = (bitsOf d).length := by
    rw [Crc.length_bitsOf, Crc.length_bitsOf, hsame]
  have hbits_ne : bitsOf d' ≠ bitsOf d := mt (Crc.bitsOf_injective hsame) hne
  apply Crc.burst_changes kPoly (by decide) 0xFFFFFFFF hbits hbits_ne k hwin
  rw [feed_checked (by omega) h', feed_checked hlen h]

/-- **A burst of up to 32 bits is always caught**, by either protocol. -/
theorem burst_rejected :
    (∀ d d' out out' pkt, decode d out = some (.kNone, pkt) → BurstOf d d' →
      ∃ err, err ≠ .kNone ∧ decode d' out' = some (err, out')) ∧
    (∀ d d' out out' pkt, Olv2.decode d out = some (.kNone, pkt) → BurstOf d d' →
      ∃ err, err ≠ .kNone ∧ Olv2.decode d' out' = some (err, out')) := by
  constructor
  · intro d d' out out' pkt h hburst
    have hd := (decode_accepts h).1
    have hlen := hd.length_ge
    have hv : verdict d' ≠ .kNone := fun hv =>
      burst_unchecked (by omega) hburst hd.crc ((verdict_iff d').mp hv).crc
    exact ⟨verdict d', hv, by rw [decode_eq, if_neg hv]⟩
  · intro d d' out out' pkt h hburst
    have hd := (Olv2.decode_accepts h).1
    have hlen := hd.length_ge
    have hv : Olv2.verdict d' ≠ .kNone := fun hv =>
      burst_unchecked (by omega) hburst hd.crc ((Olv2.verdict_iff d').mp hv).crc
    exact ⟨Olv2.verdict d', hv, by rw [Olv2.decode_eq, if_neg hv]⟩

theorem burst_rejected_sample :
    ∃ err, err ≠ .kNone ∧
      decode ((encode samplePacket).set 20 0xFF) {} = some (err, {}) :=
  burst_rejected.1 (encode samplePacket) _ {} {} samplePacket.capped
    (decode_encode samplePacket_sound (by decide) {})
    (burstOf_set (by rw [length_encode]; decide) (by decide))

end Olv.Proto
