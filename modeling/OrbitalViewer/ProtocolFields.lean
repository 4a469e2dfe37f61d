import OrbitalViewer.Protocol

/-!
# Fields of a datagram

The byte helpers of `include/olv/protocol.hpp`, which both wire protocols use:
each reader returns the little-endian field at its offset, each writer writes
the bytes its reader takes back, and `coordinate_iff` says what the range check
accepts.
-/

namespace Olv.Proto
open Wire (Byte slice leAt leBytes leValue)
open Ieee (F32 F64 Datum)

/-! ## Fields by offset -/

def byteAt (d : List Byte) (off : Nat) : U8 := d.getD off 0
def f32At (d : List Byte) (off : Nat) : F32 := ⟨leAt 32 d off⟩
def f64At (d : List Byte) (off : Nat) : F64 := ⟨leAt 64 d off⟩

theorem byte_read {data : List Byte} {p : Nat} (h : p + 1 ≤ data.length) :
    data[p]? = some (byteAt data p) := by
  rw [byteAt, List.getElem?_eq_getElem h, List.getD_eq_getElem _ _ h]

/-- The bytes at `p`, one by one, as the readers take them. -/
theorem slice_bytes {data : List Byte} {p n : Nat} (h : p + n ≤ data.length) :
    slice data p n = (List.range n).map fun i => byteAt data (p + i) := by
  induction n generalizing p with
  | zero => simp [slice]
  | succ n ih =>
    have hp : p < data.length := by omega
    have hhead : byteAt data p = data[p] := List.getD_eq_getElem _ _ hp
    simp only [Wire.slice_succ hp, ih (show p + 1 + n ≤ data.length by omega),
      List.range_succ_eq_map, List.map_cons, List.map_map, Nat.add_zero, hhead, Function.comp_def,
      Nat.succ_eq_add_one, Nat.add_assoc, Nat.add_comm 1]

theorem getU16_eq {data : List Byte} {p : Nat} (h : p + 2 ≤ data.length) :
    getU16 data p = some (leAt 16 data p) := by
  simp (disch := omega) only [getU16, byte_read, leAt, slice_bytes]
  simp [List.range_succ, Wire.leValue]

theorem getU32_eq {data : List Byte} {p : Nat} (h : p + 4 ≤ data.length) :
    getU32 data p = some (leAt 32 data p) := by
  simp (disch := omega) only [getU32, byte_read, leAt, slice_bytes]
  simp [List.range_succ, Wire.leValue, BitVec.shiftLeft_or_distrib, ← BitVec.shiftLeft_add,
    BitVec.or_assoc]

theorem getU64_eq {data : List Byte} {p : Nat} (h : p + 8 ≤ data.length) :
    getU64 data p = some (leAt 64 data p) := by
  simp (disch := omega) only [getU64, List.foldlM_cons, List.foldlM_nil, byte_read, leAt,
    slice_bytes]
  simp [List.range_succ, Wire.leValue_cons]

theorem getF32_eq {data : List Byte} {p : Nat} (h : p + 4 ≤ data.length) :
    getF32 data p = some (f32At data p) := by
  rw [getF32, getU32_eq h]
  rfl

theorem getF64_eq {data : List Byte} {p : Nat} (h : p + 8 ≤ data.length) :
    getF64 data p = some (f64At data p) := by
  rw [getF64, getU64_eq h]
  rfl

theorem byteAt_slice {a m off : Nat} {d : List Byte} (h : off < m) :
    byteAt (slice d a m) off = byteAt d (a + off) := by
  rw [byteAt, byteAt, slice, List.getD_eq_getElem?_getD, List.getElem?_take_of_lt h,
    List.getElem?_drop, List.getD_eq_getElem?_getD]

/-- A check of decode beside the check of its verdict: what fails leaves `out`, and what
passes goes on. -/
theorem check_eq {ε α : Type} [DecidableEq ε] {c : Prop} [Decidable c] {e v accepted : ε}
    {x : Option (ε × α)} {pkt out : α} (he : e ≠ accepted)
    (h : ¬ c → x = some (v, if v = accepted then pkt else out)) :
    (if c then some (e, out) else x) =
      some (if c then e else v, if (if c then e else v) = accepted then pkt else out) := by
  by_cases hc : c
  · rw [if_pos hc, if_pos hc, if_neg he]
  · rw [if_neg hc, if_neg hc]
    exact h hc

/-! ## The writers -/

theorem octet_mask {w : Nat} (hw : 8 ≤ w) (v : BitVec w) :
    (v &&& 0xFF#w).setWidth 8 = v.setWidth 8 := by
  have hlt : 255 < 2 ^ w := Nat.lt_of_lt_of_le (by decide) (Nat.pow_le_pow_right Nat.two_pos hw)
  apply BitVec.eq_of_toNat_eq
  have hand : v.toNat &&& (2 ^ 8 - 1) = v.toNat % 2 ^ 8 := Nat.and_two_pow_sub_one_eq_mod v.toNat 8
  simp only [BitVec.toNat_setWidth, BitVec.toNat_and, BitVec.toNat_ofNat, Nat.mod_eq_of_lt hlt]
  rw [show (255 : Nat) = 2 ^ 8 - 1 from rfl, hand, Nat.mod_mod]

theorem putU16_eq (v : U16) : putU16 v = leBytes 2 v := by
  have h (x : U16) : (x &&& 0xFF).setWidth 8 = x.setWidth 8 := octet_mask (by decide) x
  simp only [putU16, leBytes, h]

theorem putU32_eq (v : U32) : putU32 v = leBytes 4 v := by
  have h (x : U32) : (x &&& 0xFF).setWidth 8 = x.setWidth 8 := octet_mask (by decide) x
  simp only [putU32, leBytes, h, ← BitVec.shiftRight_add]

theorem putU64_eq (v : U64) : putU64 v = leBytes 8 v := by
  have h (x : U64) : (x &&& 0xFF).setWidth 8 = x.setWidth 8 := octet_mask (by decide) x
  simp only [putU64, List.map_cons, List.map_nil, leBytes, h, ← BitVec.shiftRight_add]
  rfl

/-! ## A written field is read back -/

theorem leAt_putU16 {d : List Byte} {off : Nat} {v : U16} (h : slice d off 2 = putU16 v) :
    leAt 16 d off = v := by
  rw [leAt, h, putU16_eq, Wire.leValue_leBytes (by decide)]

theorem leAt_putU32 {d : List Byte} {off : Nat} {v : U32} (h : slice d off 4 = putU32 v) :
    leAt 32 d off = v := by
  rw [leAt, h, putU32_eq, Wire.leValue_leBytes (by decide)]

theorem f32At_putF32 {d : List Byte} {off : Nat} {v : F32} (h : slice d off 4 = putF32 v) :
    f32At d off = v := by
  rw [f32At, leAt_putU32 h]

theorem f64At_putF64 {d : List Byte} {off : Nat} {v : F64} (h : slice d off 8 = putF64 v) :
    f64At d off = v := by
  have hv : leAt 64 d off = v.bits := by
    rw [leAt, h, putF64, putU64_eq, Wire.leValue_leBytes (by decide)]
  rw [f64At, hv]

/-! ## A field that was read is written again -/

theorem putU16_leAt {d : List Byte} {off : Nat} (h : off + 2 ≤ d.length) :
    putU16 (leAt 16 d off) = slice d off 2 := by rw [putU16_eq, ← Wire.leBytes_leAt h]

theorem putU32_leAt {d : List Byte} {off : Nat} (h : off + 4 ≤ d.length) :
    putU32 (leAt 32 d off) = slice d off 4 := by rw [putU32_eq, ← Wire.leBytes_leAt h]

theorem putF32_f32At {d : List Byte} {off : Nat} (h : off + 4 ≤ d.length) :
    putF32 (f32At d off) = slice d off 4 := putU32_leAt h

theorem putF64_f64At {d : List Byte} {off : Nat} (h : off + 8 ≤ d.length) :
    putF64 (f64At d off) = slice d off 8 := by
  rw [putF64, f64At, putU64_eq, ← Wire.leBytes_leAt h]

/-! ## Checked values -/

/-- A finite position component of at most 1e13 m. -/
def Coordinate (x : F64) : Prop := x.datum.isFinite = true ∧ |x.datum.toRat| ≤ 10 ^ 13

instance (x : F64) : Decidable (Coordinate x) := inferInstanceAs (Decidable (_ ∧ _))

theorem coordinate_iff (x : F64) :
    Coordinate x ↔ x.datum.isFinite = true ∧ x.datum.abs.le kMaxCoordinateMeters = true := by
  have hp := x.datum_proper
  rw [Coordinate]
  cases hx : x.datum with
  | nan _ => simp [Datum.isFinite]
  | inf _ => simp [Datum.isFinite]
  | fin neg mag =>
    rw [hx] at hp
    rw [Datum.abs_toRat hp]
    simp [Datum.isFinite, Datum.abs, Datum.le, Datum.toRat, kMaxCoordinateMeters]

end Olv.Proto
