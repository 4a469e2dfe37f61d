import OrbitalViewer.Lib.Wire

/-!
# Reflected cyclic redundancy checks

The shift register of a reflected CRC over message bits, least significant bit
of each byte first, for any width and polynomial:

* `feed_xor`: the register is linear in its start and in the message;
* `feed_absorb`: a message no longer than the register can be xored in at once;
* `feed_byte`: eight steps are one look-up in a table of 256 words;
* `feed_word`: a message that ends with the register itself leaves a constant;
* `burst_changes`: two messages that differ only inside one window no longer
  than the register never leave it in the same state.
-/

namespace Crc
open Wire (Byte)

variable {w : Nat} (poly : BitVec w)

/-- One message bit: shift right, and fold the polynomial in when the bit
shifted out differs from the message bit. -/
def step (r : BitVec w) (b : Bool) : BitVec w :=
  if (r.getLsbD 0 ^^ b) = true then poly ^^^ (r >>> 1) else r >>> 1

def feed (r : BitVec w) (bits : List Bool) : BitVec w := bits.foldl (step poly) r

/-- The message bits of a byte string. -/
def bitsOf (d : List Byte) : List Bool := d.flatMap fun b => (List.range 8).map b.getLsbD

/-- `k` steps on message bits that are all zero. -/
def shift (k : Nat) (r : BitVec w) : BitVec w := feed poly r (List.replicate k false)

@[simp] theorem feed_nil (r : BitVec w) : feed poly r [] = r := rfl

@[simp] theorem feed_cons (r : BitVec w) (b : Bool) (bits : List Bool) :
    feed poly r (b :: bits) = feed poly (step poly r b) bits := rfl

theorem feed_append (r : BitVec w) (a b : List Bool) :
    feed poly r (a ++ b) = feed poly (feed poly r a) b := List.foldl_append

theorem shift_succ (k : Nat) (r : BitVec w) :
    shift poly (k + 1) r = shift poly k (step poly r false) := rfl

/-! ## Linearity -/

theorem getLsbD_step (r : BitVec w) (b : Bool) (i : Nat) :
    (step poly r b).getLsbD i =
      (r.getLsbD (i + 1) ^^ (poly.getLsbD i && (r.getLsbD 0 ^^ b))) := by
  unfold step
  split
  · rename_i hf
    rw [BitVec.getLsbD_xor, BitVec.getLsbD_ushiftRight, hf, Bool.and_true, Nat.add_comm,
      Bool.xor_comm]
  · rename_i hf
    rw [BitVec.getLsbD_ushiftRight, Bool.eq_false_of_not_eq_true hf, Bool.and_false,
      Bool.xor_false, Nat.add_comm]

theorem step_xor (r s : BitVec w) (a b : Bool) :
    step poly (r ^^^ s) (a ^^ b) = step poly r a ^^^ step poly s b := by
  apply BitVec.eq_of_getLsbD_eq
  intro i _
  simp only [getLsbD_step, BitVec.getLsbD_xor]
  cases poly.getLsbD i <;> cases r.getLsbD 0 <;> cases s.getLsbD 0 <;> cases a <;> cases b <;>
    simp

theorem feed_xor (r s : BitVec w) {a b : List Bool} (h : a.length = b.length) :
    feed poly (r ^^^ s) (List.zipWith xor a b) = feed poly r a ^^^ feed poly s b := by
  induction a generalizing r s b with
  | nil =>
    have hb : b = [] := List.length_eq_zero_iff.mp h.symm
    subst hb
    rfl
  | cons x xs ih =>
    obtain ⟨y, ys, rfl⟩ : ∃ y ys, b = y :: ys := List.exists_cons_of_length_eq_add_one h.symm
    rw [List.zipWith_cons_cons, feed_cons, feed_cons, feed_cons, step_xor]
    exact ih _ _ (by simpa using h)

theorem shift_xor (k : Nat) (r s : BitVec w) :
    shift poly k (r ^^^ s) = shift poly k r ^^^ shift poly k s := by
  have h := feed_xor poly r s (a := List.replicate k false) (b := List.replicate k false) (by simp)
  simpa [shift, List.zipWith_replicate] using h

@[simp] theorem shift_zero_register (k : Nat) : shift poly k 0#w = 0#w := by
  induction k with
  | zero => rfl
  | succ k ih => rw [shift_succ, show step poly 0#w false = 0#w by simp [step], ih]

/-! ## Xoring a message in at once -/

/-- The register whose low bits are the message, first bit lowest. -/
def word (w : Nat) (bits : List Bool) : BitVec w := (BitVec.ofBoolListLE bits).setWidth w

theorem getLsbD_word (bits : List Bool) (i : Nat) :
    (word w bits).getLsbD i = (decide (i < w) && bits.getD i false) := by
  rw [word, BitVec.getLsbD_setWidth, BitVec.getLsbD_ofBoolListLE]

theorem step_word (b : Bool) (bits : List Bool) (hw : bits.length < w) :
    step poly (word w (b :: bits)) false = step poly 0#w b ^^^ word w bits := by
  apply BitVec.eq_of_getLsbD_eq
  intro i hi
  rw [BitVec.getLsbD_xor, getLsbD_step, getLsbD_step, getLsbD_word, getLsbD_word, getLsbD_word,
    List.getD_cons_succ, List.getD_cons_zero]
  by_cases h : i + 1 < w
  · simp [h, hi, show 0 < w by omega, Bool.xor_comm]
  · rw [List.getD_eq_default _ _ (by omega)]
    simp [h, show 0 < w by omega]

/-- A message no longer than the register can be xored into it, and zeros fed. -/
theorem feed_absorb (r : BitVec w) (bits : List Bool) (hw : bits.length ≤ w) :
    feed poly r bits = shift poly bits.length (r ^^^ word w bits) := by
  induction bits generalizing r with
  | nil =>
    have h0 : word w ([] : List Bool) = 0#w := by
      apply BitVec.eq_of_getLsbD_eq
      intro i _
      simp [getLsbD_word]
    rw [h0]
    simp [shift]
  | cons b bits ih =>
    have hw' : bits.length < w := by simpa using hw
    have hstep : step poly (r ^^^ word w (b :: bits)) false = step poly r b ^^^ word w bits := by
      calc step poly (r ^^^ word w (b :: bits)) false
          = step poly r false ^^^ step poly (word w (b :: bits)) false :=
            step_xor poly r _ false false
        _ = step poly r false ^^^ step poly 0#w b ^^^ word w bits := by
            rw [step_word poly b bits hw', BitVec.xor_assoc]
        _ = step poly r b ^^^ word w bits := by
            rw [← step_xor, BitVec.xor_zero, Bool.false_xor]
    rw [feed_cons, List.length_cons, shift_succ, hstep]
    exact ih _ (by omega)

/-- While the bits shifted out are zero, the register only shifts. -/
theorem shift_low_zero (k : Nat) {r : BitVec w} (h : ∀ i, i < k → r.getLsbD i = false) :
    shift poly k r = r >>> k := by
  induction k generalizing r with
  | zero => simp [shift]
  | succ k ih =>
    have h0 : step poly r false = r >>> 1 := by simp [step, h 0 (by omega)]
    rw [shift_succ, h0, ih, ← BitVec.shiftRight_add, Nat.add_comm]
    intro i hi
    rw [BitVec.getLsbD_ushiftRight]
    exact h _ (by omega)

/-! ## One table look-up per byte -/

theorem word_byte (b : Byte) : word w ((List.range 8).map b.getLsbD) = b.setWidth w := by
  apply BitVec.eq_of_getLsbD_eq
  intro i hi
  rw [getLsbD_word, BitVec.getLsbD_setWidth, List.getD_eq_getElem?_getD, List.getElem?_map]
  by_cases h8 : i < 8
  · rw [List.getElem?_range h8]
    rfl
  · rw [List.getElem?_eq_none (by simpa using h8), BitVec.getLsbD_of_ge b i (by omega)]
    rfl

/-- The eight steps of a byte: the table's word for the low octet of the
register xor the byte, and the rest of the register moved down. -/
theorem feed_byte (hw : 8 ≤ w) (r : BitVec w) (b : Byte) :
    feed poly r ((List.range 8).map b.getLsbD) =
      shift poly 8 ((r.setWidth 8 ^^^ b).setWidth w) ^^^ (r >>> 8) := by
  have hsplit : r ^^^ b.setWidth w =
      (r.setWidth 8 ^^^ b).setWidth w ^^^ (r ^^^ (r.setWidth 8).setWidth w) := by
    ext i hi
    simp only [BitVec.getElem_xor, BitVec.getElem_setWidth, BitVec.getLsbD_xor,
      BitVec.getLsbD_setWidth, BitVec.getLsbD_eq_getElem hi]
    by_cases h8 : i < 8
    · simp only [h8, decide_true, Bool.true_and]
      cases r[i] <;> cases b.getLsbD i <;> rfl
    · rw [BitVec.getLsbD_of_ge b i (by omega)]
      simp [h8]
  have hlow : ∀ i, i < 8 → (r ^^^ (r.setWidth 8).setWidth w).getLsbD i = false := by
    intro i hi
    simp [hi, show i < w by omega]
  have hhigh : (r ^^^ (r.setWidth 8).setWidth w) >>> 8 = r >>> 8 := by
    apply BitVec.eq_of_getLsbD_eq
    intro i _
    simp [BitVec.getLsbD_ushiftRight, BitVec.getLsbD_setWidth]
  rw [feed_absorb poly r _ (by simpa using hw), word_byte, List.length_map, List.length_range,
    hsplit, shift_xor, shift_low_zero poly 8 hlow, hhigh]

/-! ## Errors inside one window -/

/-- A message that ends with a word leaves what that word xor the register gives. -/
theorem feed_word (r m : BitVec w) :
    feed poly r ((List.range w).map m.getLsbD) = shift poly w (r ^^^ m) := by
  have hword : word w ((List.range w).map m.getLsbD) = m := by
    apply BitVec.eq_of_getLsbD_eq
    intro i hi
    rw [getLsbD_word, List.getD_eq_getElem _ _ (by simpa using hi)]
    simp [hi]
  rw [feed_absorb poly r _ (by simp), hword, List.length_map, List.length_range]

/-- Only the message that equals the register clears it, when the message is
no longer than the register. -/
theorem feed_eq_zero (hp : poly.getLsbD (w - 1) = true) (r : BitVec w) (bits : List Bool)
    (hw : bits.length ≤ w) (h : feed poly r bits = 0#w) (i : Nat) :
    r.getLsbD i = bits.getD i false := by
  induction bits generalizing r i with
  | nil => rw [show r = 0#w from h]; simp
  | cons b bits ih =>
    have hlen : bits.length < w := by simpa using hw
    have hnext := ih (step poly r b) (by omega) h
    -- The top bit of the next register is the feedback, and the shorter
    -- message has no bit there, so there was no feedback.
    have htop : (step poly r b).getLsbD (w - 1) = false := by
      rw [hnext, List.getD_eq_default _ _ (by omega)]
    have hfb : (r.getLsbD 0 ^^ b) = false := by
      cases hf : (r.getLsbD 0 ^^ b) with
      | false => rfl
      | true =>
        simp [step, hf, BitVec.getLsbD_ushiftRight, hp, show w ≤ 1 + (w - 1) by omega] at htop
    have hshift : step poly r b = r >>> 1 := by simp [step, hfb]
    cases i with
    | zero => simpa using hfb
    | succ i =>
      have hi := hnext i
      rw [hshift, BitVec.getLsbD_ushiftRight, Nat.add_comm] at hi
      rw [hi, List.getD_cons_succ]

theorem shift_eq_zero (hp : poly.getLsbD (w - 1) = true) (k : Nat) {r : BitVec w}
    (h : shift poly k r = 0#w) : r = 0#w := by
  induction k generalizing r with
  | zero => exact h
  | succ k ih =>
    by_cases hw : 1 ≤ w
    · have h1 : feed poly r [false] = 0#w := ih h
      apply BitVec.eq_of_getLsbD_eq
      intro i _
      rw [feed_eq_zero poly hp r [false] (by simpa using hw) h1 i]
      cases i <;> simp
    · apply BitVec.eq_of_getLsbD_eq
      intro i hi
      omega

/-- A message of zeros outside a window no longer than the register clears a
zero register only when it is zero inside the window as well. -/
theorem feed_window (hp : poly.getLsbD (w - 1) = true) (e : List Bool) (k : Nat)
    (hwin : ∀ i, e.getD i false = true → k ≤ i ∧ i < k + w)
    (h : feed poly 0#w e = 0#w) : ∀ i, e.getD i false = false := by
  have hzeros (l : List Bool) (hl : ∀ b ∈ l, b = false) : l = List.replicate l.length false :=
    List.eq_replicate_of_mem hl
  have hout {i : Nat} (hi : ¬ (k ≤ i ∧ i < k + w)) : e.getD i false = false := by
    cases he : e.getD i false with
    | false => rfl
    | true => exact absurd (hwin i he) hi
  have hhead : ∀ b ∈ e.take k, b = false := by
    intro b hb
    obtain ⟨i, hi, rfl⟩ := List.getElem_of_mem hb
    have hi' : i < k ∧ i < e.length := by simpa using hi
    rw [List.getElem_take, ← List.getD_eq_getElem e false hi'.2]
    exact hout (by omega)
  have htail : ∀ b ∈ (e.drop k).drop w, b = false := by
    intro b hb
    obtain ⟨i, hi, rfl⟩ := List.getElem_of_mem hb
    have hi' : k + (w + i) < e.length := by
      simp only [List.length_drop] at hi
      omega
    rw [List.getElem_drop, List.getElem_drop, ← List.getD_eq_getElem e false hi']
    exact hout (by omega)
  have hsplit : e = e.take k ++ ((e.drop k).take w ++ (e.drop k).drop w) := by
    rw [List.take_append_drop, List.take_append_drop]
  rw [hsplit, feed_append, feed_append, hzeros _ hhead, hzeros _ htail] at h
  have h' : shift poly _ (feed poly (shift poly _ 0#w) ((e.drop k).take w)) = 0#w := h
  rw [shift_zero_register] at h'
  have hmid := feed_eq_zero poly hp 0#w ((e.drop k).take w) (by simp) (shift_eq_zero poly hp _ h')
  intro i
  by_cases hi : k ≤ i ∧ i < k + w
  · have := hmid (i - k)
    rw [BitVec.getLsbD_zero, List.getD_eq_getElem?_getD, List.getElem?_take_of_lt (by omega),
      List.getElem?_drop, show k + (i - k) = i by omega, ← List.getD_eq_getElem?_getD] at this
    exact this.symm
  · exact hout hi

/-- **A burst no longer than the register always changes it.** -/
theorem burst_changes (hp : poly.getLsbD (w - 1) = true) (r : BitVec w) {a b : List Bool}
    (hlen : a.length = b.length) (hne : a ≠ b) (k : Nat)
    (hwin : ∀ i, a[i]? ≠ b[i]? → k ≤ i ∧ i < k + w) : feed poly r a ≠ feed poly r b := by
  intro heq
  have hfeed : feed poly 0#w (List.zipWith xor a b) = 0#w := by
    have h := feed_xor poly r r hlen
    rwa [BitVec.xor_self, heq, BitVec.xor_self] at h
  have hbit (i : Nat) (ha : i < a.length) (hb : i < b.length) :
      (List.zipWith xor a b).getD i false = (a[i] ^^ b[i]) := by
    rw [List.getD_eq_getElem _ _ (by simp; omega), List.getElem_zipWith]
  apply hne
  apply List.ext_getElem hlen
  intro i ha hb
  have hz := feed_window poly hp (List.zipWith xor a b) k (fun j hj => ?_) hfeed i
  · rw [hbit i ha hb] at hz
    simpa using hz
  · apply hwin
    by_cases hja : j < a.length
    · rw [hbit j hja (by omega)] at hj
      rw [List.getElem?_eq_getElem hja, List.getElem?_eq_getElem (by omega)]
      intro hab
      rw [Option.some.inj hab] at hj
      simp at hj
    · rw [List.getD_eq_default _ _ (by simp; omega)] at hj
      cases hj

/-! ## Message bits of bytes -/

@[simp] theorem length_bitsOf (d : List Byte) : (bitsOf d).length = 8 * d.length := by
  rw [bitsOf, Wire.length_chunks (R := 8)]
  intro b
  rw [List.length_map, List.length_range]

theorem bitsOf_append (a b : List Byte) : bitsOf (a ++ b) = bitsOf a ++ bitsOf b :=
  List.flatMap_append

theorem getElem?_bitsOf (d : List Byte) (i : Nat) :
    (bitsOf d)[i]? = d[i / 8]?.map fun b => b.getLsbD (i % 8) := by
  induction d generalizing i with
  | nil => rfl
  | cons b d ih =>
    have hcons : bitsOf (b :: d) = (List.range 8).map b.getLsbD ++ bitsOf d := rfl
    have hlen : ((List.range 8).map b.getLsbD).length = 8 := by simp
    rw [hcons]
    by_cases h8 : i < 8
    · rw [List.getElem?_append_left (by rwa [hlen]), Nat.div_eq_of_lt h8, Nat.mod_eq_of_lt h8]
      simp [h8]
    · rw [List.getElem?_append_right (by rw [hlen]; omega), ih, hlen,
        show i / 8 = (i - 8) / 8 + 1 by omega, show i % 8 = (i - 8) % 8 by omega]
      rfl

theorem bitsOf_injective {a b : List Byte} (hlen : a.length = b.length)
    (h : bitsOf a = bitsOf b) : a = b := by
  induction a generalizing b with
  | nil => exact (List.length_eq_zero_iff.mp hlen.symm).symm
  | cons x xs ih =>
    obtain ⟨y, ys, rfl⟩ : ∃ y ys, b = y :: ys := List.exists_cons_of_length_eq_add_one hlen.symm
    have h' : (List.range 8).map x.getLsbD ++ bitsOf xs =
        (List.range 8).map y.getLsbD ++ bitsOf ys := h
    obtain ⟨hhead, htail⟩ := List.append_inj h' (by simp)
    have hxy : x = y := by
      apply BitVec.eq_of_getLsbD_eq
      intro i hi
      have := congrArg (fun l => l[i]?) hhead
      simpa [hi] using this
    rw [hxy, ih (by simpa using hlen) htail]

theorem bitsOf_leBytes (n : Nat) (v : BitVec w) :
    bitsOf (Wire.leBytes n v) = (List.range (8 * n)).map v.getLsbD := by
  induction n generalizing v with
  | zero => rfl
  | succ n ih =>
    have htail : bitsOf (Wire.leBytes n (v >>> 8)) =
        (List.range (8 * n)).map fun i => v.getLsbD (8 + i) := by
      rw [ih]
      simp [BitVec.getLsbD_ushiftRight]
    have hhead : (List.range 8).map (v.setWidth 8).getLsbD = (List.range 8).map v.getLsbD := by
      apply List.map_congr_left
      intro i hi
      simp [List.mem_range.mp hi]
    calc bitsOf (Wire.leBytes (n + 1) v)
        = (List.range 8).map (v.setWidth 8).getLsbD ++ bitsOf (Wire.leBytes n (v >>> 8)) := rfl
      _ = (List.range (8 + 8 * n)).map v.getLsbD := by
          rw [hhead, htail, List.range_add, List.map_append, List.map_map]
          rfl
      _ = (List.range (8 * (n + 1))).map v.getLsbD := by rw [Nat.mul_succ, Nat.add_comm]

end Crc
