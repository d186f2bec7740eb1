import Mathlib.Data.List.GetD
import Transmux.Ogg.Checksum

/-! The checksum as a remainder. A step of the division is linear and loses nothing. So bits that
are taken in one at a time may as well be taken in together, which is what the table relies on, and
bits that differ within the width of the remainder always leave different remainders. -/

namespace Transmux.Ogg.Checksum

/-- A bit of a remainder, lowest first. -/
def bit (r : UInt32) (i : Nat) : Bool :=
  r.toBitVec.getLsbD i

theorem bit_zero (i : Nat) : bit 0 i = false :=
  BitVec.getLsbD_zero

theorem bit_xor (a b : UInt32) (i : Nat) : bit (a ^^^ b) i = (bit a i ^^ bit b i) :=
  BitVec.getLsbD_xor

theorem bit_ofNat (n : Nat) {i : Nat} (h : i < 32) : bit (UInt32.ofNat n) i = n.testBit i := by
  change (BitVec.ofNat 32 n).getLsbD i = n.testBit i
  rw [BitVec.getLsbD_ofNat, decide_eq_true h, Bool.true_and]

theorem bit_of_ge (r : UInt32) {i : Nat} (h : 32 ≤ i) : bit r i = false :=
  BitVec.getLsbD_of_ge _ _ h

theorem toNat_shift {n : UInt32} (h : n.toNat < 32) : (n.toBitVec % 32).toNat = n.toNat :=
  Nat.mod_eq_of_lt h

theorem bit_shiftLeft (r : UInt32) {n : UInt32} (h : n.toNat < 32) (i : Nat) :
    bit (r <<< n) i = (decide (n.toNat ≤ i ∧ i < 32) && bit r (i - n.toNat)) := by
  rw [bit, UInt32.toBitVec_shiftLeft, BitVec.shiftLeft_eq', toNat_shift h, BitVec.getLsbD_shiftLeft,
    bit]
  grind

theorem bit_shiftRight (r : UInt32) {n : UInt32} (h : n.toNat < 32) (i : Nat) :
    bit (r >>> n) i = bit r (n.toNat + i) := by
  rw [bit, UInt32.toBitVec_shiftRight, BitVec.ushiftRight_eq', toNat_shift h,
    BitVec.getLsbD_ushiftRight, bit]

theorem eq_of_bit {a b : UInt32} (h : ∀ i, i < 32 → bit a i = bit b i) : a = b :=
  UInt32.toBitVec_inj.1 (BitVec.eq_of_getLsbD_eq h)

/-- A bit in the highest place, where it is taken in. -/
def atTop (b : Bool) : UInt32 :=
  if b then 0x80000000 else 0

theorem bit_atTop (b : Bool) (i : Nat) : bit (atTop b) i = (b && decide (i = 31)) := by
  cases b with
  | false => exact bit_zero i
  | true =>
    have htwoPow : bit (atTop true) i = (BitVec.twoPow 32 31).getLsbD i := rfl
    rw [htwoPow, BitVec.getLsbD_twoPow]
    simp [eq_comm]

theorem and_top_eq_zero_iff (r : UInt32) : r &&& 0x80000000 = 0 ↔ bit r 31 = false := by
  have hmask : (r &&& 0x80000000).toBitVec = if bit r 31 then BitVec.twoPow 32 31 else 0#32 :=
    BitVec.and_twoPow r.toBitVec 31
  rw [← UInt32.toBitVec_inj, hmask]
  cases bit r 31 with
  | false => exact iff_of_true rfl rfl
  | true => exact iff_of_false (by decide) (by decide)

/-- What a step takes off when a bit moves out. -/
def taken (b : Bool) : UInt32 :=
  if b then divisor else 0

theorem step_eq (r : UInt32) : step r = (r <<< 1) ^^^ taken (bit r 31) := by
  rw [step]
  by_cases htop : bit r 31 = true
  · have hne : r &&& 0x80000000 ≠ 0 := by
      rw [Ne, and_top_eq_zero_iff, htop]
      decide
    rw [if_neg hne, htop]
    rfl
  · rw [if_pos ((and_top_eq_zero_iff r).2 (Bool.eq_false_iff.2 htop)), Bool.eq_false_iff.2 htop]
    exact UInt32.xor_zero.symm

theorem step_xor (a b : UInt32) : step (a ^^^ b) = step a ^^^ step b := by
  have htaken : ∀ x y : Bool, taken (x ^^ y) = taken x ^^^ taken y := by decide
  rw [step_eq, step_eq, step_eq, bit_xor, htaken, UInt32.shiftLeft_xor]
  ac_rfl

theorem steps_xor (n : Nat) (a b : UInt32) : steps n (a ^^^ b) = steps n a ^^^ steps n b := by
  induction n generalizing a b with
  | zero => rfl
  | succ n ih => rw [steps, steps, steps, step_xor, ih]

/-- No bit moves out, so the step is a shift. -/
theorem bit_step {r : UInt32} (h : bit r 31 = false) (i : Nat) :
    bit (step r) i = (decide (1 ≤ i ∧ i < 32) && bit r (i - 1)) := by
  have hnone : taken false = 0 := rfl
  rw [step_eq, h, hnone, UInt32.xor_zero, bit_shiftLeft r (by decide)]
  rfl

theorem bit_steps {n : Nat} (hn : n ≤ 32) {r : UInt32} (h : ∀ i, 32 - n ≤ i → bit r i = false)
    (i : Nat) : bit (steps n r) i = (decide (n ≤ i) && bit r (i - n)) := by
  induction n generalizing r with
  | zero => simp [steps]
  | succ n ih =>
    have htop : bit r 31 = false := h 31 (by omega)
    have hclear : ∀ j, 32 - n ≤ j → bit (step r) j = false := by
      intro j hj
      rw [bit_step htop, h (j - 1) (by omega), Bool.and_false]
    rw [steps, ih (by omega) hclear, bit_step htop, Nat.sub_sub]
    grind

/-- The divisor is odd, so a bit that moves out leaves a trace. -/
theorem step_eq_zero {r : UInt32} (h : step r = 0) : r = 0 := by
  have htop : bit r 31 = false := by
    have hlow : bit (step r) 0 = bit r 31 := by
      have hodd : ∀ b : Bool, bit (taken b) 0 = b := by decide
      rw [step_eq, bit_xor, bit_shiftLeft r (by decide), hodd]
      exact Bool.false_xor _
    rw [← hlow, h, bit_zero]
  apply eq_of_bit
  intro i hi
  by_cases hlast : i = 31
  · rw [hlast, htop, bit_zero]
  · have hbit := bit_step htop (i + 1)
    rw [h, bit_zero, decide_eq_true (by omega), Bool.true_and] at hbit
    rw [bit_zero]
    exact hbit.symm

theorem step_injective {a b : UInt32} (h : step a = step b) : a = b := by
  rw [← UInt32.xor_eq_zero_iff]
  apply step_eq_zero
  rw [step_xor, h, UInt32.xor_self]

theorem steps_injective {n : Nat} {a b : UInt32} (h : steps n a = steps n b) : a = b := by
  induction n generalizing a b with
  | zero => exact h
  | succ n ih => exact step_injective (ih h)

/-- Bits as they are taken in together, the first of them highest. -/
def word : List Bool → UInt32
  | [] => 0
  | b :: bs => atTop b ^^^ (word bs >>> 1)

theorem bit_word (bs : List Bool) {i : Nat} (hi : i < 32) :
    bit (word bs) i = bs.getD (31 - i) false := by
  induction bs generalizing i with
  | nil => exact bit_zero i
  | cons b bs ih =>
    rw [word, bit_xor, bit_atTop, bit_shiftRight _ (by decide)]
    by_cases hlast : i = 31
    · have hout : bit (word bs) 32 = false := bit_of_ge _ (Nat.le_refl _)
      subst hlast
      simp [hout]
    · have hplace : 31 - i = 31 - (1 + i) + 1 := by omega
      have hbit := ih (i := 1 + i) (by omega)
      rw [hplace, List.getD_cons_succ, ← hbit]
      simp [hlast]

/-- Bits that fit into the remainder may be taken in together. -/
theorem foldl_takeBit {bs : List Bool} (h : bs.length ≤ 32) (r : UInt32) :
    bs.foldl takeBit r = steps bs.length (r ^^^ word bs) := by
  induction bs generalizing r with
  | nil => exact UInt32.xor_zero.symm
  | cons b bs ih =>
    rw [List.length_cons] at h
    -- the word of the later bits ends in a zero, so a step can be put in front of it
    have hshift : step (word bs >>> 1) = word bs := by
      have htop : bit (word bs >>> 1) 31 = false := by
        rw [bit_shiftRight _ (by decide)]
        exact bit_of_ge _ (Nat.le_refl _)
      apply eq_of_bit
      intro i hi
      rw [bit_step htop, bit_shiftRight _ (by decide)]
      cases i with
      | zero =>
        rw [bit_word bs hi, List.getD_eq_default _ _ (by omega)]
        rfl
      | succ i =>
        have hi' : (1 : UInt32).toNat + (i + 1 - 1) = i + 1 := Nat.add_comm 1 i
        rw [hi', decide_eq_true (by omega), Bool.true_and]
    have htake : takeBit r b = step (r ^^^ atTop b) := rfl
    calc bs.foldl takeBit (takeBit r b)
        = steps bs.length (takeBit r b ^^^ word bs) := ih (by omega) _
      _ = steps bs.length (step (r ^^^ atTop b) ^^^ step (word bs >>> 1)) := by
        rw [htake, hshift]
      _ = steps bs.length (step (r ^^^ word (b :: bs))) := by
        rw [← step_xor, word, UInt32.xor_assoc]

theorem word_injective {bs bs' : List Bool} (hlength : bs.length = bs'.length)
    (h : bs.length ≤ 32) (hword : word bs = word bs') : bs = bs' := by
  apply List.ext_getElem hlength
  intro i hi hi'
  have hbit := bit_word bs (i := 31 - i) (by omega)
  rw [hword, bit_word bs' (by omega)] at hbit
  have hplace : 31 - (31 - i) = i := by omega
  rw [hplace, List.getD_eq_getElem _ _ hi, List.getD_eq_getElem _ _ hi'] at hbit
  exact hbit.symm

theorem length_bits (b : UInt8) : (bits b).length = 8 := by
  simp [bits]

theorem bit_word_bits (b : UInt8) {i : Nat} (hi : i < 32) :
    bit (word (bits b)) i = (decide (24 ≤ i) && b.toNat.testBit (i - 24)) := by
  rw [bit_word _ hi]
  by_cases hlow : 24 ≤ i
  · have hlt : 31 - i < 8 := by omega
    have hplace : 7 - (31 - i) = i - 24 := by omega
    rw [List.getD_eq_getElem _ _ (by rw [length_bits]; exact hlt)]
    simp [bits, hlow, hplace]
  · rw [List.getD_eq_default _ _ (by rw [length_bits]; omega)]
    simp [hlow]

theorem testBit_movedOut (r : UInt32) {i : Nat} (hi : i < 8) :
    (r >>> 24).toUInt8.toNat.testBit i = bit r (24 + i) := by
  have hmod : (r >>> 24).toUInt8.toNat = (r >>> 24).toNat % 2 ^ 8 := rfl
  rw [hmod, Nat.testBit_mod_two_pow, decide_eq_true hi, Bool.true_and]
  exact bit_shiftRight r (by decide) i

/-- The table holds what becomes of the bits that move out together. -/
theorem takeByte_eq (r : UInt32) (b : UInt8) : takeByte r b = (bits b).foldl takeBit r := by
  have hbits : (bits b).length ≤ 32 := by
    rw [length_bits]
    decide
  rw [foldl_takeBit hbits, length_bits]
  let out : UInt8 := (r >>> 24).toUInt8 ^^^ b
  let high : UInt32 := UInt32.ofNat out.toNat <<< 24
  let low : UInt32 := r ^^^ word (bits b) ^^^ high
  have htable : takeByte r b = (r <<< 8) ^^^ steps 8 high := by
    simp only [takeByte, table, Vector.getElem_ofFn]
    rfl
  have hhigh (i : Nat) (hi : i < 32) : bit high i
      = (decide (24 ≤ i) && (bit r i ^^ b.toNat.testBit (i - 24))) := by
    have hshift : bit high i
        = (decide (24 ≤ i ∧ i < 32) && bit (UInt32.ofNat out.toNat) (i - 24)) :=
      bit_shiftLeft _ (by decide) i
    by_cases hplace : 24 ≤ i
    · have hi' : 24 + (i - 24) = i := by omega
      rw [hshift, bit_ofNat _ (by omega), UInt8.toNat_xor, Nat.testBit_xor,
        testBit_movedOut r (by omega), hi']
      simp [hplace, hi]
    · rw [hshift]
      simp [hplace]
  -- what stays once the bits that move out are taken off
  have hlow (i : Nat) : bit low i = (decide (i < 24) && bit r i) := by
    by_cases hi : i < 32
    · rw [bit_xor, bit_xor, hhigh i hi, bit_word_bits b hi]
      by_cases hplace : 24 ≤ i
      · cases bit r i <;> cases b.toNat.testBit (i - 24) <;> simp [hplace]
      · simp [hplace, Nat.not_le.1 hplace]
    · rw [bit_of_ge low (by omega), bit_of_ge r (by omega), Bool.and_false]
  have hshift : steps 8 low = r <<< 8 := by
    have hclear : ∀ i, 32 - 8 ≤ i → bit low i = false := by
      intro i hi
      rw [hlow, decide_eq_false (by omega), Bool.false_and]
    apply eq_of_bit
    intro i hi
    rw [bit_steps (by decide) hclear, hlow, bit_shiftLeft r (by decide)]
    have hn : (8 : UInt32).toNat = 8 := rfl
    by_cases hplace : 8 ≤ i
    · simp [hn, hplace, hi, show i - 8 < 24 by omega]
    · simp [hn, hplace]
  have hsplit : r ^^^ word (bits b) = low ^^^ high := by
    rw [UInt32.xor_assoc, UInt32.xor_self, UInt32.xor_zero]
  rw [htable, hsplit, steps_xor, hshift]

/-- The bits of a byte string in the order in which they are taken in. -/
def bitsOf (bs : Bytes) : List Bool :=
  bs.flatMap bits

theorem bitsOf_append (a b : Bytes) : bitsOf (a ++ b) = bitsOf a ++ bitsOf b :=
  List.flatMap_append

theorem length_bitsOf (bs : Bytes) : (bitsOf bs).length = 8 * bs.length := by
  rw [bitsOf, List.length_flatMap]
  simp only [length_bits, List.map_const', List.sum_replicate_nat, Nat.mul_comm]

/-- The table computes the remainder of the bits. -/
theorem checksum_eq_ofBits (bs : Bytes) : checksum bs = ofBits (bitsOf bs) := by
  have hbyte : takeByte = fun r b => (bits b).foldl takeBit r := by
    funext r b
    exact takeByte_eq r b
  rw [checksum, hbyte, ofBits, bitsOf, List.foldl_flatMap]

theorem takeBit_injective {r r' : UInt32} {b : Bool} (h : takeBit r b = takeBit r' b) : r = r' :=
  (UInt32.xor_left_inj _).1 (step_injective h)

theorem foldl_takeBit_injective {bs : List Bool} {r r' : UInt32}
    (h : bs.foldl takeBit r = bs.foldl takeBit r') : r = r' := by
  induction bs generalizing r r' with
  | nil => exact h
  | cons b bs ih => exact takeBit_injective (ih h)

/-- Bits that differ only within the width of the remainder are told apart by it. -/
theorem ofBits_burst_injective {front burst burst' back : List Bool}
    (hlength : burst.length = burst'.length) (hle : burst.length ≤ 32)
    (h : ofBits (front ++ (burst ++ back)) = ofBits (front ++ (burst' ++ back))) :
    burst = burst' := by
  simp only [ofBits, List.foldl_append] at h
  have hburst := foldl_takeBit_injective h
  have hle' : burst'.length ≤ 32 := hlength ▸ hle
  generalize front.foldl takeBit 0 = r at hburst
  rw [foldl_takeBit hle, foldl_takeBit hle', ← hlength] at hburst
  exact word_injective hlength hle ((UInt32.xor_right_inj r).1 (steps_injective hburst))

end Transmux.Ogg.Checksum
