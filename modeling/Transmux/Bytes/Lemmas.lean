import Mathlib.Tactic.Ring
import Transmux.Bytes

/-! A number laid out in bytes reads back, less the digits that do not fit. -/

namespace Transmux.Bytes

theorem ofLe_le (width n : Nat) : ofLe (le width n) = n % 256 ^ width := by
  induction width generalizing n with
  | zero => simp [le, ofLe, Nat.mod_one]
  | succ width ih =>
    have hn := Nat.mod_mul (x := n) (a := 256) (b := 256 ^ width)
    rw [Nat.pow_succ, Nat.mul_comm _ 256, hn]
    simp [le, ofLe, ih]

theorem le_ofLe {width : Nat} {bs : Bytes} (h : bs.length = width) : le width (ofLe bs) = bs := by
  induction bs generalizing width with
  | nil =>
    subst h
    rfl
  | cons b bs ih =>
    obtain ⟨width, rfl⟩ : ∃ n, width = n + 1 := ⟨bs.length, h.symm⟩
    have hb := b.toNat_lt
    have hlow : UInt8.ofNat (b.toNat + 256 * ofLe bs) = b := by
      rw [← UInt8.toNat_inj, UInt8.toNat_ofNat']
      omega
    have hrest : (b.toNat + 256 * ofLe bs) / 256 = ofLe bs := by omega
    rw [ofLe, le, hlow, hrest, ih (Nat.succ.inj h)]

theorem ofLe_lt (bs : Bytes) : ofLe bs < 256 ^ bs.length := by
  induction bs with
  | nil => simp [ofLe]
  | cons b bs ih =>
    have hb := b.toNat_lt
    rw [ofLe, List.length_cons, Nat.pow_succ]
    omega

theorem le_toNat_uint32 {bs : Bytes} (h : bs.length = 4) :
    le 4 (UInt32.ofNat (ofLe bs)).toNat = bs := by
  have hlt := ofLe_lt bs
  rw [h] at hlt
  have hvalue : (UInt32.ofNat (ofLe bs)).toNat = ofLe bs := UInt32.toNat_ofNat_of_lt' hlt
  rw [hvalue, le_ofLe h]

theorem le_toNat_uint64 {bs : Bytes} (h : bs.length = 8) :
    le 8 (UInt64.ofNat (ofLe bs)).toNat = bs := by
  have hlt := ofLe_lt bs
  rw [h] at hlt
  have hvalue : (UInt64.ofNat (ofLe bs)).toNat = ofLe bs := UInt64.toNat_ofNat_of_lt' hlt
  rw [hvalue, le_ofLe h]

theorem ofLe_toNat_uint32 (n : UInt32) : ofLe (le 4 n.toNat) = n.toNat := by
  rw [ofLe_le]
  exact Nat.mod_eq_of_lt n.toNat_lt

theorem ofLe_toNat_uint64 (n : UInt64) : ofLe (le 8 n.toNat) = n.toNat := by
  rw [ofLe_le]
  exact Nat.mod_eq_of_lt n.toNat_lt

theorem ofBe_append (a b : Bytes) : ofBe (a ++ b) = ofBe a * 256 ^ b.length + ofBe b := by
  suffices h : ∀ n, b.foldl (fun n b => 256 * n + b.toNat) n
      = n * 256 ^ b.length + b.foldl (fun n b => 256 * n + b.toNat) 0 by
    simpa [ofBe] using h (ofBe a)
  induction b with
  | nil => simp
  | cons x b ih =>
    intro n
    rw [List.foldl_cons, List.foldl_cons, ih, ih (256 * 0 + x.toNat), List.length_cons,
      Nat.pow_succ]
    grind

theorem ofBe_be (width n : Nat) : ofBe (be width n) = n % 256 ^ width := by
  induction width generalizing n with
  | zero => simp [be, ofBe, Nat.mod_one]
  | succ width ih =>
    have hn := Nat.mod_mul (x := n) (a := 256) (b := 256 ^ width)
    rw [be, ofBe_append, ih, Nat.pow_succ, Nat.mul_comm _ 256, hn]
    simp [ofBe]
    omega

end Transmux.Bytes
