import Mathlib.Algebra.Order.Group.Nat
import Transmux.Bytes.Lemmas
import Transmux.Ebml.Document

/-! Numbers of variable width as they are written and read back. The marker fixes the first byte up
to its leading bits, so the width is read off that byte whatever the value is. -/

namespace Transmux

namespace Bytes

theorem be_succ_eq_cons (width n : Nat) :
    be (width + 1) n = UInt8.ofNat (n / 256 ^ width) :: be width n := by
  induction width generalizing n with
  | zero => simp [be]
  | succ width ih =>
    have hdiv : n / 256 / 256 ^ width = n / 256 ^ (width + 1) := by
      rw [Nat.div_div_eq_div_mul, Nat.pow_succ, Nat.mul_comm]
    rw [be, ih, hdiv, be, List.cons_append]

end Bytes

namespace Vint

/-- Numbers that are read in a width: the marker is their highest bit. -/
def IsCoded (coded width : Nat) : Prop :=
  marker width ≤ coded ∧ coded < 2 * marker width

theorem marker_eq (width : Nat) : marker width = 2 ^ (7 * width) := by
  rw [marker, Nat.one_shiftLeft]

theorem marker_pos (width : Nat) : 0 < marker width := by
  rw [marker_eq]
  exact Nat.two_pow_pos _

theorem marker_succ (width : Nat) (h : width ≤ 7) :
    marker (width + 1) = 2 ^ (7 - width) * 256 ^ width := by
  have hexp : 7 * (width + 1) = (7 - width) + 8 * width := by omega
  rw [marker_eq, hexp, Nat.pow_add, Nat.pow_mul 2 8]

theorem coded_lt {coded width : Nat} (hw : 1 ≤ width) (h : IsCoded coded width) :
    coded < 256 ^ width := by
  have hle : 7 * width + 1 ≤ 8 * width := by omega
  calc coded < 2 * marker width := h.2
    _ = 2 ^ (7 * width + 1) := by rw [marker_eq, Nat.pow_succ, Nat.mul_comm]
    _ ≤ 2 ^ (8 * width) := Nat.pow_le_pow_right (by decide) hle
    _ = 256 ^ width := by rw [Nat.pow_mul]

theorem leading_byte_bounds {coded width : Nat} (hw : width ≤ 7) (h : IsCoded coded (width + 1)) :
    2 ^ (7 - width) ≤ coded / 256 ^ width ∧ coded / 256 ^ width < 2 ^ (7 - width + 1) := by
  have hpos : 0 < 256 ^ width := Nat.pow_pos (by decide)
  obtain ⟨hlow, hhigh⟩ := h
  rw [marker_succ width hw] at hlow hhigh
  refine ⟨(Nat.le_div_iff_mul_le hpos).2 hlow, ?_⟩
  rw [Nat.div_lt_iff_lt_mul hpos, Nat.pow_succ, Nat.mul_right_comm, Nat.mul_comm _ 2]
  exact hhigh

theorem toNat_leading_byte {coded width : Nat} (hw : width ≤ 7) (h : IsCoded coded (width + 1)) :
    (UInt8.ofNat (coded / 256 ^ width)).toNat = coded / 256 ^ width := by
  have hlt := (leading_byte_bounds hw h).2
  have hle : 2 ^ (7 - width + 1) ≤ 2 ^ 8 := Nat.pow_le_pow_right (by decide) (by omega)
  rw [UInt8.toNat_ofNat', Nat.mod_eq_of_lt (by omega)]

theorem widthOf_leading_byte {coded width : Nat} (hw : width ≤ 7) (h : IsCoded coded (width + 1)) :
    widthOf (UInt8.ofNat (coded / 256 ^ width)) = width + 1 := by
  have hbounds := leading_byte_bounds hw h
  have hpos := Nat.two_pow_pos (7 - width)
  have hlog : (coded / 256 ^ width).log2 = 7 - width := (Nat.log2_eq_iff (by omega)).2 hbounds
  rw [widthOf, toNat_leading_byte hw h, hlog]
  omega

theorem leading_byte_ne_zero {coded width : Nat} (hw : width ≤ 7) (h : IsCoded coded (width + 1)) :
    UInt8.ofNat (coded / 256 ^ width) ≠ 0 := by
  intro h0
  have hbounds := leading_byte_bounds hw h
  have hpos := Nat.two_pow_pos (7 - width)
  have hzero := toNat_leading_byte hw h
  rw [h0, UInt8.toNat_zero] at hzero
  omega

theorem read?_be {coded width : Nat} (hpos : 0 < width) (hw : width ≤ 8) (h : IsCoded coded width)
    (rest : Bytes) : read? (Bytes.be width coded ++ rest) = some ⟨coded, width, hpos⟩ := by
  obtain ⟨w, rfl⟩ : ∃ w, width = w + 1 := ⟨width - 1, by omega⟩
  have hcons : Bytes.be (w + 1) coded ++ rest
      = UInt8.ofNat (coded / 256 ^ w) :: (Bytes.be w coded ++ rest) := by
    rw [Bytes.be_succ_eq_cons, List.cons_append]
  have hcoded : Bytes.ofBe (Bytes.be (w + 1) coded) = coded := by
    rw [Bytes.ofBe_be, Nat.mod_eq_of_lt (coded_lt hpos h)]
  rw [hcons, read?, if_neg (leading_byte_ne_zero (by omega) h)]
  simp only [← hcons, widthOf_leading_byte (show w ≤ 7 by omega) h,
    Bytes.split?_append rest (Bytes.length_be (w + 1) coded)]
  simp [hcoded]

@[simp] theorem value_ofValue (value width : Nat) (hpos : 0 < width) :
    (ofValue value width hpos).value = value :=
  Nat.add_sub_cancel_left ..

theorem isUnknown_ofValue {value width : Nat} (hpos : 0 < width) (hw : width ≤ 8) :
    (ofValue value width hpos).isUnknown = true ↔ value + 1 = marker width := by
  have hone : 1 ≤ width := hpos
  rw [isUnknown, value_ofValue, ofValue, isUnknownSize]
  simp [hone, hw]

end Vint

namespace SizeForm

theorem isCoded {size : Nat} {f : SizeForm} (h : f.Fits size) :
    Vint.IsCoded (f.coded size) f.width := by
  have hpos := Vint.marker_pos f.width
  obtain ⟨-, -, hknown⟩ := h
  cases f with
  | known w =>
    have hsize : size + 1 < Vint.marker w := hknown rfl
    change Vint.marker w ≤ Vint.marker w + size ∧ Vint.marker w + size < 2 * Vint.marker w
    omega
  | unknown w =>
    change 0 < Vint.marker w at hpos
    change Vint.marker w ≤ Vint.marker w + (Vint.marker w - 1)
      ∧ Vint.marker w + (Vint.marker w - 1) < 2 * Vint.marker w
    omega

def told (size : Nat) (f : SizeForm) : Option Nat :=
  if f.isKnown then some size else none

theorem told_eq {size : Nat} {f : SizeForm} (h : f.Fits size) :
    (if (Vint.mk (f.coded size) f.width h.1).isUnknown then none
      else some (Vint.mk (f.coded size) f.width h.1).value) = f.told size := by
  have hpos : 0 < f.width := h.1
  have hwidth : f.width ≤ 8 := h.2.1
  cases f with
  | known w =>
    change 0 < w at hpos
    have hsize : size + 1 < Vint.marker w := h.2.2 rfl
    have hne : ¬ (Vint.ofValue size w hpos).isUnknown = true := by
      rw [Vint.isUnknown_ofValue hpos hwidth]
      exact Nat.ne_of_lt hsize
    exact (if_neg hne).trans (congrArg some (Vint.value_ofValue size w hpos))
  | unknown w =>
    change 0 < w at hpos
    have hones : (Vint.ofValue (Vint.marker w - 1) w hpos).isUnknown = true := by
      rw [Vint.isUnknown_ofValue hpos hwidth]
      exact Nat.sub_add_cancel (Vint.marker_pos w)
    exact if_pos hones

@[simp] theorem length_bytes (size : Nat) (f : SizeForm) : (f.bytes size).length = f.width :=
  Bytes.length_be ..

end SizeForm

namespace ElementId

@[simp] theorem length_bytes (id : ElementId) : (ElementId.bytes id).length = id.width :=
  Bytes.length_be ..

theorem read?_bytes {id : ElementId} (h : id.IsCoded) (rest : Bytes) :
    read? (ElementId.bytes id ++ rest) = some ⟨id, id.width, h.1⟩ := by
  obtain ⟨hpos, hwidth, hcoded⟩ := h
  rw [read?, ElementId.bytes, Vint.read?_be hpos (by omega) hcoded]
  simp [hwidth]

end ElementId

namespace Header

/-- A written header is read back, whatever follows it. -/
theorem read?_bytes {id : ElementId} {f : SizeForm} {size : Nat} (hid : id.IsCoded)
    (hf : f.Fits size) (rest : Bytes) :
    read? (ElementId.bytes id ++ (f.bytes size ++ rest))
      = .ok ⟨id, f.told size, id.width + f.width, Nat.add_pos_left hid.1 _⟩ := by
  have hsize : Vint.read? (f.bytes size ++ rest) = some ⟨f.coded size, f.width, hf.1⟩ :=
    Vint.read?_be hf.1 hf.2.1 (SizeForm.isCoded hf) rest
  rw [read?, ElementId.read?_bytes hid]
  simp only [List.drop_left' (ElementId.length_bytes id), hsize, SizeForm.told_eq hf]

end Header

end Transmux
