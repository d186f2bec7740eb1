import Transmux.Bytes

/-! Numbers of variable width. The leading zero bits of the first byte count the bytes that follow
it, and the one bit after them is the marker. An element id keeps the marker in its value, a size
or a track number leaves it out. -/

namespace Transmux

/-- A number of variable width, as coded: `coded` has the marker in it. -/
structure Vint where
  coded : Nat
  width : Nat
  width_pos : 0 < width := by omega
deriving DecidableEq

namespace Vint

/-- Bytes that a number with this first byte takes; a first byte of zero starts none. -/
def widthOf (first : UInt8) : Nat :=
  8 - first.toNat.log2

theorem widthOf_pos (first : UInt8) : 0 < widthOf first := by
  have h : first.toNat.log2 < 8 := by
    by_cases h0 : first.toNat = 0
    · simp [h0]
    · exact (Nat.log2_lt h0).2 first.toNat_lt
  unfold widthOf
  omega

/-- The number at the front of a byte string, unless its first byte is zero or bytes are missing. -/
def read? (bytes : Bytes) : Option Vint :=
  match bytes with
  | [] => none
  | first :: _ =>
    if first = 0 then none
    else (Bytes.split? (widthOf first) bytes).map fun (front, _) =>
      ⟨Bytes.ofBe front, widthOf first, widthOf_pos first⟩

/-- The marker as a number: one above all the values of its width. -/
def marker (width : Nat) : Nat :=
  1 <<< (7 * width)

def value (v : Vint) : Nat :=
  v.coded - marker v.width

/-- All value bits set stands for an unknown size in every width. -/
def isUnknownSize (value width : Nat) : Bool :=
  decide (1 ≤ width) && decide (width ≤ 8) && value + 1 == marker width

def isUnknown (v : Vint) : Bool :=
  isUnknownSize v.value v.width

/-- The number of this value in this width. -/
def ofValue (value width : Nat) (width_pos : 0 < width) : Vint :=
  ⟨marker width + value, width, width_pos⟩

def bytes (v : Vint) : Bytes :=
  Bytes.be v.width v.coded

end Vint

/-- An element id, marker included, as specifications write it. -/
abbrev ElementId := Nat

namespace ElementId

/-- Bytes that a written id takes. -/
def width (id : ElementId) : Nat :=
  id.log2 / 7

def bytes (id : ElementId) : Bytes :=
  Bytes.be (width id) id

/-- An id is a number of at most four bytes. -/
def read? (bytes : Bytes) : Option Vint :=
  (Vint.read? bytes).filter fun v => v.width ≤ 4

end ElementId

end Transmux
