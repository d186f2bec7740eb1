import Transmux.Ebml.Vint

/-! Blocks: the payload of a block element split into the number of its track, its lacing mode and
its data. -/

namespace Transmux

/-- How several frames would share one block. -/
inductive LacingMode where
  | none
  | xiph
  | fixedSize
  | ebml
deriving DecidableEq

namespace LacingMode

/-- The mode stands in two bits of the flags, above the lowest one. -/
def ofFlags (flags : UInt8) : LacingMode :=
  match flags.toNat / 2 % 4 with
  | 0 => none
  | 1 => xiph
  | 2 => fixedSize
  | _ => ebml

def name : LacingMode → String
  | none => "none"
  | xiph => "xiph"
  | fixedSize => "fixed-size"
  | ebml => "ebml"

end LacingMode

structure Block where
  track : Nat
  lacing : LacingMode
  /-- What follows the flags; a single packet if there is no lacing. -/
  data : Bytes
deriving DecidableEq

/-- A track number, two bytes of relative time, a byte of flags, and the data. -/
def Block.read? (payload : Bytes) : Option Block :=
  match Vint.read? payload with
  | none => none
  | some track =>
    match payload.drop (track.width + 2) with
    | [] => none
    | flags :: data => some ⟨track.value, .ofFlags flags, data⟩

end Transmux
