import Transmux.Bytes

/-! Tracks as their entries describe them. -/

namespace Transmux

inductive TrackKind where
  | audio
  | video
  | other
deriving DecidableEq

/-- What a track entry tells, each part only if the entry has it. -/
structure Track where
  number : Option Nat := none
  type : Option Nat := none
  codec : Option String := none
  codecPrivate : Option Bytes := none
deriving DecidableEq

namespace Track

def videoType : Nat := 1
def audioType : Nat := 2

/-- The kind that a codec name stands for by its first two characters. -/
def kindOfCodec (codec : String) : TrackKind :=
  match codec.toList with
  | 'A' :: '_' :: _ => .audio
  | 'V' :: '_' :: _ => .video
  | _ => .other

/-- The type decides if it names a kind, else the codec does. -/
def kind (t : Track) : TrackKind :=
  if t.type = some audioType then .audio
  else if t.type = some videoType then .video
  else t.codec.elim .other kindOfCodec

/-- A codec name is written as text that zero characters may follow. -/
def codecName (s : String) : String :=
  String.ofList (s.toList.reverse.dropWhile fun c => c == Char.ofNat 0).reverse

end Track

end Transmux
