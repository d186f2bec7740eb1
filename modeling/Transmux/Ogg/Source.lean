import Transmux.Bytes

/-! Sources of bytes: what is left to hand out, and whether the source breaks off there. -/

namespace Transmux.Ogg

inductive ReadError where
  /-- The source ended inside a page. -/
  | unexpectedEnd
  | badCapture
  /-- The source itself failed. -/
  | broken
deriving DecidableEq

def ReadError.message : ReadError → String
  | unexpectedEnd => "failed to fill whole buffer"
  | badCapture => "invalid Ogg magic"
  | broken => "read failed"

structure Source where
  rest : Bytes
  /-- A broken source fails where another one ends. -/
  isBroken : Bool := false
deriving DecidableEq

namespace Source

/-- Takes `n` bytes. A source that has fewer hands out all of them before it fails. -/
def take (s : Source) (n : Nat) : Except ReadError Bytes × Source :=
  match Bytes.split? n s.rest with
  | some (front, rest) => (.ok front, { s with rest := rest })
  | none => (.error (if s.isBroken then .broken else .unexpectedEnd), { s with rest := [] })

end Source

end Transmux.Ogg
