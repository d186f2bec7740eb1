import Transmux.File.Error
import Transmux.Log

/-! What commands need from the machine they run on. -/

namespace Transmux

/-- Why data did not get through the standard output. It was not taken, or what waits in front of
it could not be sent on. -/
inductive OutputError where
  | unwritten (cause : FileError)
  | unflushed (cause : FileError)
deriving DecidableEq

def OutputError.cause : OutputError → FileError
  | unwritten e | unflushed e => e

class Host (m : Type → Type) where
  readFile : String → m (Except FileError Bytes)
  writeFile : String → Bytes → m (Except FileError Unit)
  /-- All of the standard input. -/
  readInput : m (Except FileError Bytes)
  /-- Adds to the standard output and lets nothing wait. -/
  writeOutput : Bytes → m (Except OutputError Unit)
  /-- Adds a line to the standard error. -/
  tell : String → m (Except FileError Unit)
  note : Notice → m Unit
  /-- A number that nobody can foresee. -/
  drawSerial : m (Except String UInt32)

end Transmux
