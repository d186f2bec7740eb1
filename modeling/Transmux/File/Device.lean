/-! The devices of a machine. They have places like files, but what is written to them is not what
is read from them. -/

namespace Transmux

inductive Device where
  /-- Nothing to read; takes everything. -/
  | sink
  /-- Reads without end; takes everything. -/
  | spring
  /-- Reads without end; has no room. -/
  | full
  /-- The terminal of a program that has none. -/
  | terminal
  /-- The standard streams. -/
  | input
  | output
  | errors
deriving DecidableEq

/-- The device of a name in the directory of devices. -/
def Device.ofName? : String → Option Device
  | "null" => some sink
  | "zero" | "random" | "urandom" => some spring
  | "full" => some full
  | "tty" => some terminal
  | "stdin" => some input
  | "stdout" => some output
  | "stderr" => some errors
  | _ => none

end Transmux
