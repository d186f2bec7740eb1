import Transmux.CommandLine.Host
import Transmux.Options.File
import Transmux.Ogg.Source
import Transmux.Remux.Basic

/-! Why a command fails, as a chain of messages: what was attempted, then what stood against it. -/

namespace Transmux

/-- Why a program is over at once, with its message alone. -/
inductive Panic where
  /-- More room was asked for than can be addressed. -/
  | capacityOverflow
  | unprinted (stream : String) (cause : FileError)
deriving DecidableEq

def Panic.message : Panic → String
  | capacityOverflow => "capacity overflow"
  | unprinted stream e => "failed printing to " ++ stream ++ ": " ++ e.message

inductive Failure where
  | options (cause : OptionsError)
  | overwrite (input : String)
  | read (path : String) (cause : FileError)
  | readInput (cause : FileError)
  | remux (input : String) (cause : RemuxError)
  | readPages (cause : Ogg.ReadError)
  | write (path : String) (cause : FileError)
  | create (path : String) (cause : FileError)
  | writeReport (cause : FileError)
  | writeOutput (cause : FileError)
  | flushOutput (cause : FileError)
  | panicked (cause : Panic)
deriving DecidableEq

namespace Failure

/-- The messages, outermost first. -/
def chain : Failure → List String
  | options e => "load options" :: e.chain
  | overwrite input => ["output would overwrite " ++ input ++ ", use -o"]
  | read path e => ["read " ++ path, e.message]
  | readInput e => ["read stdin", e.message]
  | remux input e => ["remux " ++ input, e.message]
  | readPages e => ["read ogg pages", e.message]
  | write path e => ["write " ++ path, e.message]
  | create path e => ["create " ++ path, e.message]
  | writeReport e => [e.message]
  | writeOutput e => ["write stdout", e.message]
  | flushOutput e => [e.message]
  | panicked p => [p.message]

/-- Numbers causes from zero on. -/
def numbered (n : Nat) : List String → String
  | [] => ""
  | s :: rest =>
    let label := toString n
    "\n" ++ String.ofList (List.replicate (5 - label.length) ' ') ++ label ++ ": " ++ s
      ++ numbered (n + 1) rest

/-- A chain as a text; a single cause has no number. -/
def chainText : List String → String
  | [] => "Error: "
  | [s] => "Error: " ++ s
  | [s, cause] => "Error: " ++ s ++ "\n\nCaused by:\n    " ++ cause
  | s :: causes => "Error: " ++ s ++ "\n\nCaused by:" ++ numbered 0 causes

/-- The text that tells a user of the failure. -/
def text : Failure → String
  | panicked p => "thread \x27main\x27 panicked:\n" ++ p.message
  | f => chainText f.chain

/-- The failure of a command that writes to the standard output. -/
def ofOutput : OutputError → Failure
  | .unwritten e => .writeOutput e
  | .unflushed e => .flushOutput e

/-- The failure of a command that prints its report there. -/
def ofPrinting (e : OutputError) : Failure :=
  .panicked (.unprinted "stdout" e.cause)

/-- The failure of a command that cannot tell what it did. -/
def ofTelling (e : FileError) : Failure :=
  .panicked (.unprinted "stderr" e)

end Failure

/-- What a conversion of an input comes to in a command. -/
def RemuxResult.orFailure (input : String) : RemuxResult → Except Failure RemuxOutput
  | ok out => .ok out
  | error e => .error (.remux input e)
  | panicked => .error (.panicked .capacityOverflow)

end Transmux
