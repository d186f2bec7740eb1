import Transmux.CommandLine.Invocation

/-! The program on a real machine. -/

namespace Transmux

/-- The machine, and whether its log is verbose. -/
abbrev Machine := ReaderT Bool IO

namespace Machine

/-- The number that the system gives an error, whose sign depends on the call. -/
def errorNumber (code : UInt32) : UInt32 :=
  if code < 0x80000000 then code else 0 - code

def systemError (code : UInt32) (what : String) : FileError :=
  .other (FileError.systemText what (errorNumber code).toNat)

def fileError (e : IO.Error) : FileError :=
  match e with
  | .noFileOrDirectory _ _ _ => .notFound
  | .permissionDenied _ _ _ => .permissionDenied
  | .inappropriateType _ code _ =>
    if errorNumber code = 21 then .isDirectory else .notDirectory
  | .invalidArgument _ code what =>
    if errorNumber code = 36 then .nameTooLong
    else if errorNumber code = 22 then .zeroInName
    else systemError code what
  | .resourceExhausted _ code what =>
    if errorNumber code = 28 then .noRoom else systemError code what
  | .noSuchThing _ code what => if errorNumber code = 6 then .noDevice else systemError code what
  | _ => .other (toString e)

def guarded {α : Type} (action : IO α) : Machine (Except FileError α) := do
  match ← action.toBaseIO with
  | .ok a => return .ok a
  | .error e => return .error (fileError e)

def bytes (data : ByteArray) : Bytes := data.toList

partial def readRest (stream : IO.FS.Stream) (seen : ByteArray) : IO ByteArray := do
  let more ← stream.read 65536
  if more.isEmpty then return seen else readRest stream (seen ++ more)

/-- Nothing is left to be written when a file is closed, where nobody would hear that it failed. -/
def writeAll (path : String) (data : Bytes) : IO Unit :=
  IO.FS.withFile path .write fun file => do
    file.write ⟨data.toArray⟩
    file.flush

def writeRest (data : Bytes) : Machine (Except OutputError Unit) := do
  let stream ← IO.getStdout
  match ← guarded (stream.write ⟨data.toArray⟩) with
  | .error e => return .error (.unwritten e)
  | .ok () => return (← guarded stream.flush).mapError .unflushed

instance : Host Machine where
  readFile path := guarded (bytes <$> IO.FS.readBinFile path)
  writeFile path data := guarded (writeAll path data)
  readInput := guarded do return bytes (← readRest (← IO.getStdin) .empty)
  writeOutput data := writeRest data
  tell line := guarded (IO.eprintln line)
  note n := do
    if n.entry.level.isShown (← read) then IO.eprintln n.entry.line
  drawSerial := fun _ => do
    let drawn ← IO.getRandomBytes 4
    return .ok (UInt32.ofNat (Bytes.ofLe (bytes drawn)))

end Machine

namespace CommandLine

def Invocation.isVerbose (words : List String) : Bool :=
  match Invocation.read words with
  | .ok i => i.verbose
  | .error _ => false

def report (o : Outcome) : IO Unit :=
  match o with
  | .refused .version => IO.println versionText
  | .refused .help => IO.println usageText
  | .refused _ => IO.eprintln usageText
  | .failed f => IO.eprintln f.text
  | .done => pure ()

end CommandLine

end Transmux

open Transmux CommandLine in
def main (words : List String) : IO UInt32 := do
  let outcome ← (run words : Machine Outcome).run (Invocation.isVerbose words)
  report outcome
  return outcome.exitCode
