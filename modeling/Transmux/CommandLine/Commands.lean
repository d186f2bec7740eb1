import Transmux.CommandLine.Failure
import Transmux.CommandLine.Host
import Transmux.Decimal.Fixed
import Transmux.Report

/-! The two commands: writing the Ogg stream of an input, and reporting on it. -/

namespace Transmux

structure ConvertCommand where
  input : String
  output : Option String := none
  serial : Option UInt32 := none
  maxPackets : Option Nat := none
  strict : Bool := false
  allTracks : Bool := false
deriving DecidableEq

structure InspectCommand where
  input : String
  json : Bool := false
  output : Option String := none
deriving DecidableEq

/-- The name that stands for a standard stream in place of a file. -/
def standardStream : String := "-"

section
variable {m : Type → Type} [Monad m] [Host m]

/-- Turns the error of a step into the failure of a command. -/
def attempt {ε α : Type} (failure : ε → Failure) (step : m (Except ε α)) : ExceptT Failure m α :=
  ExceptT.mk do
    match ← step with
    | .ok a => return .ok a
    | .error e => return .error (failure e)

/-- The options of a file, or the default ones without a file. -/
def loadOptions (formats : OptionFormats) : Option String → ExceptT Failure m Options
  | none => pure {}
  | some path => do
    let data ← attempt (.options ∘ .unreadable) (Host.readFile path)
    attempt .options (pure (formats.readFile path data))

def readSource (path : String) : ExceptT Failure m Bytes :=
  if path = standardStream then attempt .readInput Host.readInput
  else attempt (.read path) (Host.readFile path)

def writeData (path : String) (data : Bytes) : ExceptT Failure m Unit :=
  if path = standardStream then attempt .ofOutput (Host.writeOutput data)
  else attempt (.write path) (Host.writeFile path data)

/-- Converts an input and tells the log. -/
def remuxSource (o : Options) (path : String) (input : Bytes) : ExceptT Failure m RemuxOutput := do
  let run := remux o (← Host.drawSerial (m := m)) input
  for n in run.notices do
    Host.note (m := m) n
  attempt id (pure (run.result.orFailure path))

end

namespace ConvertCommand

/-- The options with those that the command gives in their place. -/
def apply (c : ConvertCommand) (o : Options) : Options :=
  { o with
    serial := c.serial.or o.serial
    maxPacketsPerPage := c.maxPackets.getD o.maxPacketsPerPage
    parsePolicy := if c.strict then .strict else o.parsePolicy
    filterAudioTrack := o.filterAudioTrack && !c.allTracks }

/-- The output given, the standard output for the standard input, or else the input's name with an
extension of its own. The input itself is never the output. -/
def destination (c : ConvertCommand) : Except Failure String :=
  match c.output with
  | some path => .ok path
  | none =>
    if c.input = standardStream then .ok standardStream
    else
      let path := FilePath.withExtension c.input "ogg"
      if FilePath.steps path = FilePath.steps c.input then .error (.overwrite c.input)
      else .ok path

/-- The line that tells a user what was written. -/
def summary (input output : String) (out : RemuxOutput) : String :=
  let size := toString out.data.length ++ " bytes"
  input ++ " -> " ++ output ++ ": "
    ++ if out.passedThrough then "already Ogg, copied " ++ size
      else toString out.pages ++ " pages, " ++ Decimal.fixed (Report.seconds out.granule) ++ "s, "
        ++ size

variable {m : Type → Type} [Monad m] [Host m]

def run (formats : OptionFormats) (c : ConvertCommand) (config : Option String) :
    ExceptT Failure m Unit := do
  let options := c.apply (← loadOptions formats config)
  let output ← attempt id (pure c.destination)
  let input ← readSource c.input
  Host.note (m := m) (.converting c.input output input.length options)
  let out ← remuxSource options c.input input
  Host.note (m := m) (.converted out.passedThrough out.pages out.granule)
  writeData output out.data
  attempt .ofTelling (Host.tell (summary c.input output out))

end ConvertCommand

namespace InspectCommand

variable {m : Type → Type} [Monad m] [Host m]

def run (formats : OptionFormats) (c : InspectCommand) (config : Option String) :
    ExceptT Failure m Unit := do
  let options ← loadOptions formats config
  let input ← readSource c.input
  let out ← remuxSource options c.input input
  let report ← attempt .readPages (pure (Report.ofBytes (!out.passedThrough) out.data))
  Host.note (m := m) (.inspected c.input report.pages.length report.remuxed)
  let text := if c.json then report.data.json else report.data.yaml
  match c.output with
  | some path => do
    attempt (.create path) (Host.writeFile path [])
    attempt .writeReport (Host.writeFile path (Utf8.encode text))
  | none => attempt .ofPrinting (Host.writeOutput (Utf8.encode (text ++ "\n")))

end InspectCommand

end Transmux
