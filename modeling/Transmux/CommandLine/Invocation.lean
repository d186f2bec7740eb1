import Transmux.CommandLine.Arguments
import Transmux.CommandLine.Commands
import Transmux.Digits
import Transmux.Options.Json
import Transmux.Options.Yaml

/-! The command lines of this program. -/

namespace Transmux.CommandLine

inductive Command where
  | convert (c : ConvertCommand)
  | inspect (c : InspectCommand)
deriving DecidableEq

structure Invocation where
  config : Option String
  verbose : Bool
  command : Command
deriving DecidableEq

/-- The number below a bound that at least one digit spells. -/
def number? (bound : Nat) (cs : List Char) : Option Nat :=
  if cs.isEmpty || !cs.all Char.isDigit then none
  else Digits.below? bound 10 (cs.map fun c => c.toNat - 48)

/-- A number of 32 bits, perhaps after a sign; minus zero is zero. -/
def serial? (s : String) : Option UInt32 :=
  let n := match s.toList with
    | '-' :: rest => number? 1 rest
    | '+' :: rest => number? UInt32.size rest
    | cs => number? UInt32.size cs
  n.map UInt32.ofNat

/-- A number of 64 bits, perhaps after a plus sign. -/
def count? (s : String) : Option Nat :=
  match s.toList with
  | '+' :: rest => number? UInt64.size rest
  | cs => number? UInt64.size cs

/-- Switches that every command has, and that may stand before it. -/
def commonSwitches : List Switch :=
  [{ name := "config", effect := .take fun _ => true },
    { name := "verbose", letter := some 'v', effect := .set },
    { name := "help", letter := some 'h', effect := .help }]

def outputSwitch : Switch :=
  { name := "output", letter := some 'o', effect := .take fun _ => true }

def commandNames : List String := ["convert", "inspect"]

def topGrammar : Grammar where
  switches := { name := "version", letter := some 'V', effect := .version } :: commonSwitches
  takesInput := false
  commands := "help" :: commandNames

def convertGrammar : Grammar where
  switches :=
    [outputSwitch, { name := "serial", effect := .take fun s => (serial? s).isSome },
      { name := "max-packets", effect := .take fun s => (count? s).isSome },
      { name := "strict", effect := .set }, { name := "all-tracks", effect := .set }]
    ++ commonSwitches
  takesInput := true
  commands := []

def inspectGrammar : Grammar where
  switches := [outputSwitch, { name := "json", effect := .set }] ++ commonSwitches
  takesInput := true
  commands := []

def convertCommand (input : String) (f : Findings) : Command :=
  .convert
    { input := input
      output := f.value? "output"
      serial := (f.value? "serial").bind serial?
      maxPackets := (f.value? "max-packets").bind count?
      strict := f.has "strict"
      allTracks := f.has "all-tracks" }

def inspectCommand (input : String) (f : Findings) : Command :=
  .inspect { input := input, json := f.has "json", output := f.value? "output" }

/-- Reads the words of a command, which needs an input. -/
def readCommand (g : Grammar) (words : List String) : Except UsageError (String × Findings) := do
  match ← Reading.read g {} words with
  | .command _ _ _ => .error .unknownCommand
  | .finished f => f.input.elim (.error .missingArgument) fun input => .ok (input, f)

/-- Help is given on the program or on one command. -/
def helpOn : List String → UsageError
  | [] => .help
  | [name] => if topGrammar.commands.contains name then .help else .unknownCommand
  | _ => .unknownCommand

/-- Reads the words after the name of the program. What a command says of a common switch wins over
what stands before the command. -/
def Invocation.read (words : List String) : Except UsageError Invocation := do
  match ← Reading.read topGrammar {} words with
  | .finished f => .error (if f.switches.isEmpty then .helpForWantOfCommand else .missingCommand)
  | .command before name rest =>
    if name = "help" then .error (helpOn rest)
    else
      let converts := name = "convert"
      let (input, f) ← readCommand (if converts then convertGrammar else inspectGrammar) rest
      let top := (← before.settle).found
      return {
        config := (f.value? "config").or (top.value? "config")
        verbose := f.has "verbose" || top.has "verbose"
        command := if converts then convertCommand input f else inspectCommand input f }

/-- How a command line ends. -/
inductive Outcome where
  | refused (error : UsageError)
  | failed (failure : Failure)
  | done
deriving DecidableEq

/-- Asking for help or for the version is no error. -/
def UsageError.exitCode : UsageError → UInt32
  | .help | .version => 0
  | _ => 2

def Outcome.exitCode : Outcome → UInt32
  | refused e => e.exitCode
  | failed (.panicked _) => 101
  | failed _ => 1
  | done => 0

def versionText : String := "remux 0.1.0"

def usageText : String :=
  "Usage: remux [--config <FILE>] [-v] convert <INPUT> [-o <FILE>] [--serial <N>]"
    ++ " [--max-packets <N>] [--strict] [--all-tracks]\n"
    ++ "       remux [--config <FILE>] [-v] inspect <INPUT> [--json] [-o <FILE>]"

/-- The formats of option files as this program reads them. -/
def optionFormats : OptionFormats :=
  ⟨Options.readYaml?, Options.readJson?⟩

section
variable {m : Type → Type} [Monad m] [Host m]

def Invocation.run (i : Invocation) : ExceptT Failure m Unit :=
  match i.command with
  | .convert c => c.run optionFormats i.config
  | .inspect c => c.run optionFormats i.config

/-- Runs the words after the name of the program. -/
def run (words : List String) : m Outcome := do
  match Invocation.read words with
  | .error e => return .refused e
  | .ok i =>
    match ← (i.run (m := m)).run with
    | .ok () => return .done
    | .error f => return .failed f

end

end Transmux.CommandLine
