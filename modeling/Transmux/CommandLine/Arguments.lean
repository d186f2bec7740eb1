/-! Command lines: words read as switches, values and names, as a grammar allows them. -/

namespace Transmux.CommandLine

/-- Why the words of a command line do not make a command. The first three ask for help or for the
version. -/
inductive UsageError where
  | help
  | version
  | helpForWantOfCommand
  | missingCommand
  | unknownCommand
  | missingArgument
  | unknownArgument
  /-- A switch that wants a value and has none. -/
  | missingValue
  | unwantedValue
  | invalidValue
  /-- A switch that stands twice. -/
  | repeated
deriving DecidableEq

/-- What a switch does. -/
inductive Effect where
  | set
  /-- Takes a value that passes a test. -/
  | take (accepts : String → Bool)
  | help
  | version

structure Switch where
  name : String
  letter : Option Char := none
  effect : Effect

structure Grammar where
  switches : List Switch
  /-- Whether one word may stand without a switch. -/
  takesInput : Bool
  commands : List String

/-- The switches that were found, with their values, and the word that goes with none. -/
structure Findings where
  switches : List (String × Option String) := []
  input : Option String := none
deriving DecidableEq

namespace Findings

def has (f : Findings) (name : String) : Bool :=
  (f.switches.lookup name).isSome

def value? (f : Findings) (name : String) : Option String :=
  (f.switches.lookup name).join

end Findings

/-- A reading of words. A switch that wants a value is judged only when the next known one follows
or the words end. -/
structure Reading where
  found : Findings := {}
  pending : Option (Switch × Option String) := none
  /-- After two hyphens no word is a switch. -/
  plain : Bool := false

namespace Reading

def judge (r : Reading) (s : Switch) (value : Option String) : Except UsageError Reading :=
  let add : Except UsageError Reading :=
    if r.found.has s.name then .error .repeated
    else .ok { r with found := { r.found with switches := (s.name, value) :: r.found.switches } }
  match s.effect, value with
  | .help, _ => .error .help
  | .version, _ => .error .version
  | .set, _ => add
  | .take _, none => .error .missingValue
  | .take accepts, some v =>
    match add with
    | .error e => .error e
    | .ok r => if accepts v then .ok r else .error .invalidValue

/-- Judges the switch that is pending. -/
def settle (r : Reading) : Except UsageError Reading :=
  match r.pending with
  | none => .ok r
  | some (s, value) => judge { r with pending := none } s value

/-- Whether the next word belongs to the pending switch. -/
def wantsValue (r : Reading) : Bool :=
  match r.pending with
  | some (_, none) => true
  | _ => false

/-- A known switch, perhaps with a value in the same word. -/
def takeSwitch (r : Reading) (s : Switch) (attached : Option String) :
    Except UsageError Reading := do
  match s.effect, attached with
  | .take _, none => return { ← r.settle with pending := some (s, none) }
  | .take _, some v => (← r.settle).judge s (some v)
  | _, some _ => .error .unwantedValue
  | _, none => (← r.settle).judge s none

/-- A word after two hyphens: a name, and after an equals sign a value. -/
def takeLong (g : Grammar) (r : Reading) (word : List Char) : Except UsageError Reading :=
  let name := word.takeWhile (· ≠ '=')
  let attached := match word.drop name.length with
    | [] => none
    | _ :: value => some (String.ofList value)
  match g.switches.find? fun s => s.name == String.ofList name with
  | none => .error .unknownArgument
  | some s => r.takeSwitch s attached

/-- Letters after one hyphen, of which the first that wants a value takes the rest as its value. -/
def takeShort (g : Grammar) (r : Reading) : List Char → Except UsageError Reading
  | [] => .ok r
  | c :: rest =>
    match g.switches.find? fun s => s.letter == some c with
    | none => .error .unknownArgument
    | some s =>
      match s.effect with
      | .take _ =>
        let value := match rest with
          | '=' :: value => some value
          | [] => none
          | _ => some rest
        r.takeSwitch s (value.map String.ofList)
      | _ => do takeShort g (← r.takeSwitch s none) rest

/-- A word that is no switch. -/
def takeWord (g : Grammar) (r : Reading) (word : String) : Except UsageError Reading :=
  if r.wantsValue && !r.plain then
    .ok { r with pending := r.pending.map fun (s, _) => (s, some word) }
  else if g.takesInput && r.found.input.isNone then do
    let r ← r.settle
    return { r with found := { r.found with input := some word } }
  else if !g.takesInput && !(r.plain && g.commands.contains word) then .error .unknownCommand
  else .error .unknownArgument

/-- What a reading comes to: it ends, or a command follows with words of its own. What is pending
then is judged after those. -/
inductive End where
  | finished (found : Findings)
  | command (before : Reading) (name : String) (words : List String)

def read (g : Grammar) (r : Reading) : List String → Except UsageError End
  | [] => do return .finished (← r.settle).found
  | word :: rest =>
    if r.plain then do read g (← r.takeWord g word) rest
    else if g.commands.contains word && !r.wantsValue then .ok (.command r word rest)
    else
      match word.toList with
      | ['-', '-'] => read g { r with plain := true } rest
      | '-' :: '-' :: long => do read g (← r.takeLong g long) rest
      | '-' :: c :: short => do read g (← r.takeShort g (c :: short)) rest
      | _ => do read g (← r.takeWord g word) rest

end Reading

end Transmux.CommandLine
