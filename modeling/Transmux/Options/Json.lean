import Transmux.Options.Reading
import Transmux.Json.Value
import Transmux.Json.Text

/-! Options in JSON: read from a record or a plain list, written as a record on one line. -/

namespace Transmux

namespace Json.Value

def whole (bound : Nat) : Value → Option Nat
  | number (some n) => if n < bound then some n else none
  | _ => none

def asText : Value → Option String
  | text s => s
  | _ => none

def asFlag : Value → Option Bool
  | flag b => some b
  | _ => none

/-- A policy is named by a text, or by the only member of a record that says no more. -/
def policy : Value → Option ParsePolicy
  | text (some name) => ParsePolicy.ofName? name
  | record [(some name, null)] => ParsePolicy.ofName? name
  | _ => none

def isPresent : Value → Option Bool
  | null => some false
  | _ => some true

def optionValues : OptionValues Value := ⟨whole, asText, asFlag, policy, isPresent⟩

end Json.Value

namespace Options

/-- A record whose names are all texts, or a plain list. -/
def ofJson? : Json.Value → Option Options
  | .record members =>
    let named (m : Option String × Json.Value) := m.1.map fun name => (name, m.2)
    (members.mapM named).bind (ofFields? Json.Value.optionValues)
  | .list items => ofList? Json.Value.optionValues items
  | _ => none

def readJson? (bs : Bytes) : Option Options :=
  (Json.Value.read? bs).bind ofJson?

def member (name value : String) : String :=
  Json.quoted name ++ ":" ++ value

/-- All fields in order; a serial only if there is one. -/
def json (o : Options) : String :=
  let members :=
    [member "max_packets_per_page" (toString o.maxPacketsPerPage),
      member "max_segments_per_page" (toString o.maxSegmentsPerPage),
      member "default_pre_skip" (toString o.defaultPreSkip.toNat),
      member "vendor" (Json.quoted o.vendor)]
    ++ (o.serial.map fun n => member "serial" (toString n.toNat)).toList
    ++ [member "parse_policy" (Json.quoted o.parsePolicy.name),
      member "filter_audio_track" (if o.filterAudioTrack then "true" else "false")]
  "\x7b" ++ String.intercalate "," members ++ "\x7d"

end Options

end Transmux
