import Transmux.Data.Value
import Transmux.Json.Text

/-! Data as JSON over several lines, each level two spaces deeper. -/

namespace Transmux.Data

namespace Value

/-- Lines between brackets, or the brackets alone. -/
def bracketed (opening closing indent : String) (lines : List String) : String :=
  if lines.isEmpty then opening ++ closing
  else opening ++ "\n" ++ String.intercalate ",\n" lines ++ "\n" ++ indent ++ closing

mutual

def jsonAt (indent : String) : Value → String
  | null => "null"
  | flag b => if b then "true" else "false"
  | number s => s
  | text s => Json.quoted s
  | list items => bracketed "[" "]" indent (jsonItems (indent ++ "  ") items)
  | record members => bracketed "\x7b" "\x7d" indent (jsonMembers (indent ++ "  ") members)

def jsonItems (indent : String) : List Value → List String
  | [] => []
  | v :: rest => (indent ++ jsonAt indent v) :: jsonItems indent rest

def jsonMembers (indent : String) : List (String × Value) → List String
  | [] => []
  | (name, v) :: rest =>
    (indent ++ Json.quoted name ++ ": " ++ jsonAt indent v) :: jsonMembers indent rest

end

def json (v : Value) : String :=
  jsonAt "" v

end Value

end Transmux.Data
