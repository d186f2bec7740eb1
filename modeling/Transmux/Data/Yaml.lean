import Transmux.Data.Value
import Transmux.Yaml.Text

/-! Data as YAML in block style. A list inside a record is no deeper than the record. -/

namespace Transmux.Data

namespace Value

/-- How a value stands after the name or the hyphen that it belongs to. -/
inductive Placed where
  | inline (s : String)
  /-- Lines of a list, or of a record. -/
  | items (lines : List String)
  | members (lines : List String)

def deeper (lines : List String) : List String :=
  lines.map fun s => if s.isEmpty then s else "  " ++ s

def lineOfMember (name : String) : Placed → List String
  | .inline s => [name ++ ": " ++ s]
  | .items lines => (name ++ ":") :: lines
  | .members lines => (name ++ ":") :: deeper lines

def lineOfItem : Placed → List String
  | .inline s => ["- " ++ s]
  | .items lines | .members lines =>
    match deeper lines with
    | [] => ["-"]
    | _ :: rest => ("- " ++ lines.headD "") :: rest

mutual

def place : Value → Placed
  | null => .inline "null"
  | flag b => .inline (if b then "true" else "false")
  | number s => .inline s
  | text s => .inline (Yaml.text s)
  | list [] => .inline "[]"
  | list (v :: rest) => .items (lineOfItem (place v) ++ yamlItems rest)
  | record [] => .inline "\x7b\x7d"
  | record ((name, v) :: rest) => .members (lineOfMember name (place v) ++ yamlMembers rest)

def yamlItems : List Value → List String
  | [] => []
  | v :: rest => lineOfItem (place v) ++ yamlItems rest

def yamlMembers : List (String × Value) → List String
  | [] => []
  | (name, v) :: rest => lineOfMember name (place v) ++ yamlMembers rest

end

/-- A line with its break, if it does not end with one. -/
def endLine (s : String) : String :=
  if s.toList.getLast?.any Yaml.isBreak then s else s ++ "\n"

def yaml (v : Value) : String :=
  let lines := match place v with
    | .inline s => [s]
    | .items lines | .members lines => lines
  lines.foldl (fun out s => out ++ endLine s) ""

end Value

end Transmux.Data
