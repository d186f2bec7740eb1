import Transmux.Options.Basic
import Transmux.Bytes
import Transmux.File.Error
import Transmux.File.Path

/-! Options from files, in a format that the name of the file tells or that has to be tried. -/

namespace Transmux

inductive OptionsError where
  | unreadable (cause : FileError)
  | badYaml
  | badJson
  /-- The data is neither. -/
  | badFile
deriving DecidableEq

namespace OptionsError

/-- What went wrong, and what caused it. -/
def chain : OptionsError → List String
  | unreadable e => ["failed to read file: " ++ e.message, e.message]
  | badYaml => ["failed to parse YAML"]
  | badJson => ["failed to parse JSON"]
  | badFile => ["failed to parse file (tried YAML and JSON)"]

end OptionsError

/-- How data reads as options in each of the two formats. -/
structure OptionFormats where
  yaml? : Bytes → Option Options
  json? : Bytes → Option Options

/-- Reads options by the extension of their file, in capitals or not; without a known one, as YAML
and then as JSON. -/
def OptionFormats.readFile (formats : OptionFormats) (path : String) (data : Bytes) :
    Except OptionsError Options :=
  let orElse (e : OptionsError) (o : Option Options) := o.elim (.error e) .ok
  match (FilePath.extension? path).map String.toLower with
  | some "yaml" | some "yml" => orElse .badYaml (formats.yaml? data)
  | some "json" => orElse .badJson (formats.json? data)
  | _ => orElse .badFile ((formats.yaml? data).or (formats.json? data))

end Transmux
