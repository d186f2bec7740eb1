import Transmux.Options.Reading
import Transmux.Yaml.Document

/-! Options in YAML. Numbers and truth values stand without quotes; any scalar is text. -/

namespace Transmux

namespace Yaml.Leaf

/-- The tag of a kind of scalars that the language knows. -/
def kindTag (kind : String) : Bytes :=
  Utf8.encode ("tag:yaml.org,2002:" ++ kind)

/-- Whether a scalar may read as something else than text: as plain, or as a block of a kind. -/
def isOf (kind : String) (l : Leaf) : Bool :=
  match l.form with
  | .plain => true
  | .literal => l.tag == some (kindTag kind)
  | .other => false

def whole (bound : Nat) (l : Leaf) : Option Nat :=
  if l.isOf "int" then (Scalar.unsigned? l.text.toList).filter fun n => n < bound else none

def asFlag (l : Leaf) : Option Bool :=
  if l.isOf "bool" then Scalar.flag? l.text else none

/-- The name in a tag of one's own. -/
def tagName? (l : Leaf) : Option String :=
  match l.tag with
  | some (0x21 :: name) => Utf8.decode? name
  | _ => none

/-- A policy is named by a scalar, or by a tag of one's own on nothing. -/
def policy (l : Leaf) : Option ParsePolicy :=
  match l.tagName? with
  | some name =>
    if l.form = .plain && Scalar.isNull l.text then ParsePolicy.ofName? name else none
  | none => ParsePolicy.ofName? l.text

/-- Plain scalars without a tag may be nothing. What is tagged as nothing has to be a word for
it. -/
def isPresent (l : Leaf) : Option Bool :=
  if l.form ≠ .plain then some true
  else
    match l.tag with
    | none => some (!Scalar.isNull l.text)
    | some tag =>
      if tag ≠ kindTag "null" then some true
      else if Scalar.isNull l.text && l.text ≠ "" then some false
      else none

/-- Options are scalars; a collection is none of their values. -/
def optionValues : OptionValues (Option Leaf) where
  whole bound value := value.bind (whole bound)
  text value := value.map text
  flag value := value.bind asFlag
  policy value := value.bind policy
  isPresent value := value.bind isPresent

end Yaml.Leaf

namespace Options

/-- A record whose names are all scalars, or nothing at all. -/
def ofYaml? : Option Yaml.Document → Option Options
  | none => some {}
  | some d =>
    match d.root with
    | .record _ members =>
      let named (m : Yaml.Node × Yaml.Node) := (d.leaf? m.1).map fun l => (l.text, d.leaf? m.2)
      (members.mapM named).bind (ofFields? Yaml.Leaf.optionValues)
    | .leaf l => if l.form = .plain && l.text.isEmpty then some {} else none
    | _ => none

def readYaml? (bytes : Bytes) : Option Options :=
  (Yaml.Document.read? bytes).bind ofYaml?

end Options

end Transmux
