import Transmux.Yaml.Token

/-! The nodes of a YAML document. An alias is a number, since the node that it stands for may be one
that it is part of, or one that is anchored later on. -/

namespace Transmux.Yaml

/-- A scalar of a document. -/
structure Leaf where
  tag : Option Bytes
  form : ScalarForm
  text : String
deriving DecidableEq

inductive Node where
  | leaf (l : Leaf)
  | alias (number : Nat)
  | list (tag : Option Bytes) (items : List Node)
  | record (tag : Option Bytes) (members : List (Node × Node))
deriving Inhabited

/-- A node of which nothing is written. -/
def Node.empty : Node :=
  .leaf ⟨none, .plain, ""⟩

/-- What anchors name: a number for every name, and for every number the scalar that was anchored
last with it, or nothing for a collection. -/
structure Anchors where
  numbers : List (String × Nat) := []
  leaves : List (Nat × Option Leaf) := []

/-- Anchors the node that begins here. Its number is how many different names there are so far, so
that a name which comes again shares its number with the next new one. -/
def Anchors.add (a : Anchors) (name : String) (leaf : Option Leaf) : Anchors :=
  let number := a.numbers.length
  { numbers := (name, number) :: a.numbers.filter fun (old, _) => old ≠ name
    leaves := (number, leaf) :: a.leaves }

end Transmux.Yaml
