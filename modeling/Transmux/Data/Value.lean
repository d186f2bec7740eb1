/-! Data to be written out in one format or another. -/

namespace Transmux.Data

inductive Value where
  | null
  | flag (b : Bool)
  /-- A number by its text, which is the same in every format. -/
  | number (text : String)
  | text (s : String)
  | list (items : List Value)
  | record (members : List (String × Value))

def Value.nat (n : Nat) : Value :=
  .number (toString n)

def Value.int (n : Int) : Value :=
  .number (toString n)

/-- A value that may be missing. -/
def Value.option {α : Type} (f : α → Value) (a : Option α) : Value :=
  a.elim .null f

end Transmux.Data
