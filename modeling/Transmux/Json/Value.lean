import Transmux.Json.Token

/-! JSON values, read from their tokens. Records keep the order of their members and may repeat a
name. A name may be a string that spells no text. -/

namespace Transmux.Json

inductive Value where
  | null
  | flag (b : Bool)
  | number (whole : Option Nat)
  | text (content : Option String)
  | list (items : List Value)
  | record (members : List (Option String × Value))
deriving Inhabited

/-- A collection that is not closed yet, with what it holds so far, last first. -/
inductive Open where
  | list (items : List Value)
  | record (members : List (Option String × Value)) (name : Option String)

/-- What may come next. -/
inductive Expected where
  /-- A value, or the end of the list just opened. -/
  | itemOrEnd
  | value
  /-- A comma, or the end of what is open. -/
  | more
  /-- A name, or the end of the record just opened. -/
  | nameOrEnd
  | name
  | colon (name : Option String)

/-- The reading so far: the collections around the place, what may come next, and the value that is
complete once nothing is open. -/
structure Reading where
  outer : List Open := []
  expected : Expected := .value
  result : Option Value := none

namespace Reading

/-- A value is complete: it goes into the innermost open collection. -/
def put (r : Reading) (v : Value) : Option Reading :=
  match r.outer with
  | [] => some { r with result := some v, expected := .more }
  | .list items :: outer => some { r with outer := .list (v :: items) :: outer, expected := .more }
  | .record members name :: outer =>
    some { r with
      outer := .record ((name, v) :: members) name :: outer
      expected := .more }

def startRecord (r : Reading) : Reading :=
  { r with outer := .record [] none :: r.outer, expected := .nameOrEnd }

def startList (r : Reading) : Reading :=
  { r with outer := .list [] :: r.outer, expected := .itemOrEnd }

/-- A token that starts a value. -/
def takeValue (r : Reading) : Token → Option Reading
  | .openList => some r.startList
  | .openRecord => some r.startRecord
  | .null => r.put .null
  | .flag b => r.put (.flag b)
  | .number whole => r.put (.number whole)
  | .text content => r.put (.text content)
  | _ => none

def closeList (r : Reading) : Option Reading :=
  match r.outer with
  | .list items :: outer => { r with outer := outer }.put (.list items.reverse)
  | _ => none

def closeRecord (r : Reading) : Option Reading :=
  match r.outer with
  | .record members _ :: outer => { r with outer := outer }.put (.record members.reverse)
  | _ => none

def takeComma (r : Reading) : Option Reading :=
  match r.outer with
  | [] => none
  | .list _ :: _ => some { r with expected := .value }
  | .record _ _ :: _ => some { r with expected := .name }

/-- What follows a name belongs to it. -/
def nameMember (r : Reading) (name : Option String) : Option Reading :=
  match r.outer with
  | .record members _ :: outer =>
    some { r with outer := .record members name :: outer, expected := .value }
  | _ => none

def step (r : Reading) (t : Token) : Option Reading :=
  match r.expected, t with
  | .itemOrEnd, .closeList => r.closeList
  | .itemOrEnd, t | .value, t => r.takeValue t
  | .more, .closeList => r.closeList
  | .more, .closeRecord => r.closeRecord
  | .more, .comma => r.takeComma
  | .more, _ => none
  | .nameOrEnd, .closeRecord => r.closeRecord
  | .nameOrEnd, .text name | .name, .text name => some { r with expected := .colon name }
  | .nameOrEnd, _ | .name, _ => none
  | .colon name, .colon => r.nameMember name
  | .colon _, _ => none

end Reading

/-- The value of a whole text. -/
def Value.ofTokens? (tokens : List Token) : Option Value :=
  (tokens.foldlM Reading.step {}).bind fun r => if r.outer.isEmpty then r.result else none

def Value.read? (bs : Bytes) : Option Value :=
  (tokens? bs).bind ofTokens?

end Transmux.Json
