import Transmux.Yaml.Text

/-! Places in a YAML text, and the blanks and line breaks between its words. -/

namespace Transmux.Yaml

/-- A place in a text and what follows it. Its index counts bytes, its column characters. -/
structure Cursor where
  rest : List Char
  index : Nat := 0
  line : Nat := 0
  column : Nat := 0

/-- Bytes of some characters. -/
def width (cs : List Char) : Nat :=
  cs.foldl (fun n c => n + c.utf8Size) 0

namespace Cursor

def peek (c : Cursor) (n : Nat) : Option Char :=
  c.rest[n]?

def isAt (c : Cursor) (ch : Char) : Bool :=
  c.peek 0 == some ch

def skip (c : Cursor) (n : Nat) : Cursor :=
  { c with
    rest := c.rest.drop n
    index := c.index + width (c.rest.take n)
    column := c.column + n }

/-- Skips one line break, which may be two characters. -/
def skipLine (c : Cursor) : Cursor :=
  let n := match c.rest with
    | '\r' :: '\n' :: _ => 2
    | _ => 1
  { c.skip n with line := c.line + 1, column := 0 }

def isAtBlank (c : Cursor) : Bool :=
  c.isAt ' ' || c.isAt '\t'

def isAtBreak (c : Cursor) : Bool :=
  (c.peek 0).any isBreak

def isBlankOrEndAt (c : Cursor) (n : Nat) : Bool :=
  isBlankOrEnd (c.peek n)

/-- Three hyphens or points alone at the start of a line. -/
def isAtDocumentBound (c : Cursor) : Bool :=
  c.column == 0 && (c.rest.take 3 == ['-', '-', '-'] || c.rest.take 3 == ['.', '.', '.'])
    && c.isBlankOrEndAt 3

def takeWhile (c : Cursor) (p : Char → Bool) : List Char × Cursor :=
  let front := c.rest.takeWhile p
  (front, c.skip front.length)

def dropComment (c : Cursor) : Cursor :=
  if c.isAt '#' then (c.takeWhile fun ch => !isBreak ch).2 else c

/-- Skips blanks and a comment, after which the line has to end. -/
def endLine? (c : Cursor) : Option Cursor :=
  let c := (c.takeWhile fun ch => ch == ' ' || ch == '\t').2.dropComment
  if c.rest.isEmpty then some c else if c.isAtBreak then some c.skipLine else none

end Cursor

/-- A line break as part of a text. -/
def breakChar (c : Char) : Char :=
  if c.toNat == 0x2028 || c.toNat == 0x2029 then c else '\n'

/-- What stands between two words: blanks, or line breaks with the blanks around them left out. All
parts have their last character first. -/
structure Gap where
  broken : Bool := false
  blanks : List Char := []
  first : List Char := []
  more : List Char := []

namespace Gap

/-- The text of a gap, last character first. A single line break reads as a space, of several the
first is left out. -/
def backwards (g : Gap) : List Char :=
  if !g.broken then g.blanks
  else if g.first == ['\n'] then if g.more.isEmpty then [' '] else g.more
  else g.more ++ g.first

/-- Takes blanks and breaks. A tab may not stand in the indentation before a column. -/
def take (g : Gap) (column : Nat) : (fuel : Nat) → Cursor → Option (Gap × Cursor)
  | 0, c => some (g, c)
  | fuel + 1, c =>
    match c.rest with
    | [] => some (g, c)
    | ch :: _ =>
      if ch == ' ' || ch == '\t' then
        if g.broken && c.column < column && ch == '\t' then none
        else if g.broken then take g column fuel (c.skip 1)
        else take { g with blanks := ch :: g.blanks } column fuel (c.skip 1)
      else if isBreak ch then
        if g.broken then take { g with more := breakChar ch :: g.more } column fuel c.skipLine
        else take { g with broken := true, blanks := [], first := [breakChar ch] } column fuel
          c.skipLine
      else some (g, c)

end Gap

end Transmux.Yaml
