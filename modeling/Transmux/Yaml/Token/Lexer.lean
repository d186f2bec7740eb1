import Transmux.Yaml.Token
import Transmux.Yaml.Token.Scan

/-! A text split into tokens. That a scalar or a collection is the name of a member only shows at
the colon after it; the places where a name may have begun are kept until then. -/

namespace Transmux.Yaml

/-- A place where the name of a member may have begun. -/
structure NameStart where
  /-- Tokens before it. -/
  position : Nat
  /-- Nothing but a name can stand there. -/
  required : Bool
  index : Nat
  line : Nat
  column : Nat

structure Lexer where
  cursor : Cursor
  /-- Tokens so far, last first, and their number. -/
  tokens : List Token := []
  count : Nat := 0
  /-- Columns of the open blocks, innermost first. -/
  columns : List Nat := []
  /-- The name start of each level of brackets, innermost first. -/
  starts : List (Option NameStart) := [none]
  nameAllowed : Bool := true

namespace Lexer

/-- Inside brackets indentation does not count. -/
def inFlow (x : Lexer) : Bool :=
  !x.starts.tail.isEmpty

/-- The column of the innermost block, or one to the left of all columns. -/
def indent (x : Lexer) : Int :=
  x.columns.head?.elim (-1) fun n => n

def push (x : Lexer) (t : Token) : Lexer :=
  { x with tokens := t :: x.tokens, count := x.count + 1 }

/-- Puts a token after the first `position` ones. -/
def insert (x : Lexer) (position : Nat) (t : Token) : Lexer :=
  let later := x.count - position
  { x with
    tokens := x.tokens.take later ++ t :: x.tokens.drop later
    count := x.count + 1 }

def skip (x : Lexer) (n : Nat) : Lexer :=
  { x with cursor := x.cursor.skip n }

def allow (x : Lexer) (nameAllowed : Bool) : Lexer :=
  { x with nameAllowed := nameAllowed }

def setStart (x : Lexer) (s : Option NameStart) : Lexer :=
  { x with starts := s :: x.starts.tail }

/-- Gives up the name start of this level. -/
def dropStart (x : Lexer) : Option Lexer :=
  if (x.starts.head?.join).any NameStart.required then none else some (x.setStart none)

/-- Keeps this place as one where a name may begin. -/
def keepStart (x : Lexer) : Option Lexer :=
  if x.nameAllowed then do
    let required := !x.inFlow && x.indent == x.cursor.column
    let x ← x.dropStart
    let c := x.cursor
    some (x.setStart (some ⟨x.count, required, c.index, c.line, c.column⟩))
  else some x

/-- A name ends in the line where it begins, within 1024 bytes. -/
def reaches (s : NameStart) (c : Cursor) : Bool :=
  s.line = c.line && c.index ≤ s.index + 1024

/-- Opens a block if this column is deeper than those of the open ones. -/
def openBlock (x : Lexer) (column : Nat) (position : Option Nat) (t : Token) : Lexer :=
  if x.inFlow || column ≤ x.indent then x
  else
    let x := { x with columns := column :: x.columns }
    position.elim (x.push t) fun p => x.insert p t

/-- Closes the blocks that are deeper than a column. -/
def closeBlocks (x : Lexer) (column : Int) : Lexer :=
  if x.inFlow then x
  else
    let deeper := x.columns.takeWhile fun n => column < Int.ofNat n
    deeper.foldl (fun x _ => x.push .closeBlock)
      { x with columns := x.columns.drop deeper.length }

/-- Ends all blocks before something that stands outside of them. -/
def leaveBlocks (x : Lexer) : Option Lexer :=
  (x.closeBlocks (-1)).dropStart.map fun x => x.allow false

/-- Skips blanks, comments and line breaks, and a byte order mark in front of a line. A tab may not
stand where indentation is read. -/
def skipBlanks : (fuel : Nat) → Lexer → Lexer
  | 0, x => x
  | fuel + 1, x =>
    let c := if x.cursor.column == 0 && x.cursor.isAt (Char.ofNat 0xFEFF) then x.cursor.skip 1
      else x.cursor
    let tabs := x.inFlow || !x.nameAllowed
    let c := (c.takeWhile fun ch => ch == ' ' || (tabs && ch == '\t')).2.dropComment
    if c.isAtBreak then
      skipBlanks fuel { x with cursor := c.skipLine, nameAllowed := x.nameAllowed || !x.inFlow }
    else { x with cursor := c }

def openBracket (x : Lexer) (t : Token) : Option Lexer :=
  x.keepStart.map fun x => ({ x with starts := none :: x.starts }.allow true).push t |>.skip 1

def closeBracket (x : Lexer) (t : Token) : Option Lexer :=
  x.dropStart.map fun x =>
    let x := if x.inFlow then { x with starts := x.starts.tail } else x
    ((x.allow false).push t).skip 1

def comma (x : Lexer) : Option Lexer :=
  x.dropStart.map fun x => ((x.allow true).push .comma).skip 1

def item (x : Lexer) : Option Lexer :=
  if !x.inFlow && !x.nameAllowed then none
  else
    (x.openBlock x.cursor.column none .openBlockList).dropStart.map fun x =>
      ((x.allow true).push .item).skip 1

def name (x : Lexer) : Option Lexer :=
  if !x.inFlow && !x.nameAllowed then none
  else
    (x.openBlock x.cursor.column none .openBlockRecord).dropStart.map fun x =>
      ((x.allow (!x.inFlow)).push .name).skip 1

/-- A colon makes a name of what began at the name start, if there is one that reaches so far. -/
def value (x : Lexer) : Option Lexer :=
  match x.starts.head?.join.filter fun s => reaches s x.cursor with
  | some s =>
    let x := (x.insert s.position .name).openBlock s.column (some s.position) .openBlockRecord
    some ((((x.setStart none).allow false).push .value).skip 1)
  | none =>
    if !x.inFlow && !x.nameAllowed then none
    else x.dropStart.map fun x =>
      let x := x.openBlock x.cursor.column none .openBlockRecord
      ((x.allow (!x.inFlow)).push .value).skip 1

/-- A token that may begin a name, read by `scan` after `n` characters. -/
def named {α : Type} (x : Lexer) (n : Nat) (scan : Cursor → Option (α × Cursor))
    (make : α → Token) : Option Lexer := do
  let x ← x.keepStart
  let (a, c) ← scan (x.cursor.skip n)
  some ({ x with cursor := c, nameAllowed := false }.push (make a))

def anchor (x : Lexer) (make : String → Token) : Option Lexer :=
  x.named 1 Scan.anchorName make

def tag (x : Lexer) (fuel : Nat) : Option Lexer := do
  let flow := x.inFlow
  let scan (c : Cursor) : Option ((String × Bytes) × Cursor) := do
    let (handle, suffix, c) ← Scan.tag fuel c
    if c.isBlankOrEndAt 0 || (flow && c.isAt ',') then some ((handle, suffix), c) else none
  x.named 0 scan fun t => .tag t.1 t.2

def block (x : Lexer) (folded : Bool) (fuel : Nat) : Option Lexer := do
  let x ← x.dropStart
  let (text, c) ← Scan.block folded x.indent fuel (x.cursor.skip 1)
  let form := if folded then ScalarForm.other else .literal
  some (({ x with cursor := c }.allow true).push (.scalar form (String.ofList text)))

def quoted (x : Lexer) (double : Bool) (fuel : Nat) : Option Lexer :=
  x.named 1 (Scan.quoted double [] fuel) fun text => .scalar .other (String.ofList text)

def plain (x : Lexer) (fuel : Nat) : Option Lexer := do
  let x ← x.keepStart
  let (text, broken, c) ← Scan.plain x.inFlow (x.indent + 1).toNat [] {} fuel x.cursor
  some (({ x with cursor := c }.allow broken).push (.scalar .plain (String.ofList text)))

def isNumber (cs : List Char) : Bool :=
  !cs.isEmpty && cs.length ≤ 9 && cs.all Char.isDigit

/-- A directive after its sign: the version of the language, or the expansion of a tag handle. -/
def directive (fuel : Nat) (c : Cursor) : Option (Token × Cursor) := do
  let (word, c) := c.takeWhile isWordChar
  if word.isEmpty || !c.isBlankOrEndAt 0 then none
  else
    let blank (ch : Char) := ch == ' ' || ch == '\t'
    let c := (c.takeWhile blank).2
    if word = "YAML".toList then
      let (major, c) := c.takeWhile Char.isDigit
      if !(isNumber major && c.isAt '.') then none
      else
        let (minor, c) := (c.skip 1).takeWhile Char.isDigit
        let known := isNumber minor && Scalar.number? 10 major == some 1
          && (Scalar.number? 10 minor).any fun n => n == 1 || n == 2
        if known then (c.endLine?).map fun c => (.version, c) else none
    else if word = "TAG".toList then
      if !c.isAt '!' then none
      else
        let (inner, d) := (c.skip 1).takeWhile isWordChar
        if !(d.isAt '!' || inner.isEmpty) then none
        else
          let d := if d.isAt '!' then d.skip 1 else d
          let handle := String.ofList (c.rest.take (d.index - c.index))
          let (between, d) := d.takeWhile blank
          let (expansion, any, d) ← Scan.tagUpToZero true fuel d
          if between.isEmpty || !any || !d.isBlankOrEndAt 0 then none
          else (d.endLine?).map fun c => (.handle handle expansion, c)
    else none

def takeDirective (x : Lexer) (fuel : Nat) : Option Lexer := do
  let x ← x.leaveBlocks
  let (t, c) ← directive fuel (x.cursor.skip 1)
  some ({ x with cursor := c }.push t)

def documentBound (x : Lexer) (t : Token) : Option Lexer :=
  x.leaveBlocks.map fun x => (x.push t).skip 3

/-- Whether a character starts a plain scalar, given the one after it. -/
def startsPlain (flow : Bool) (c : Char) (next : Option Char) : Bool :=
  let mark := ['-', '?', ':', '#', '&', '*', '!', '|', '>', '\x27', '\x22', '%', '@',
    Char.ofNat 0x60].contains c || Scan.isFlowMark c
  !(mark || isBlankOrEnd (some c)) || (c == '-' && next != some ' ' && next != some '\t')
    || (!flow && (c == '?' || c == ':') && !isBlankOrEnd next)

/-- Reads the token that starts at a character; `fuel` of one more than the length of the rest is
enough. -/
def takeAt (x : Lexer) (ch : Char) (fuel : Nat) : Option Lexer :=
  let c := x.cursor
  let free := x.inFlow || c.isBlankOrEndAt 1
  if c.column == 0 && ch == '%' then x.takeDirective fuel
  else if c.isAtDocumentBound then
    x.documentBound (if ch == '-' then .documentStart else .documentEnd)
  else if ch == '[' then x.openBracket .openList
  else if ch == '\x7b' then x.openBracket .openRecord
  else if ch == ']' then x.closeBracket .closeList
  else if ch == '\x7d' then x.closeBracket .closeRecord
  else if ch == ',' then x.comma
  else if ch == '-' && c.isBlankOrEndAt 1 then x.item
  else if ch == '?' && free then x.name
  else if ch == ':' && free then x.value
  else if ch == '*' then x.anchor .alias
  else if ch == '&' then x.anchor .anchor
  else if ch == '!' then x.tag fuel
  else if ch == '|' && !x.inFlow then x.block false fuel
  else if ch == '>' && !x.inFlow then x.block true fuel
  else if ch == '\x27' then x.quoted false fuel
  else if ch == '\x22' then x.quoted true fuel
  else if startsPlain x.inFlow ch (c.peek 1) then x.plain fuel
  else none

/-- Reads tokens to the end of the text. Each takes a character, so that `fuel` of one more than the
text's length is enough, and what is left of it is enough for every token. -/
def run : (fuel : Nat) → Lexer → Option (List Token)
  | 0, _ => none
  | fuel + 1, x => do
    let x := x.skipBlanks (fuel + 1)
    let x := x.closeBlocks x.cursor.column
    match x.cursor.rest with
    | [] => (x.leaveBlocks).map fun x => x.tokens.reverse
    | ch :: _ => run fuel (← x.takeAt ch (fuel + 1))

end Lexer

/-- Characters that a text may hold. -/
def isTextChar (c : Char) : Bool :=
  let n := c.toNat
  n == 0x09 || n == 0x0A || n == 0x0D || (0x20 ≤ n && n ≤ 0x7E) || n == 0x85
    || (0xA0 ≤ n && n != 0xFFFE && n != 0xFFFF)

/-- The tokens of a text. -/
def tokens? (text : String) : Option (List Token) :=
  let cs := text.toList
  if cs.all isTextChar then Lexer.run (cs.length + 1) { cursor := ⟨cs, 0, 0, 0⟩ } else none

end Transmux.Yaml
