import Transmux.Yaml.Scalar

/-! Text as YAML writes it: plain where it would read as the same text, else between quotes, or as
a block of lines. -/

namespace Transmux.Yaml

inductive Style where
  | plain
  | singleQuoted
  | doubleQuoted
  | literal
deriving DecidableEq

def isBreak (c : Char) : Bool :=
  c == '\n' || c == '\r' || c.toNat == 0x85 || c.toNat == 0x2028 || c.toNat == 0x2029

/-- Ends a word: a space, a tab, a break or the end of the text. -/
def isBlankOrEnd : Option Char → Bool
  | none => true
  | some c => c == ' ' || c == '\t' || isBreak c || c.toNat == 0

/-- Characters that may stand as themselves. -/
def isPrintable (c : Char) : Bool :=
  let n := c.toNat
  n == 0x0A || (0x20 ≤ n && n ≤ 0x7E) || (0xA0 ≤ n && n != 0xFEFF && n != 0xFFFE && n != 0xFFFF)

/-- What a text holds that keeps it from some styles. -/
structure Traits where
  /-- Something that would end a plain text or start something else. -/
  indicator : Bool := false
  special : Bool := false
  multiline : Bool := false
  edgeBlank : Bool := false
  trailingSpace : Bool := false
  breakSpace : Bool := false
  spaceBreak : Bool := false
deriving DecidableEq

namespace Traits

/-- Characters that start something else at the front of a plain text. -/
def isLeadingIndicator (c : Char) : Bool :=
  ['#', ',', '[', ']', '\x7b', '\x7d', '&', '*', '!', '|', '>', '\x27', '\x22', '%', '@',
    Char.ofNat 0x60].contains c

def indicates (previous : Option Char) (c : Char) (next : Option Char) : Bool :=
  match previous with
  | none => isLeadingIndicator c || ((c == '?' || c == ':' || c == '-') && isBlankOrEnd next)
  | some p => (c == ':' && isBlankOrEnd next) || (c == '#' && isBlankOrEnd (some p))

/-- The traits of what follows `previous`, added to those found before. -/
def scan (t : Traits) (previous : Option Char) : List Char → Traits
  | [] => t
  | c :: rest =>
    let space := c == ' '
    let edge := previous.isNone || rest.isEmpty
    scan
      { indicator := t.indicator || indicates previous c rest.head?
        special := t.special || !isPrintable c
        multiline := t.multiline || isBreak c
        edgeBlank := t.edgeBlank || ((space || isBreak c) && edge)
        trailingSpace := t.trailingSpace || (space && rest.isEmpty)
        breakSpace := t.breakSpace || (space && previous.any isBreak)
        spaceBreak := t.spaceBreak || (isBreak c && previous == some ' ') }
      (some c) rest

/-- Three hyphens or points at the front mark the bounds of documents. -/
def of (s : String) : Traits :=
  let cs := s.toList
  let bound := ['-', '-', '-'].isPrefixOf cs || ['.', '.', '.'].isPrefixOf cs
  scan { indicator := bound } none cs

def allowsPlain (t : Traits) : Bool :=
  !(t.edgeBlank || t.breakSpace || t.spaceBreak || t.special || t.multiline || t.indicator)

def allowsSingle (t : Traits) : Bool :=
  !(t.breakSpace || t.spaceBreak || t.special)

def allowsBlock (t : Traits) : Bool :=
  !(t.trailingSpace || t.spaceBreak || t.special)

end Traits

/-- Lines want a block; text that would read as something else wants quotes. -/
def Style.wanted (s : String) : Style :=
  if s.toList.contains '\n' then .literal
  else if Scalar.kind s != .text || Scalar.isZeroPadded s.toList then .singleQuoted
  else .plain

def Style.of (s : String) : Style :=
  let t := Traits.of s
  match Style.wanted s with
  | .literal => if t.allowsBlock then .literal else .doubleQuoted
  | .plain =>
    if t.allowsPlain then .plain else if t.allowsSingle then .singleQuoted else .doubleQuoted
  | _ => if t.allowsSingle then .singleQuoted else .doubleQuoted

/-- Hexadecimal digits, filled up with zeros. -/
def hexDigits (width n : Nat) : String :=
  let digits := (Nat.toDigits 16 n).map Char.toUpper
  String.ofList (List.replicate (width - digits.length) '0' ++ digits)

def escape (c : Char) : String :=
  match c.toNat with
  | 0x00 => "\\0"
  | 0x07 => "\\a"
  | 0x08 => "\\b"
  | 0x09 => "\\t"
  | 0x0A => "\\n"
  | 0x0B => "\\v"
  | 0x0C => "\\f"
  | 0x0D => "\\r"
  | 0x1B => "\\e"
  | 0x22 => "\\\""
  | 0x5C => "\\\\"
  | 0x85 => "\\N"
  | 0xA0 => "\\_"
  | 0x2028 => "\\L"
  | 0x2029 => "\\P"
  | n =>
    if n ≤ 0xFF then "\\x" ++ hexDigits 2 n
    else if n ≤ 0xFFFF then "\\u" ++ hexDigits 4 n
    else "\\U" ++ hexDigits 8 n

def doubleQuoted (s : String) : String :=
  let part (c : Char) : String :=
    if !isPrintable c || isBreak c || c == '\x22' || c == '\x5c' then escape c
    else String.singleton c
  "\"" ++ s.toList.foldl (fun out c => out ++ part c) "" ++ "\""

/-- Characters with an indentation of two after every break, blank lines apart. -/
def indented (write : Char → String) (afterBreak : Bool) (cs : List Char) : String × Bool :=
  cs.foldl
    (fun (out, afterBreak) c =>
      if isBreak c then (out ++ write c, true)
      else ((if afterBreak then out ++ "  " else out) ++ write c, false))
    ("", afterBreak)

def singleQuoted (s : String) : String :=
  let (text, afterBreak) :=
    indented (fun c => if c == '\x27' then "''" else String.singleton c) false s.toList
  "'" ++ text ++ (if afterBreak then "  " else "") ++ "'"

/-- The marks of a block: how deep it is, if its first line would not show it, and what its end
keeps of its line breaks. -/
def blockMarks (s : String) : String :=
  let cs := s.toList
  let depth := if cs.head?.any fun c => c == ' ' || isBreak c then "2" else ""
  let chomping := match cs.reverse with
    | c :: rest =>
      if !isBreak c then "-"
      else if rest.isEmpty || rest.head?.any isBreak then "+"
      else ""
    | [] => "-"
  depth ++ chomping

/-- A block of lines. It ends with a line break only if its text does. -/
def literal (s : String) : String :=
  "|" ++ blockMarks s ++ "\n" ++ (indented String.singleton true s.toList).1

/-- A text as the value of a member of a record. -/
def text (s : String) : String :=
  match Style.of s with
  | .plain => s
  | .singleQuoted => singleQuoted s
  | .doubleQuoted => doubleQuoted s
  | .literal => literal s

end Transmux.Yaml
