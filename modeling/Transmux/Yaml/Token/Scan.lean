import Transmux.Text.Utf8
import Transmux.Yaml.Cursor

/-! The tokens that take more than one character: scalars of every style, anchors and tags. -/

namespace Transmux.Yaml

/-- Characters of anchors, handles and directives. -/
def isWordChar (c : Char) : Bool :=
  c.isAlphanum || c == '_' || c == '-'

namespace Scan

def isFlowMark (c : Char) : Bool :=
  [',', '[', ']', '\x7b', '\x7d'].contains c

/-- Length of a word of a plain scalar, of which `n` characters are known. -/
def wordLength (flow : Bool) (n : Nat) : List Char → Option Nat
  | [] => some n
  | c :: rest =>
    if isBlankOrEnd (some c) then some n
    else if flow && c == ':' && rest.head?.any fun d => d == '?' || isFlowMark d then none
    else if (c == ':' && isBlankOrEnd rest.head?) || (flow && isFlowMark c) then some n
    else wordLength flow (n + 1) rest

/-- A plain scalar, and whether a line break ended it. Its words are added to those `seen`, last
character first; `fuel` of one more than the length of the rest is enough. -/
def plain (flow : Bool) (indent : Nat) (seen : List Char) (gap : Gap) :
    (fuel : Nat) → Cursor → Option (List Char × Bool × Cursor)
  | 0, c => some (seen.reverse, gap.broken, c)
  | fuel + 1, c =>
    if c.isAtDocumentBound || c.isAt '#' then some (seen.reverse, gap.broken, c)
    else do
      let n ← wordLength flow 0 c.rest
      let (seen, gap) :=
        if n = 0 then (seen, gap)
        else ((c.rest.take n).reverse ++ (gap.backwards ++ seen), {})
      let c := c.skip n
      if !(c.isAtBlank || c.isAtBreak) then some (seen.reverse, gap.broken, c)
      else
        let (gap, c) ← gap.take indent fuel c
        if !flow && c.column < indent then some (seen.reverse, gap.broken, c)
        else plain flow indent seen gap fuel c

def hexNumber? (cs : List Char) : Option Nat :=
  Scalar.number? 16 cs

/-- The character that an escape of one letter stands for. -/
def escape? (c : Char) : Option Char :=
  match c with
  | '0' => some (Char.ofNat 0)
  | 'a' => some (Char.ofNat 7)
  | 'b' => some (Char.ofNat 8)
  | 't' | '\t' => some '\t'
  | 'n' => some '\n'
  | 'v' => some (Char.ofNat 11)
  | 'f' => some (Char.ofNat 12)
  | 'r' => some '\r'
  | 'e' => some (Char.ofNat 27)
  | ' ' | '\x22' | '/' | '\x5c' => some c
  | 'N' => some (Char.ofNat 0x85)
  | '_' => some (Char.ofNat 0xA0)
  | 'L' => some (Char.ofNat 0x2028)
  | 'P' => some (Char.ofNat 0x2029)
  | _ => none

/-- Digits of an escape that gives a code point. -/
def escapeWidth? (c : Char) : Option Nat :=
  match c with
  | 'x' => some 2
  | 'u' => some 4
  | 'U' => some 8
  | _ => none

/-- Takes an escape after its backslash. -/
def takeEscape (c : Cursor) : Option (Char × Cursor) := do
  let ch ← c.peek 0
  match escapeWidth? ch with
  | none => (escape? ch).map fun d => (d, c.skip 1)
  | some n =>
    let digits := (c.rest.drop 1).take n
    let code ← hexNumber? digits
    if digits.length = n && (code < 0xD800 || (0xDFFF < code && code ≤ 0x10FFFF)) then
      some (Char.ofNat code, c.skip (n + 1))
    else none

/-- A word between quotes, added to what was `seen`, last character first, with the break that a
backslash at the end of a line leaves out. -/
def quotedWord (double : Bool) (seen : List Char) :
    (fuel : Nat) → Cursor → Option (List Char × Gap × Cursor)
  | 0, c => some (seen, {}, c)
  | fuel + 1, c =>
    match c.rest with
    | [] => some (seen, {}, c)
    | ch :: rest =>
      if isBlankOrEnd (some ch) then some (seen, {}, c)
      else if !double && ch == '\x27' then
        if rest.head? == some '\x27' then quotedWord double ('\x27' :: seen) fuel (c.skip 2)
        else some (seen, {}, c)
      else if double && ch == '\x22' then some (seen, {}, c)
      else if double && ch == '\x5c' then
        if (c.skip 1).isAtBreak then some (seen, { broken := true }, (c.skip 1).skipLine)
        else do
          let (d, c) ← takeEscape (c.skip 1)
          quotedWord double (d :: seen) fuel c
      else quotedWord double (ch :: seen) fuel (c.skip 1)

/-- A scalar between quotes, after the first of them, added to what was `seen`, last character
first; `fuel` of one more than the length of the rest is enough. -/
def quoted (double : Bool) (seen : List Char) :
    (fuel : Nat) → Cursor → Option (List Char × Cursor)
  | 0, _ => none
  | fuel + 1, c =>
    if c.isAtDocumentBound then none
    else do
      let (seen, gap, c) ← quotedWord double seen fuel c
      if c.isAt (if double then '\x22' else '\x27') then some (seen.reverse, c.skip 1)
      else if c.rest.isEmpty then none
      else
        let (gap, c) ← gap.take 0 fuel c
        quoted double (gap.backwards ++ seen) fuel c

/-- The blank lines in front of a line of a block, last first, and the indentation that they
show. -/
def blockBreaks (indent : Nat) (breaks : List Char) (deepest : Nat) :
    (fuel : Nat) → Cursor → Option (List Char × Nat × Cursor)
  | 0, c => some (breaks, deepest, c)
  | fuel + 1, c =>
    let room := if indent = 0 then c.rest else c.rest.take (indent - c.column)
    let spaces := room.takeWhile (· == ' ')
    let c := c.skip spaces.length
    let deepest := max deepest c.column
    if (indent = 0 || c.column < indent) && c.isAt '\t' then none
    else
      match c.rest with
      | ch :: _ =>
        if isBreak ch then blockBreaks indent (breakChar ch :: breaks) deepest fuel c.skipLine
        else some (breaks, deepest, c)
      | [] => some (breaks, deepest, c)

/-- The lines of a block, added to what was `seen`; `final` is the break after the last line read
and `breaks` the blank lines after it. All three have their last character first. -/
def blockLines (folded : Bool) (indent : Nat) (seen final breaks : List Char) (afterBlank : Bool) :
    (fuel : Nat) → Cursor → Option (List Char × List Char × List Char × Cursor)
  | 0, c => some (seen, final, breaks, c)
  | fuel + 1, c =>
    if c.column != indent || c.rest.isEmpty then some (seen, final, breaks, c)
    else do
      let blank := c.isAtBlank
      let joint :=
        if folded && final == ['\n'] && !afterBlank && !blank then
          if breaks.isEmpty then [' '] else []
        else final
      let (line, c) := c.takeWhile fun ch => !isBreak ch
      let seen := line.reverse ++ (breaks ++ (joint ++ seen))
      let (final, c) := match c.rest with
        | ch :: _ => ([breakChar ch], c.skipLine)
        | [] => ([], c)
      let (breaks, _, c) ← blockBreaks indent [] 0 (fuel + 1) c
      blockLines folded indent seen final breaks blank fuel c

/-- The mark that says whether the end of a block keeps its line breaks. -/
def chompingMark (c : Cursor) : Option Bool × Cursor :=
  if c.isAt '+' then (some true, c.skip 1)
  else if c.isAt '-' then (some false, c.skip 1)
  else (none, c)

/-- The digit that gives the indentation of a block, or 0 without one; a zero is no indentation. -/
def indentMark (c : Cursor) : Option (Nat × Cursor) :=
  match c.peek 0 with
  | none => some (0, c)
  | some ch =>
    if ch == '0' then none
    else if ch.isDigit then some (ch.toNat - 48, c.skip 1)
    else some (0, c)

/-- The marks after the sign of a block, in either order. -/
def blockHeader (c : Cursor) : Option (Option Bool × Nat × Cursor) := do
  let (chomping, c) := chompingMark c
  let (indent, c) ← indentMark c
  if chomping.isNone && indent != 0 then
    let (chomping, c) := chompingMark c
    some (chomping, indent, c)
  else some (chomping, indent, c)

/-- A block scalar after its sign; `fuel` of one more than the length of the rest is enough. -/
def block (folded : Bool) (parent : Int) (fuel : Nat) (c : Cursor) :
    Option (List Char × Cursor) := do
  let (chomping, increment, c) ← blockHeader c
  let c ← c.endLine?
  let given := if increment = 0 then 0 else (max parent 0).toNat + increment
  let (breaks, deepest, c) ← blockBreaks given [] 0 fuel c
  let indent := if given = 0 then max (max deepest (parent + 1).toNat) 1 else given
  let (seen, final, breaks, c) ← blockLines folded indent [] [] breaks false fuel c
  let seen := if chomping == some false then seen else final ++ seen
  some ((if chomping == some true then breaks ++ seen else seen).reverse, c)

/-- The name of an anchor or an alias, after its sign. -/
def anchorName (c : Cursor) : Option (String × Cursor) :=
  let (name, c) := c.takeWhile isWordChar
  let ends := c.isBlankOrEndAt 0
    || (c.peek 0).any fun ch => ['?', ':', ',', ']', '\x7d', '%', '@', Char.ofNat 0x60].contains ch
  if name.isEmpty || !ends then none else some (String.ofList name, c)

def tagMarks : List Char :=
  [';', '/', '?', ':', '@', '&', '=', '+', '$', '.', '!', '~', '*', '\x27', '(', ')']

def isTagChar (verbatim : Bool) (c : Char) : Bool :=
  isWordChar c || tagMarks.contains c || (verbatim && [',', '[', ']'].contains c)

/-- The octet that two digits after a percent sign give. -/
def octet? : List Char → Option Nat
  | '%' :: a :: b :: _ => hexNumber? [a, b]
  | _ => none

/-- How many octets belong to the one that starts a character. Whether they spell a character that
there is does not matter. -/
def followers? (octet : Nat) : Option Nat :=
  if octet < 0x80 then some 0
  else if octet < 0xC0 then none
  else if octet < 0xE0 then some 1
  else if octet < 0xF0 then some 2
  else if octet < 0xF8 then some 3
  else none

/-- The text of a tag, in which bytes may be given by two digits after a percent sign, added to
what was `seen`, last byte first; `more` octets belong to the character that has begun. -/
def tagText (verbatim : Bool) (seen : Bytes) (more : Nat) :
    (fuel : Nat) → Cursor → Option (Bytes × Cursor)
  | 0, _ => none
  | fuel + 1, c =>
    if c.isAt '%' then do
      let n ← octet? c.rest
      let more ← if more = 0 then followers? n
        else if 0x80 ≤ n ∧ n < 0xC0 then some (more - 1) else none
      tagText verbatim (UInt8.ofNat n :: seen) more fuel (c.skip 3)
    else if more ≠ 0 then none
    else
      match c.rest with
      | ch :: _ =>
        if isTagChar verbatim ch then
          tagText verbatim (UInt8.ofNat ch.toNat :: seen) 0 fuel (c.skip 1)
        else some (seen.reverse, c)
      | [] => some (seen.reverse, c)

/-- The text of a tag as far as it counts: a zero byte ends it. The flag says whether there was any
text at all. -/
def tagUpToZero (verbatim : Bool) (fuel : Nat) (c : Cursor) : Option (Bytes × Bool × Cursor) :=
  (tagText verbatim [] 0 fuel c).map fun (text, c) =>
    (text.takeWhile (· != 0), !text.isEmpty, c)

/-- A tag from its exclamation mark on: a handle and what follows it. -/
def tag (fuel : Nat) (c : Cursor) : Option (String × Bytes × Cursor) :=
  if c.peek 1 == some '<' then do
    let (text, any, c) ← tagUpToZero true fuel (c.skip 2)
    if any && c.isAt '>' then some ("", text, c.skip 1) else none
  else do
    let (word, after) := (c.skip 1).takeWhile isWordChar
    if after.isAt '!' then
      let (text, any, c) ← tagUpToZero false fuel (after.skip 1)
      if any then some ("!" ++ String.ofList word ++ "!", text, c) else none
    else
      let (text, _, c) ← tagUpToZero false fuel (c.skip 1)
      some (if text.isEmpty then ("", [0x21], c) else ("!", text, c))

end Scan

end Transmux.Yaml
