import Transmux.Text.Glyph

/-! Text between double quotes, with escapes for what would not show as itself. -/

namespace Transmux.Text

/-- A scalar value in hexadecimal between braces. -/
def codeEscape (c : Char) : String :=
  "\\u\x7b" ++ String.ofList (Nat.toDigits 16 c.toNat) ++ "\x7d"

def quotedChar (c : Char) : String :=
  if c = '\x00' then "\\0"
  else if c = '\t' then "\\t"
  else if c = '\r' then "\\r"
  else if c = '\n' then "\\n"
  else if c = '\x5c' then "\\\\"
  else if c = '\x22' then "\\\""
  else if hasGlyph c then String.singleton c
  else codeEscape c

def quoted (s : String) : String :=
  "\"" ++ s.toList.foldl (fun out c => out ++ quotedChar c) "" ++ "\""

end Transmux.Text
