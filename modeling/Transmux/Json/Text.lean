/-! Text as JSON writes it, between double quotes. -/

namespace Transmux.Json

def hexPair (n : Nat) : String :=
  String.ofList [Nat.digitChar (n / 16), Nat.digitChar (n % 16)]

/-- Only quotes, backslashes and controls are escaped. -/
def quotedChar (c : Char) : String :=
  if c = '\x22' then "\\\""
  else if c = '\x5c' then "\\\\"
  else if c = '\n' then "\\n"
  else if c = '\r' then "\\r"
  else if c = '\t' then "\\t"
  else if c = '\x08' then "\\b"
  else if c = '\x0c' then "\\f"
  else if c.toNat < 0x20 then "\\u00" ++ hexPair c.toNat
  else String.singleton c

def quoted (s : String) : String :=
  "\"" ++ s.toList.foldl (fun out c => out ++ quotedChar c) "" ++ "\""

end Transmux.Json
