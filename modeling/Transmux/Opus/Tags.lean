import Transmux.Text.Utf8

/-! The comment header of an Opus stream, of which only the vendor text is used. -/

namespace Transmux.Opus.Tags

/-- The letters "OpusTags". -/
def signature : Bytes :=
  [0x4F, 0x70, 0x75, 0x73, 0x54, 0x61, 0x67, 0x73]

/-- A comment header with a vendor text and no comments. -/
def bytes (vendor : String) : Bytes :=
  let text := Utf8.encode vendor
  signature ++ Bytes.le 4 text.length ++ text ++ Bytes.le 4 0

/-- The vendor text of a comment header; anything may follow it. -/
def vendor? (data : Bytes) : Option String := do
  let (mark, rest) ← Bytes.split? 8 data
  let (length, rest) ← Bytes.split? 4 rest
  let (text, _) ← Bytes.split? (Bytes.ofLe length) rest
  if mark = signature then some (Utf8.decodeLossy text) else none

end Transmux.Opus.Tags
