import Transmux.Bytes

/-! Segment tables: the lengths of the packets of a page, each written as as many 255s as it holds
and one smaller value that ends it. A last packet without an end goes on on the next page. -/

namespace Transmux.Ogg

abbrev SegmentTable := List UInt8

namespace SegmentTable

/-- Most values that a table may have. -/
def maxLength : Nat := 255

/-- Values that a packet of `n` bytes takes. -/
def count (n : Nat) : Nat :=
  n / 255 + 1

/-- The values of a packet of `n` bytes. -/
def values (n : Nat) : SegmentTable :=
  List.replicate (n / 255) 255 ++ [UInt8.ofNat (n % 255)]

def ofLengths (lengths : List Nat) : SegmentTable :=
  lengths.flatMap values

/-- Length of the body that a table describes. -/
def total (table : SegmentTable) : Nat :=
  table.foldl (fun n v => n + v.toNat) 0

/-- The lengths that follow when `pending` bytes of a packet have gone before. An unended packet
counts if it has a byte. -/
def lengthsAfter (pending : Nat) : SegmentTable → List Nat
  | [] => if pending = 0 then [] else [pending]
  | v :: table =>
    if v < 255 then (pending + v.toNat) :: lengthsAfter 0 table
    else lengthsAfter (pending + 255) table

def lengths (table : SegmentTable) : List Nat :=
  lengthsAfter 0 table

/-- Cuts a body into packets, if it is as long as the table tells. -/
def cut? : List Nat → Bytes → Option (List Bytes)
  | [], _ => some []
  | n :: lengths, body =>
    match Bytes.split? n body with
    | none => none
    | some (packet, rest) => (cut? lengths rest).map (packet :: ·)

end SegmentTable

end Transmux.Ogg
