import Transmux.Bytes.Lemmas
import Transmux.Ogg.Stream
import Transmux.Proofs.SegmentTables

/-! Pages laid out one after the other are read back as they were, provided that the table of each
describes its body. A page made from packets is such a page and gives its packets back. -/

namespace Transmux.Ogg

/-- Values that packets take together in a segment table. -/
def SegmentTable.countAll (packets : List Bytes) : Nat :=
  (packets.map fun packet => count packet.length).sum

namespace Page

/-- The table can be counted in one byte, and describes the body. -/
structure Consistent (p : Page) : Prop where
  segments_le : p.segments.length ≤ SegmentTable.maxLength
  total_eq : SegmentTable.total p.segments = p.body.length

def header (p : Page) : Bytes :=
  capture ++ [p.version, p.flags] ++ Bytes.le 8 p.granule.toNat ++ Bytes.le 4 p.serial.toNat
    ++ Bytes.le 4 p.sequence.toNat ++ Bytes.le 4 p.checksum.toNat
    ++ [UInt8.ofNat p.segments.length]

theorem layout_eq (p : Page) : p.layout = p.header ++ (p.segments ++ p.body) := by
  simp [layout, header]

@[simp] theorem length_header (p : Page) : p.header.length = headerLength := by
  simp [header, capture, headerLength]

@[simp] theorem length_layout (p : Page) : p.layout.length = p.length := by
  simp [layout_eq, length, Nat.add_assoc]

theorem take_header (p : Page) : p.header.take 4 = capture := by
  simp [header, capture]

theorem ofHeader_header (p : Page) : ofHeader p.header p.segments p.body = p := by
  simp [ofHeader, header, capture, List.drop_append, List.drop_eq_nil_of_le,
    Bytes.ofLe_toNat_uint32, Bytes.ofLe_toNat_uint64, Bytes.ofLe]

theorem segmentCount_header {p : Page} (h : p.segments.length ≤ SegmentTable.maxLength) :
    segmentCount p.header = p.segments.length := by
  have hlt : p.segments.length % 256 = p.segments.length := Nat.mod_eq_of_lt (Nat.lt_succ_of_le h)
  simp [segmentCount, header, capture, List.drop_append, List.drop_eq_nil_of_le, Bytes.ofLe, hlt]

end Page

namespace Source

theorem take_append {n : Nat} {a : Bytes} (b : Bytes) (broken : Bool) (h : a.length = n) :
    take ⟨a ++ b, broken⟩ n = (.ok a, ⟨b, broken⟩) := by
  simp [take, Bytes.split?_append b h]

theorem take_of_short {n : Nat} {a : Bytes} {broken : Bool} (h : a.length < n) :
    take ⟨a, broken⟩ n
      = (.error (if broken then .broken else .unexpectedEnd), ⟨[], broken⟩) := by
  have hsplit : Bytes.split? n a = none := by
    rw [Bytes.split?_eq, if_neg (by omega)]
  simp [take, hsplit]

/-- A page in front of a source is the next page, and nothing else is taken. -/
theorem nextPage_layout {p : Page} (h : p.Consistent) (rest : Bytes) (broken : Bool) :
    nextPage ⟨p.layout ++ rest, broken⟩ = (.ok (some p), ⟨rest, broken⟩) := by
  have hcontent : takeContent ⟨p.segments ++ (p.body ++ rest), broken⟩ p.header
      = (.ok p, ⟨rest, broken⟩) := by
    simp only [takeContent, Page.segmentCount_header h.segments_le, take_append _ _ rfl, h.total_eq,
      Page.ofHeader_header]
  simp only [nextPage, Page.layout_eq, List.append_assoc, take_append _ _ p.length_header,
    Page.take_header, if_true, hcontent]

theorem readPages_of_none {s s' : Source} (h : s.nextPage = (.ok none, s')) (seen : List Page) :
    readPages s seen = .ok seen.reverse := by
  rw [readPages]
  split <;> simp_all

theorem readPages_of_some {s s' : Source} {page : Page} (h : s.nextPage = (.ok (some page), s'))
    (seen : List Page) : readPages s seen = readPages s' (page :: seen) := by
  rw [readPages]
  split <;> simp_all

/-- Pages are read one after the other, and what is too short for another header is left over. -/
theorem readPages_layouts {ps : List Page} (h : ∀ p ∈ ps, p.Consistent) {rest : Bytes}
    (hrest : rest.length < Page.headerLength) (seen : List Page) :
    readPages ⟨ps.flatMap Page.layout ++ rest, false⟩ seen = .ok (seen.reverse ++ ps) := by
  induction ps generalizing seen with
  | nil =>
    have hnone : nextPage ⟨rest, false⟩ = (.ok none, ⟨[], false⟩) := by
      simp only [nextPage, take_of_short hrest]
      rfl
    simpa using readPages_of_none hnone seen
  | cons p ps ih =>
    have hp := nextPage_layout (h p (by simp)) (ps.flatMap Page.layout ++ rest) false
    have hps := ih (fun q hq => h q (by simp [hq])) (p :: seen)
    rw [List.flatMap_cons, List.append_assoc, readPages_of_some hp, hps]
    simp

end Source

theorem pages_layouts {ps : List Page} (h : ∀ p ∈ ps, p.Consistent) :
    pages (ps.flatMap Page.layout) = .ok ps := by
  have hshort : ([] : Bytes).length < Page.headerLength := by decide
  have hread := Source.readPages_layouts h hshort []
  rwa [List.append_nil] at hread

theorem length_layouts (ps : List Page) :
    (ps.flatMap Page.layout).length = (ps.map Page.length).sum := by
  simp [List.length_flatMap]

namespace Page

variable (flags : UInt8) (granule : UInt64) (serial sequence : UInt32) (packets : List Bytes)

@[simp] theorem segments_ofPackets :
    (ofPackets flags granule serial sequence packets).segments
      = .ofLengths (packets.map List.length) := rfl

@[simp] theorem body_ofPackets :
    (ofPackets flags granule serial sequence packets).body = packets.flatten := rfl

theorem length_segments_ofPackets :
    (ofPackets flags granule serial sequence packets).segments.length
      = SegmentTable.countAll packets := by
  simp [SegmentTable.length_ofLengths, SegmentTable.countAll, Function.comp_def]

theorem total_segments_ofPackets :
    SegmentTable.total (ofPackets flags granule serial sequence packets).segments
      = (ofPackets flags granule serial sequence packets).body.length := by
  simp [SegmentTable.total_ofLengths]

theorem consistent_ofPackets (h : SegmentTable.countAll packets ≤ SegmentTable.maxLength) :
    (ofPackets flags granule serial sequence packets).Consistent :=
  ⟨by rwa [length_segments_ofPackets], total_segments_ofPackets ..⟩

/-- No packet is split, merged or lost on its page. -/
theorem packets?_ofPackets :
    (ofPackets flags granule serial sequence packets).packets? = some packets := by
  simpa [packets?] using SegmentTable.cut?_flatten_append packets []

theorem checksumValid_ofPackets :
    (ofPackets flags granule serial sequence packets).checksumValid = true :=
  beq_self_eq_true _

end Page

end Transmux.Ogg
