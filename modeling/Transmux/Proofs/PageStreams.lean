import Mathlib.Data.List.Forall2
import Transmux.Proofs.PageReading

/-! What the page reader accepts. A byte string is read as pages just if it is their layouts, one
after the other, with too few bytes behind them for another header. -/

namespace Transmux.Ogg

namespace Source

theorem take_eq_ok_iff {s s' : Source} {n : Nat} {front : Bytes} :
    s.take n = (.ok front, s')
      ↔ s.rest = front ++ s'.rest ∧ front.length = n ∧ s'.isBroken = s.isBroken := by
  obtain ⟨bytes, broken⟩ := s
  obtain ⟨rest, broken'⟩ := s'
  constructor
  · intro h
    cases hsplit : Bytes.split? n bytes with
    | none => simp [take, hsplit] at h
    | some parts =>
      obtain ⟨front', rest'⟩ := parts
      obtain ⟨hbytes, hlength⟩ := Bytes.split?_eq_some_iff.1 hsplit
      simp only [take, hsplit, Prod.mk.injEq, Except.ok.injEq, Source.mk.injEq] at h
      obtain ⟨rfl, rfl, rfl⟩ := h
      exact ⟨hbytes, hlength, rfl⟩
  · rintro ⟨rfl, hlength, rfl⟩
    exact take_append rest broken' hlength

end Source

namespace Page

theorem field_append (bs : Bytes) (start width : Nat) :
    (bs.drop start).take width ++ bs.drop (start + width) = bs.drop start := by
  rw [← List.drop_drop, List.take_append_drop]

theorem length_field {bs : Bytes} {start width : Nat} (h : start + width ≤ bs.length) :
    ((bs.drop start).take width).length = width := by
  apply List.length_take_of_le
  rw [List.length_drop]
  omega

/-- The fields read from a header are laid out as they stood there. -/
theorem header_ofHeader {header : Bytes} {segments : SegmentTable} {body : Bytes}
    (hlength : header.length = headerLength) (hcapture : header.take 4 = capture)
    (hsegments : segments.length = segmentCount header) :
    (ofHeader header segments body).header = header := by
  have hfield {start width : Nat} (h : start + width ≤ 27) :
      ((header.drop start).take width).length = width := by
    apply length_field
    rwa [hlength]
  have hversion := Bytes.le_ofLe (hfield (show 4 + 1 ≤ 27 by decide))
  have hflags := Bytes.le_ofLe (hfield (show 5 + 1 ≤ 27 by decide))
  have hgranule := Bytes.le_toNat_uint64 (hfield (show 6 + 8 ≤ 27 by decide))
  have hserial := Bytes.le_toNat_uint32 (hfield (show 14 + 4 ≤ 27 by decide))
  have hsequence := Bytes.le_toNat_uint32 (hfield (show 18 + 4 ≤ 27 by decide))
  have hchecksum := Bytes.le_toNat_uint32 (hfield (show 22 + 4 ≤ 27 by decide))
  have hcount : Bytes.le 1 segments.length = header.drop 26 := by
    rw [hsegments, segmentCount]
    apply Bytes.le_ofLe
    rw [List.length_drop, hlength]
    rfl
  calc (ofHeader header segments body).header
      = capture ++ (Bytes.le 1 (Bytes.ofLe ((header.drop 4).take 1))
          ++ Bytes.le 1 (Bytes.ofLe ((header.drop 5).take 1)))
        ++ Bytes.le 8 (UInt64.ofNat (Bytes.ofLe ((header.drop 6).take 8))).toNat
        ++ Bytes.le 4 (UInt32.ofNat (Bytes.ofLe ((header.drop 14).take 4))).toNat
        ++ Bytes.le 4 (UInt32.ofNat (Bytes.ofLe ((header.drop 18).take 4))).toNat
        ++ Bytes.le 4 (UInt32.ofNat (Bytes.ofLe ((header.drop 22).take 4))).toNat
        ++ Bytes.le 1 segments.length := rfl
    _ = header.take 4 ++ ((header.drop 4).take 1 ++ ((header.drop 5).take 1
        ++ ((header.drop 6).take 8 ++ ((header.drop 14).take 4 ++ ((header.drop 18).take 4
        ++ ((header.drop 22).take 4 ++ header.drop 26)))))) := by
      rw [hversion, hflags, hgranule, hserial, hsequence, hchecksum, hcount, hcapture]
      simp only [List.append_assoc]
    _ = header := by
      rw [field_append header 22 4, field_append header 18 4, field_append header 14 4,
        field_append header 6 8, field_append header 5 1, field_append header 4 1,
        List.take_append_drop]

end Page

namespace Source

variable {s s' : Source} {p : Page}

theorem takeContent_eq_ok_iff {header : Bytes} :
    s.takeContent header = (.ok p, s')
      ↔ ∃ segments body, p = .ofHeader header segments body
        ∧ s.rest = segments ++ (body ++ s'.rest) ∧ segments.length = Page.segmentCount header
        ∧ body.length = SegmentTable.total segments ∧ s'.isBroken = s.isBroken := by
  constructor
  · intro h
    rw [takeContent] at h
    split at h
    · cases h
    · next segments t ht =>
      split at h
      · cases h
      · next body u hu =>
        obtain ⟨hrest, hsegments, hbroken⟩ := take_eq_ok_iff.1 ht
        obtain ⟨hrest', hbody, hbroken'⟩ := take_eq_ok_iff.1 hu
        obtain ⟨hpage, rfl⟩ := Prod.mk.inj h
        refine ⟨segments, body, (Except.ok.inj hpage).symm, ?_, hsegments, hbody, ?_⟩
        · rw [hrest, hrest']
        · rw [hbroken', hbroken]
  · rintro ⟨segments, body, rfl, hrest, hsegments, hbody, hbroken⟩
    have htable : s.take (Page.segmentCount header)
        = (.ok segments, ⟨body ++ s'.rest, s.isBroken⟩) :=
      take_eq_ok_iff.2 ⟨hrest, hsegments, rfl⟩
    have hrest : take ⟨body ++ s'.rest, s.isBroken⟩ (SegmentTable.total segments)
        = (.ok body, s') :=
      take_eq_ok_iff.2 ⟨rfl, hbody, hbroken⟩
    simp only [takeContent, htable, hrest]

/-- The next page is the one whose layout comes next. -/
theorem nextPage_eq_some_iff :
    s.nextPage = (.ok (some p), s')
      ↔ p.Consistent ∧ s.rest = p.layout ++ s'.rest ∧ s'.isBroken = s.isBroken := by
  constructor
  · intro h
    rw [nextPage] at h
    split at h
    · cases h
    · cases h
    · next header t ht =>
      split at h
      · next hcapture =>
        split at h
        · cases h
        · next q u hu =>
          obtain ⟨hpage, rfl⟩ := Prod.mk.inj h
          obtain rfl := Option.some.inj (Except.ok.inj hpage)
          obtain ⟨hrest, hlength, hbroken⟩ := take_eq_ok_iff.1 ht
          obtain ⟨segments, body, rfl, hrest', hsegments, hbody, hbroken'⟩ :=
            takeContent_eq_ok_iff.1 hu
          refine ⟨⟨?_, hbody.symm⟩, ?_, hbroken'.trans hbroken⟩
          · have hlt := Bytes.ofLe_lt (header.drop 26)
            rw [List.length_drop, hlength] at hlt
            change segments.length ≤ 255
            rw [hsegments]
            exact Nat.le_of_lt_succ hlt
          · rw [Page.layout_eq, Page.header_ofHeader hlength hcapture hsegments, hrest, hrest']
            simp [Page.ofHeader]
      · cases h
  · rintro ⟨hconsistent, hrest, hbroken⟩
    obtain ⟨bytes, broken⟩ := s
    obtain ⟨rest, broken'⟩ := s'
    change bytes = p.layout ++ rest at hrest
    change broken' = broken at hbroken
    subst hrest hbroken
    exact nextPage_layout hconsistent rest broken'

theorem length_lt_of_nextPage_none (h : s.nextPage = (.ok none, s')) :
    s.rest.length < Page.headerLength := by
  by_cases hshort : s.rest.length < Page.headerLength
  · exact hshort
  · have hlength : (s.rest.take Page.headerLength).length = Page.headerLength := by
      apply List.length_take_of_le
      omega
    have hsplit := List.take_append_drop Page.headerLength s.rest
    have htake := take_append (s.rest.drop Page.headerLength) s.isBroken hlength
    rw [hsplit] at htake
    rw [nextPage, htake] at h
    dsimp only at h
    split at h
    · split at h <;> cases h
    · cases h

theorem layouts_of_readPages {seen ps : List Page} (h : s.readPages seen = .ok ps) :
    ∃ read rest, ps = seen.reverse ++ read ∧ (∀ p ∈ read, p.Consistent)
      ∧ rest.length < Page.headerLength ∧ s.rest = read.flatMap Page.layout ++ rest := by
  -- the pages seen before stand last first, in front of those read from here on
  fun_induction readPages s seen with
  | case1 s seen e s' hnext => cases h
  | case2 s seen s' hnext =>
    obtain rfl := Except.ok.inj h
    exact ⟨[], s.rest, by simp, by simp, length_lt_of_nextPage_none hnext, rfl⟩
  | case3 s seen page s' hnext ih =>
    obtain ⟨read, rest, hps, hconsistent, hshort, hrest⟩ := ih h
    obtain ⟨hpage, hlayout, -⟩ := nextPage_eq_some_iff.1 hnext
    refine ⟨page :: read, rest, ?_, ?_, hshort, ?_⟩
    · simpa using hps
    · simpa using ⟨hpage, hconsistent⟩
    · rw [hlayout, hrest, List.flatMap_cons, List.append_assoc]

end Source

/-- Byte strings are read as pages just if they consist of them, but for a rest too short to be
looked at. -/
theorem pages_eq_ok_iff {bytes : Bytes} {ps : List Page} :
    pages bytes = .ok ps
      ↔ (∀ p ∈ ps, p.Consistent) ∧ ∃ rest : Bytes, rest.length < Page.headerLength
        ∧ bytes = ps.flatMap Page.layout ++ rest := by
  constructor
  · intro h
    obtain ⟨read, rest, hps, hconsistent, hshort, hrest⟩ := Source.layouts_of_readPages h
    obtain rfl : ps = read := hps
    exact ⟨hconsistent, rest, hshort, hrest⟩
  · rintro ⟨hconsistent, rest, hshort, rfl⟩
    exact Source.readPages_layouts hconsistent hshort []

/-- The packets of a page that can be read make up its body. -/
theorem Page.Consistent.exists_packets {p : Page} (h : p.Consistent) :
    ∃ packets, p.packets? = some packets ∧ packets.flatten = p.body := by
  have hsum := SegmentTable.sum_lengths p.segments
  rw [h.total_eq] at hsum
  obtain ⟨packets, hcut, hflat, -⟩ := SegmentTable.exists_cut?_eq_some hsum
  exact ⟨packets, hcut, hflat⟩

/-- A page described by its packets, and by its fields apart from those that follow from these. -/
structure PacketPage where
  flags : UInt8
  granule : UInt64
  serial : UInt32
  sequence : UInt32
  packets : List Bytes

namespace PacketPage

def page (d : PacketPage) : Page :=
  .ofPackets d.flags d.granule d.serial d.sequence d.packets

/-- The packets take no more segments than one page has. -/
def Fits (d : PacketPage) : Prop :=
  SegmentTable.countAll d.packets ≤ SegmentTable.maxLength

instance (d : PacketPage) : Decidable d.Fits :=
  inferInstanceAs (Decidable (_ ≤ _))

/-- Whether a page that was read says what the description says. -/
structure ReadAs (d : PacketPage) (p : Page) : Prop where
  version_eq : p.version = 0
  flags_eq : p.flags = d.flags
  granule_eq : p.granule = d.granule
  serial_eq : p.serial = d.serial
  sequence_eq : p.sequence = d.sequence
  packets_eq : p.packets? = some d.packets
  checksum_valid : p.checksumValid = true

theorem readAs_page (d : PacketPage) : d.ReadAs d.page :=
  ⟨rfl, rfl, rfl, rfl, rfl, Page.packets?_ofPackets .., Page.checksumValid_ofPackets ..⟩

theorem Fits.consistent {d : PacketPage} (h : d.Fits) : d.page.Consistent :=
  Page.consistent_ofPackets _ _ _ _ _ h

end PacketPage

/-- Pages that are written are read as they were described, and whatever is read as pages is their
layouts, each with a table that describes its body. -/
theorem pages_read_back :
    (∀ ds : List PacketPage, (∀ d ∈ ds, d.Fits) →
      ∃ ps, pages (ds.flatMap fun d => d.page.layout) = .ok ps
        ∧ List.Forall₂ PacketPage.ReadAs ds ps)
    ∧ ∀ (bytes : Bytes) (ps : List Page), pages bytes = .ok ps →
      ps.flatMap Page.layout <+: bytes
        ∧ ∀ p ∈ ps, SegmentTable.total p.segments = p.body.length
          ∧ ∃ packets, p.packets? = some packets ∧ packets.flatten = p.body := by
  constructor
  · intro ds hfits
    have hconsistent : ∀ p ∈ ds.map PacketPage.page, p.Consistent := by
      intro p hp
      obtain ⟨d, hd, rfl⟩ := List.mem_map.1 hp
      exact (hfits d hd).consistent
    refine ⟨ds.map PacketPage.page, ?_, ?_⟩
    · rw [← List.flatMap_map]
      exact pages_layouts hconsistent
    · rw [List.forall₂_map_right_iff, List.forall₂_same]
      exact fun d _ => d.readAs_page
  · intro bytes ps hread
    obtain ⟨hconsistent, rest, -, rfl⟩ := pages_eq_ok_iff.1 hread
    refine ⟨List.prefix_append .., fun p hp => ?_⟩
    exact ⟨(hconsistent p hp).total_eq, (hconsistent p hp).exists_packets⟩

/-- An empty packet and one that fills its segments, and then a page without packets. -/
def twoPages : List PacketPage :=
  [⟨Page.beginning, 0, 7, 0, [[], List.replicate 255 9]⟩, ⟨Page.ending, 960, 7, 1, []⟩]

theorem pages_read_back_twoPages :
    ∃ ps, pages (twoPages.flatMap fun d => d.page.layout) = .ok ps
      ∧ List.Forall₂ PacketPage.ReadAs twoPages ps
      ∧ ps.flatMap Page.layout <+: twoPages.flatMap fun d => d.page.layout := by
  obtain ⟨ps, hread, hps⟩ := pages_read_back.1 twoPages (by decide +kernel)
  exact ⟨ps, hread, hps, (pages_read_back.2 _ ps hread).1⟩

end Transmux.Ogg
