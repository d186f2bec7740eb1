import Mathlib.Data.List.Infix
import Transmux.Proofs.PageStreams

/-! Ogg streams that are cut short. A page is missed if there are fewer bytes of it than a header
has, since a source that ends there counts as ended; a page of which more is there, but not all of
it, is refused. -/

namespace Transmux.Ogg

namespace Source

variable {s : Source}

theorem readPages_of_error {s s' : Source} {e : ReadError} (h : s.nextPage = (.error e, s'))
    (seen : List Page) : readPages s seen = .error e := by
  rw [readPages]
  split <;> simp_all

/-- Pages in front of a source are read before all else. -/
theorem readPages_append {ps : List Page} (h : ∀ p ∈ ps, p.Consistent) (rest : Bytes)
    (seen : List Page) :
    readPages ⟨ps.flatMap Page.layout ++ rest, false⟩ seen
      = readPages ⟨rest, false⟩ (ps.reverse ++ seen) := by
  induction ps generalizing seen with
  | nil => rfl
  | cons p ps ih =>
    obtain ⟨hp, hps⟩ := List.forall_mem_cons.1 h
    have hnext := nextPage_layout hp (ps.flatMap Page.layout ++ rest) false
    rw [List.flatMap_cons, List.append_assoc, readPages_of_some hnext, ih hps, List.reverse_cons,
      List.append_assoc, List.singleton_append]

/-- What a source does that has no whole header left. -/
theorem nextPage_of_short {bytes : Bytes} (h : bytes.length < Page.headerLength) (broken : Bool) :
    nextPage ⟨bytes, broken⟩ = (if broken then .error .broken else .ok none, ⟨[], broken⟩) := by
  cases broken with
  | false => simp [nextPage, take_of_short h]
  | true => simp [nextPage, take_of_short h]

/-- A source has no more pages just if it does not fail and has fewer bytes left than a header. -/
theorem nextPage_eq_none_iff :
    s.nextPage.1 = .ok none ↔ s.isBroken = false ∧ s.rest.length < Page.headerLength := by
  obtain ⟨bytes, broken⟩ := s
  constructor
  · intro h
    have hshort := length_lt_of_nextPage_none (Prod.ext h rfl)
    rw [nextPage_of_short hshort] at h
    cases broken with
    | false => exact ⟨rfl, hshort⟩
    | true => cases h
  · rintro ⟨rfl, hshort⟩
    rw [nextPage_of_short hshort]
    rfl

/-- Table and body are refused if the source ends inside of them. -/
theorem takeContent_take {p : Page} (h : p.Consistent) {n : Nat}
    (hn : n < p.segments.length + p.body.length) :
    takeContent ⟨(p.segments ++ p.body).take n, false⟩ p.header
      = (.error .unexpectedEnd, ⟨[], false⟩) := by
  have hcount := Page.segmentCount_header h.segments_le
  by_cases htable : n < p.segments.length
  · have hshort : ((p.segments ++ p.body).take n).length < p.segments.length :=
      Nat.lt_of_le_of_lt (List.length_take_le ..) htable
    simp [takeContent, hcount, take_of_short hshort]
  · have hsplit : (p.segments ++ p.body).take n
        = p.segments ++ p.body.take (n - p.segments.length) := by
      rw [List.take_append, List.take_of_length_le (Nat.le_of_not_lt htable)]
    have hshort : (p.body.take (n - p.segments.length)).length < p.body.length := by
      rw [List.length_take]
      omega
    simp [takeContent, hcount, hsplit, take_append _ _ rfl, h.total_eq, take_of_short hshort]

theorem nextPage_take_layout {p : Page} (h : p.Consistent) {n : Nat} (hn : n < p.length) :
    nextPage ⟨p.layout.take n, false⟩
      = (if n < Page.headerLength then .ok none else .error .unexpectedEnd, ⟨[], false⟩) := by
  by_cases hheader : n < Page.headerLength
  · have hshort : (p.layout.take n).length < Page.headerLength :=
      Nat.lt_of_le_of_lt (List.length_take_le ..) hheader
    rw [nextPage_of_short hshort, if_pos hheader]
    rfl
  · have hsplit : p.layout.take n
        = p.header ++ (p.segments ++ p.body).take (n - Page.headerLength) := by
      have hlength := p.length_header
      rw [Page.layout_eq, List.take_append, List.take_of_length_le (by omega), hlength]
    have hcontent := takeContent_take h (n := n - Page.headerLength) (by
      rw [Page.length] at hn
      omega)
    rw [if_neg hheader, hsplit]
    simp only [nextPage, take_append _ _ p.length_header, Page.take_header, if_true, hcontent]

/-- Whole pages with the beginning of another one behind them. -/
theorem readPages_cut {ps : List Page} (h : ∀ p ∈ ps, p.Consistent) {p : Page} (hp : p.Consistent)
    {n : Nat} (hn : n < p.length) :
    readPages ⟨ps.flatMap Page.layout ++ p.layout.take n, false⟩ []
      = if n < Page.headerLength then .ok ps else .error .unexpectedEnd := by
  rw [readPages_append h, List.append_nil]
  have hnext := nextPage_take_layout hp hn
  by_cases hheader : n < Page.headerLength
  · rw [if_pos hheader] at hnext ⊢
    rw [readPages_of_none hnext, List.reverse_reverse]
  · rw [if_neg hheader] at hnext ⊢
    rw [readPages_of_error hnext]

end Source

/-- A cut falls into one of the pages that are laid out, at its beginning or inside of it. -/
theorem take_layouts {ps : List Page} {n : Nat} (hn : n < (ps.flatMap Page.layout).length) :
    ∃ whole p rest left, ps = whole ++ p :: rest ∧ left < p.length
      ∧ n = (whole.map Page.length).sum + left
      ∧ (ps.flatMap Page.layout).take n = whole.flatMap Page.layout ++ p.layout.take left := by
  induction ps generalizing n with
  | nil => exact absurd hn (Nat.not_lt_zero n)
  | cons p ps ih =>
    rw [List.flatMap_cons, List.length_append, Page.length_layout] at hn
    by_cases hfirst : n < p.length
    · refine ⟨[], p, ps, n, rfl, hfirst, by simp, ?_⟩
      rw [List.flatMap_cons, List.take_append_of_le_length (by rw [Page.length_layout]; omega)]
      rfl
    · obtain ⟨whole, q, rest, left, hps, hleft, hsum, htake⟩ := @ih (n - p.length) (by omega)
      refine ⟨p :: whole, q, rest, left, by rw [hps, List.cons_append], hleft, ?_, ?_⟩
      · rw [List.map_cons, List.sum_cons]
        omega
      · rw [List.flatMap_cons, List.take_append, Page.length_layout, htake,
          List.take_of_length_le (by rw [Page.length_layout]; omega), List.flatMap_cons,
          List.append_assoc]

/-- The lengths at which a stream of pages can end without a page being cut. -/
def boundaries (ps : List Page) : List Nat :=
  ps.inits.map fun front => (front.map Page.length).sum

theorem mem_boundaries_iff {ps : List Page} {n : Nat} :
    n ∈ boundaries ps ↔ ∃ front, front <+: ps ∧ (front.map Page.length).sum = n := by
  simp [boundaries, List.mem_inits]

/-- A cut is on a boundary if there is nothing of the page that it falls into. -/
theorem mem_boundaries_split_iff {whole rest : List Page} {p : Page} {left : Nat}
    (hleft : left < p.length) :
    (whole.map Page.length).sum + left ∈ boundaries (whole ++ p :: rest) ↔ left = 0 := by
  rw [mem_boundaries_iff]
  constructor
  · rintro ⟨front, hfront, hsum⟩
    rcases List.prefix_or_prefix_of_prefix hfront (List.prefix_append whole _) with hin | hout
    · obtain ⟨more, rfl⟩ := hin
      rw [List.map_append, List.sum_append] at hsum
      omega
    · obtain ⟨more, rfl⟩ := hout
      rw [List.map_append, List.sum_append] at hsum
      rw [List.prefix_append_right_inj] at hfront
      rcases List.prefix_cons_iff.1 hfront with rfl | ⟨tail, rfl, -⟩
      · rw [List.map_nil, List.sum_nil] at hsum
        omega
      · rw [List.map_cons, List.sum_cons] at hsum
        omega
  · rintro rfl
    exact ⟨whole, List.prefix_append whole _, rfl⟩

theorem pages_take_layouts {ps : List Page} (h : ∀ p ∈ ps, p.Consistent) {n : Nat}
    (hn : n < (ps.flatMap Page.layout).length) :
    ∃ whole p rest left, ps = whole ++ p :: rest ∧ left < p.length
      ∧ n = (whole.map Page.length).sum + left
      ∧ pages ((ps.flatMap Page.layout).take n)
        = if left < Page.headerLength then .ok whole else .error .unexpectedEnd := by
  obtain ⟨whole, p, rest, left, rfl, hleft, hsum, htake⟩ := take_layouts hn
  obtain ⟨hwhole, hp⟩ := List.forall_mem_append.1 h
  refine ⟨whole, p, rest, left, rfl, hleft, hsum, ?_⟩
  rw [htake]
  exact Source.readPages_cut hwhole (hp p List.mem_cons_self) hleft

namespace PacketPage

theorem consistent_map_page {ds : List PacketPage} (h : ∀ d ∈ ds, d.Fits) :
    ∀ p ∈ ds.map page, p.Consistent := by
  intro p hp
  obtain ⟨d, hd, rfl⟩ := List.mem_map.1 hp
  exact (h d hd).consistent

end PacketPage

/-- A stream of pages that is cut short is refused just if the page that the cut falls into keeps
its header, but not all of its bytes. A cut inside a header is not told from a cut between two
pages, since a source tells that it has no more pages as soon as it has not enough bytes for a
header. -/
theorem pages_cut_stream (ds : List PacketPage) (hfits : ∀ d ∈ ds, d.Fits) (n : Nat)
    (hn : n < (ds.flatMap fun d => d.page.layout).length) (s : Source) :
    (∃ whole p rest left, ds.map PacketPage.page = whole ++ p :: rest ∧ left < p.length
      ∧ n = (whole.map Page.length).sum + left
      ∧ (n ∈ boundaries (ds.map PacketPage.page) ↔ left = 0)
      ∧ pages ((ds.flatMap fun d => d.page.layout).take n)
        = if left < Page.headerLength then .ok whole else .error .unexpectedEnd)
    ∧ (s.nextPage.1 = .ok none ↔ s.isBroken = false ∧ s.rest.length < Page.headerLength) := by
  refine ⟨?_, Source.nextPage_eq_none_iff⟩
  rw [← List.flatMap_map] at hn
  obtain ⟨whole, p, rest, left, hps, hleft, hsum, hread⟩ :=
    pages_take_layouts (PacketPage.consistent_map_page hfits) hn
  rw [List.flatMap_map] at hread
  refine ⟨whole, p, rest, left, hps, hleft, hsum, ?_, hread⟩
  rw [hps, hsum]
  exact mem_boundaries_split_iff hleft

/-- Two pages of 29 bytes with a packet of one byte on each. -/
def shortPages : List PacketPage :=
  [⟨Page.beginning, 0, 7, 0, [[0xFC]]⟩, ⟨Page.ending, 960, 7, 1, [[0xFC]]⟩]

/-- A stream without its last byte, and a source that has one byte less than a header. -/
theorem pages_cut_stream_shortPages :
    (∃ whole p rest left, shortPages.map PacketPage.page = whole ++ p :: rest ∧ left < p.length
      ∧ 57 = (whole.map Page.length).sum + left
      ∧ (57 ∈ boundaries (shortPages.map PacketPage.page) ↔ left = 0)
      ∧ pages ((shortPages.flatMap fun d => d.page.layout).take 57)
        = if left < Page.headerLength then .ok whole else .error .unexpectedEnd)
    ∧ (Source.nextPage ⟨List.replicate 26 0, false⟩).1 = .ok none := by
  obtain ⟨hcut, hnone⟩ := pages_cut_stream shortPages (by decide) 57 (by decide +kernel)
    ⟨List.replicate 26 0, false⟩
  exact ⟨hcut, hnone.2 ⟨rfl, by decide⟩⟩

/-- Ten bytes of the second page pass for the end of the stream. -/
theorem torn_header_missed :
    (∀ d ∈ shortPages, d.Fits) ∧ 39 < (shortPages.flatMap fun d => d.page.layout).length
      ∧ 39 ∉ boundaries (shortPages.map PacketPage.page)
      ∧ pages ((shortPages.flatMap fun d => d.page.layout).take 39)
        = .ok ((shortPages.map PacketPage.page).take 1)
      ∧ ∃ bytes : Bytes, bytes.length = 10 ∧ (Source.nextPage ⟨bytes, false⟩).1 = .ok none := by
  have hfits : ∀ d ∈ shortPages, d.Fits := by decide
  have hconsistent := PacketPage.consistent_map_page hfits
  have hsplit : (shortPages.flatMap fun d => d.page.layout).take 39
      = ((shortPages.map PacketPage.page).take 1).flatMap Page.layout
        ++ (PacketPage.page ⟨Page.ending, 960, 7, 1, [[0xFC]]⟩).layout.take 10 := by
    decide +kernel
  have hwhole : ∀ p ∈ (shortPages.map PacketPage.page).take 1, p.Consistent := fun p hp =>
    hconsistent p (List.mem_of_mem_take hp)
  have hread := Source.readPages_cut hwhole
    (hconsistent (PacketPage.page ⟨Page.ending, 960, 7, 1, [[0xFC]]⟩) (by simp [shortPages]))
    (show 10 < _ by decide +kernel)
  rw [if_pos (by decide), ← hsplit] at hread
  exact ⟨hfits, by decide +kernel, by decide +kernel, hread, List.replicate 10 0x4F, rfl,
    Source.nextPage_eq_none_iff.2 ⟨rfl, by decide⟩⟩

end Transmux.Ogg
