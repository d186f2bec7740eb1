import Transmux.Proofs.CheckedWalk
import Transmux.Proofs.PacketSlices
import Transmux.Proofs.RemuxOutcome
import Transmux.Proofs.StreamReports

/-! Converting with the words of a machine: every counter has to fit the word that it is kept in,
and every length the field that it is written to, or else the conversion fails. With an input of
less than 2^34 bytes it does not, and it tells and writes what the conversion does that counts
without end. -/

namespace Transmux

/-- The word of `w` bits that holds a number. -/
def Word.hold (w n : Nat) : Except Fault (BitVec w) :=
  if n < 2 ^ w then .ok (BitVec.ofNat w n) else .error .overflow

theorem Word.hold_of_lt {w n : Nat} (h : n < 2 ^ w) : ∃ v, hold w n = .ok v ∧ v.toNat = n :=
  ⟨BitVec.ofNat w n, if_pos h, (BitVec.toNat_ofNat n w).trans (Nat.mod_eq_of_lt h)⟩

theorem Word.hold_of_le {w n : Nat} (h : 2 ^ w ≤ n) : hold w n = .error .overflow :=
  if_neg (Nat.not_lt.2 h)

theorem error_bind {α β : Type} (e : Fault) (f : α → Except Fault β) :
    (Except.error e >>= f) = .error e :=
  rfl

namespace Ogg

/-- A page whose table is counted in one byte. -/
def Page.counted (p : Page) : Except Fault Page := do
  let _ ← Word.hold 8 p.segments.length
  return p

theorem Page.mapM_counted_eq_ok_iff {ps : List Page} :
    ps.mapM counted = .ok ps ↔ ∀ p ∈ ps, p.segments.length ≤ SegmentTable.maxLength := by
  induction ps with
  | nil => exact iff_of_true rfl (by simp)
  | cons p ps ih =>
    rw [List.mapM_cons, counted, List.forall_mem_cons, ← ih]
    by_cases hp : p.segments.length ≤ SegmentTable.maxLength
    · obtain ⟨_, hw, -⟩ := Word.hold_of_lt (w := 8) (Nat.lt_succ_of_le hp)
      rw [hw]
      cases hps : ps.mapM counted with
      | error e => simp [ok_bind, error_bind, pure, Except.pure]
      | ok qs => simp [ok_bind, hp, pure, Except.pure]
    · rw [Word.hold_of_le (w := 8) (Nat.lt_of_not_le hp)]
      exact iff_of_false (by simp [error_bind]) fun h => hp h.1

namespace AudioPage

/-- A group more is one page more, numbered and timed by the groups before it. -/
theorem number_concat (sequence granule : Nat) (groups : List (List Bytes)) (group : List Bytes) :
    number sequence granule [] (groups ++ [group])
      = number sequence granule [] groups
        ++ [⟨sequence + groups.length, granule + Opus.played (groups.flatten ++ group),
          group⟩] := by
  induction groups generalizing sequence granule with
  | nil => rfl
  | cons first groups ih =>
    have hfirst : (first.map Opus.samples).sum = Opus.played first := rfl
    rw [List.cons_append, number_cons, number_cons, ih, hfirst, List.cons_append,
      List.flatten_cons, List.append_assoc, Opus.played_append first, List.length_cons,
      Nat.add_assoc granule, Nat.add_right_comm sequence, Nat.add_assoc sequence]

theorem ofGroups_concat (groups : List (List Bytes)) (group : List Bytes) :
    ofGroups (groups ++ [group])
      = ofGroups groups
        ++ [⟨firstSequence + groups.length, Opus.played (groups.flatten ++ group), group⟩] := by
  rw [ofGroups, number_concat, Nat.zero_add]
  rfl

end AudioPage

/-- The state of a loop that packs packets into pages. -/
structure Paging where
  /-- Number of the page that is not finished. -/
  sequence : BitVec 32 := BitVec.ofNat 32 AudioPage.firstSequence
  /-- Samples played up to the last packet. -/
  granule : BitVec 64 := 0
  /-- The packets on that page, last first. -/
  pending : List Bytes := []
  /-- Segments that these take. -/
  segments : Nat := 0
  /-- Pages that are finished, last first. -/
  written : List AudioPage := []

namespace Paging

/-- Finishes a page. -/
def flush (s : Paging) : Except Fault Paging := do
  let packets := s.pending.reverse
  let _ ← Word.hold 8 (SegmentTable.ofLengths (packets.map List.length)).length
  let sequence ← Word.hold 32 (s.sequence.toNat + 1)
  return {
    sequence := sequence
    granule := s.granule
    written := ⟨s.sequence.toNat, s.granule.toNat, packets⟩ :: s.written }

/-- Puts a packet on the page. The samples of the packet are a product that has to fit a word. -/
def push (s : Paging) (packet : Bytes) : Except Fault Paging := do
  let samples ← Word.hold 32 (Opus.samples packet)
  let granule ← Word.hold 64 (s.granule.toNat + samples.toNat)
  return { s with
    granule := granule
    pending := packet :: s.pending
    segments := s.segments + SegmentTable.count packet.length }

/-- Packs packets one at a time, up to one that fits on no page. -/
def run (l : Limits) (s : Paging) : List Bytes → Except Fault (Paging × Option Bytes)
  | [] => do
    let s ← s.flush
    return (s, none)
  | packet :: packets =>
    let n := SegmentTable.count packet.length
    if SegmentTable.maxLength < n then return (s, some packet)
    else if s.pending ≠ [] ∧ (l.packets ≤ s.pending.length ∨ l.segments < s.segments + n) then do
      let s ← s.flush
      let s ← s.push packet
      run l s packets
    else do
      let s ← s.push packet
      run l s packets

/-- What holds of the loop when the groups `closed`, last first, are on their pages, and so many
pages and samples at most are still to come. -/
structure Keeps (s : Paging) (closed : List (List Bytes)) (pages samples : Nat) : Prop where
  written_eq : s.written.reverse = AudioPage.ofGroups closed.reverse
  sequence_eq : s.sequence.toNat = AudioPage.firstSequence + closed.length
  granule_eq : s.granule.toNat = Opus.played (closed.reverse.flatten ++ s.pending.reverse)
  segments_eq : s.segments = SegmentTable.countAll s.pending
  segments_le : s.segments ≤ SegmentTable.maxLength
  sequence_lt : s.sequence.toNat + pages < 2 ^ 32
  granule_lt : s.granule.toNat + samples < 2 ^ 64
  written_fits : ∀ a ∈ s.written, a.sequence + 1 < 2 ^ 32 ∧ a.granule < 2 ^ 64
    ∧ SegmentTable.countAll a.packets ≤ SegmentTable.maxLength

namespace Keeps

variable {s : Paging} {closed : List (List Bytes)} {pages samples : Nat}

theorem start (hpages : AudioPage.firstSequence + pages < 2 ^ 32)
    (hsamples : samples < 2 ^ 64) : ({} : Paging).Keeps [] pages samples where
  written_eq := rfl
  sequence_eq := rfl
  granule_eq := rfl
  segments_eq := rfl
  segments_le := Nat.zero_le _
  sequence_lt := hpages
  granule_lt := by rwa [← Nat.zero_add samples] at hsamples
  written_fits := fun _ ha => absurd ha List.not_mem_nil

theorem mono {pages' samples' : Nat} (h : s.Keeps closed pages samples) (hpages : pages' ≤ pages)
    (hsamples : samples' ≤ samples) : s.Keeps closed pages' samples' :=
  { h with
    sequence_lt := Nat.lt_of_le_of_lt (Nat.add_le_add_left hpages _) h.sequence_lt
    granule_lt := Nat.lt_of_le_of_lt (Nat.add_le_add_left hsamples _) h.granule_lt }

theorem flush (h : s.Keeps closed (pages + 1) samples) :
    ∃ s', s.flush = .ok s' ∧ s'.pending = [] ∧ s'.segments = 0
      ∧ s'.Keeps (s.pending.reverse :: closed) pages samples := by
  have hsequence := h.sequence_lt
  have hsegments : SegmentTable.countAll s.pending.reverse ≤ SegmentTable.maxLength := by
    rw [SegmentTable.countAll_reverse, ← h.segments_eq]
    exact h.segments_le
  have htable : (SegmentTable.ofLengths (s.pending.reverse.map List.length)).length < 2 ^ 8 := by
    rw [← Page.segments_ofPackets 0 0 0 0, Page.length_segments_ofPackets]
    exact Nat.lt_succ_of_le hsegments
  obtain ⟨_, hcount, -⟩ := Word.hold_of_lt htable
  obtain ⟨next, hnext, hvalue⟩ :=
    Word.hold_of_lt (w := 32) (show s.sequence.toNat + 1 < 2 ^ 32 by omega)
  have hflush : s.flush = .ok
      { sequence := next
        granule := s.granule
        written := ⟨s.sequence.toNat, s.granule.toNat, s.pending.reverse⟩ :: s.written } := by
    simp only [Paging.flush, hcount, hnext, ok_bind]
    rfl
  refine ⟨_, hflush, rfl, rfl, ?_⟩
  constructor
  case written_eq =>
    rw [List.reverse_cons, List.reverse_cons, h.written_eq, AudioPage.ofGroups_concat,
      h.sequence_eq, h.granule_eq, List.length_reverse]
  case sequence_eq => rw [hvalue, h.sequence_eq, List.length_cons, Nat.add_assoc]
  case granule_eq => simpa using h.granule_eq
  case segments_eq => rfl
  case segments_le => exact Nat.zero_le _
  case sequence_lt =>
    rw [hvalue]
    omega
  case granule_lt => exact h.granule_lt
  case written_fits =>
    refine List.forall_mem_cons.2 ⟨⟨?_, s.granule.isLt, hsegments⟩, h.written_fits⟩
    change s.sequence.toNat + 1 < 2 ^ 32
    omega

/-- A packet that is not sent to the next page has room on this one, as the first on it or within
the limit. -/
theorem room {l : Limits} {n : Nat} (h : s.Keeps closed pages samples)
    (hl : l.segments ≤ SegmentTable.maxLength) (hn : n ≤ SegmentTable.maxLength)
    (hfits : ¬ (s.pending ≠ [] ∧ (l.packets ≤ s.pending.length ∨ l.segments < s.segments + n))) :
    s.segments + n ≤ SegmentTable.maxLength := by
  by_cases hempty : s.pending = []
  · have hnone : s.segments = 0 := by
      rw [h.segments_eq, hempty]
      rfl
    omega
  · have hlimit : ¬ l.segments < s.segments + n := fun hover => hfits ⟨hempty, .inr hover⟩
    omega

theorem push {packet : Bytes} (h : s.Keeps closed pages (Opus.samples packet + samples))
    (hroom : s.segments + SegmentTable.count packet.length ≤ SegmentTable.maxLength) :
    ∃ s', s.push packet = .ok s' ∧ s'.pending = packet :: s.pending
      ∧ s'.segments = s.segments + SegmentTable.count packet.length
      ∧ s'.Keeps closed pages samples := by
  have hgranule := h.granule_lt
  have hsamples : Opus.samples packet < 2 ^ 32 :=
    Nat.lt_of_le_of_lt (Opus.samples_le packet) (by decide)
  obtain ⟨product, hproduct, hvalue⟩ := Word.hold_of_lt hsamples
  obtain ⟨sum, hsum, htotal⟩ :=
    Word.hold_of_lt (w := 64) (show s.granule.toNat + product.toNat < 2 ^ 64 by omega)
  have hpush : s.push packet = .ok
      { s with
        granule := sum
        pending := packet :: s.pending
        segments := s.segments + SegmentTable.count packet.length } := by
    simp only [Paging.push, hproduct, hsum, ok_bind]
    rfl
  refine ⟨_, hpush, rfl, rfl, ?_⟩
  constructor
  case written_eq => exact h.written_eq
  case sequence_eq => exact h.sequence_eq
  case granule_eq =>
    have hpacket : Opus.played [packet] = Opus.samples packet := rfl
    rw [htotal, hvalue, h.granule_eq, List.reverse_cons, ← List.append_assoc,
      Opus.played_append _ [packet], hpacket]
  case segments_eq => rw [SegmentTable.countAll_cons, h.segments_eq, Nat.add_comm]
  case segments_le => exact hroom
  case sequence_lt => exact h.sequence_lt
  case granule_lt =>
    rw [htotal, hvalue]
    omega
  case written_fits => exact h.written_fits

end Keeps

/-- No word overflows while each packet may take a page of its own, and the pages are those of the
groups that the packets are cut into, up to one that fits on no page. -/
theorem run_eq {l : Limits} (hl : l.segments ≤ SegmentTable.maxLength) (packets : List Bytes)
    {s : Paging} {closed : List (List Bytes)}
    (h : s.Keeps closed (packets.length + 1) (Opus.played packets)) :
    let cut := Cut.extend l closed s.pending s.pending.length s.segments packets
    ∃ s', s.run l packets = .ok (s', cut.oversized) ∧ s'.Keeps cut.groups.reverse 0 0
      ∧ (cut.oversized = none → s'.pending = []) := by
  induction packets generalizing s closed with
  | nil =>
    obtain ⟨s', hflush, hpending, -, hkeeps⟩ := h.flush
    refine ⟨s', ?_, ?_, fun _ => hpending⟩
    · rw [run, hflush, ok_bind]
      rfl
    · rw [Cut.extend, List.reverse_reverse]
      exact hkeeps
  | cons packet packets ih =>
    have hplayed : Opus.played (packet :: packets)
        = Opus.samples packet + Opus.played packets := rfl
    rw [hplayed] at h
    by_cases hbig : SegmentTable.maxLength < SegmentTable.count packet.length
    · rw [run, Cut.extend, if_pos hbig, if_pos hbig]
      refine ⟨s, rfl, ?_, fun hnone => by cases hnone⟩
      rw [List.reverse_reverse]
      exact h.mono (Nat.zero_le _) (Nat.zero_le _)
    · rw [run, Cut.extend, if_neg hbig, if_neg hbig]
      by_cases hfull : s.pending ≠ [] ∧ (l.packets ≤ s.pending.length
          ∨ l.segments < s.segments + SegmentTable.count packet.length)
      · obtain ⟨s₁, hflush, hpending, hsegments, hkeeps⟩ := h.flush
        obtain ⟨s₂, hpush, hpending', hsegments', hkeeps'⟩ := hkeeps.push (by omega)
        have hrest := ih hkeeps'
        rw [hpending', hsegments', hpending, hsegments, Nat.zero_add] at hrest
        rw [if_pos hfull, if_pos hfull, hflush, ok_bind, hpush, ok_bind]
        exact hrest
      · have hroom := h.room hl (Nat.le_of_not_lt hbig) hfull
        obtain ⟨s', hpush, hpending, hsegments, hkeeps⟩ :=
          (h.mono (Nat.le_succ _) (Nat.le_refl _)).push hroom
        have hrest := ih hkeeps
        rw [hpending, hsegments] at hrest
        rw [if_neg hfull, if_neg hfull, hpush, ok_bind]
        exact hrest

theorem run_ofPackets {l : Limits} (hl : l.segments ≤ SegmentTable.maxLength) {packets : List Bytes}
    (hpages : AudioPage.firstSequence + (packets.length + 1) < 2 ^ 32)
    (hplayed : Opus.played packets < 2 ^ 64) :
    ∃ s, run l {} packets = .ok (s, (Cut.ofPackets l packets).oversized)
      ∧ s.Keeps (Cut.ofPackets l packets).groups.reverse 0 0
      ∧ ((Cut.ofPackets l packets).oversized = none → s.pending = []) :=
  run_eq hl packets (Keeps.start hpages hplayed)

end Paging

end Ogg

namespace Remux

/-- The two pages before the audio, with the length of the vendor text in a word. -/
def headerPagesIn (o : Options) (head : Opus.Head) (serial : UInt32) :
    Except Fault (List Ogg.Page) := do
  let _ ← Word.hold 32 (Utf8.encode o.vendor).length
  (headerPages o head serial).mapM Ogg.Page.counted

/-- Writes the pages of a recording as the loop packs them. -/
def writePagesIn (o : Options) (r : Recording) (serial : UInt32) (headers : List Ogg.Page) :
    Except Fault RemuxRun := do
  let head := head o r
  let (s, oversized) ← Ogg.Paging.run o.limits {} r.frames
  let pages := s.written.reverse
  let notices := readNotice head serial r.frames :: pages.map pageNotice
  match oversized with
  | some packet => return ⟨notices, .error (.packetTooLarge packet.length)⟩
  | none =>
    let data := (headers ++ Ogg.audioPages serial pages).flatMap Ogg.Page.layout
    return ⟨notices ++ [.written s.sequence.toNat s.granule.toNat data.length],
      .ok ⟨data, false, s.sequence.toNat, s.granule.toNat⟩⟩

/-- Writes the frames of a recording. Room for the packets of a page is asked for behind the two
pages before the audio. -/
def writeIn (o : Options) (r : Recording) (serial : UInt32) : Except Fault RemuxRun := do
  let headers ← headerPagesIn o (head o r) serial
  if o.limits.isReservable then writePagesIn o r serial headers
  else return ⟨[readNotice (head o r) serial r.frames], .panicked⟩

def convertIn (o : Options) (drawn : Except String UInt32) (r : Recording) :
    Except Fault RemuxRun :=
  match refusal? o r with
  | some e => return ⟨[], .error e⟩
  | none =>
    match o.serial.elim drawn .ok with
    | .error cause => return ⟨[], .error (.noSerial cause)⟩
    | .ok serial => writeIn o r serial

end Remux

/-- Converts an input with the addresses and the words of a machine. -/
def remuxIn (o : Options) (drawn : Except String UInt32) (input : Bytes) :
    Except Fault RemuxRun :=
  if Bytes.startsWith input Ogg.Page.capture then
    return ⟨[.passedThrough input.length], .ok ⟨input, true, 0, 0⟩⟩
  else do
    let r ← Recording.readAt o.filterAudioTrack input
    let run ← Remux.convertIn o drawn r
    return { run with notices := r.findings.filterMap Notice.ofFinding? ++ run.notices }

theorem Recording.seven_mul_length_frames_le (filter : Bool) (input : Bytes) :
    7 * (ofBytes filter input).frames.length ≤ input.length := by
  have hsum := sum_length_frames_le filter input
  have hpos : ∀ n ∈ (ofBytes filter input).frames.map List.length, 1 ≤ n := by
    intro n hn
    obtain ⟨packet, hpacket, rfl⟩ := List.mem_map.1 hn
    exact List.length_pos_iff.2 (ne_nil_of_mem_frames hpacket)
  have hle := List.length_le_sum_of_one_le _ hpos
  rw [List.length_map] at hle
  omega

namespace Remux

variable {o : Options} {r : Recording} {serial : UInt32}

/-- Few enough packets for the words that count them. -/
structure Countable (packets : List Bytes) : Prop where
  pages_lt : Ogg.AudioPage.firstSequence + (packets.length + 1) < 2 ^ 32
  played_lt : Opus.played packets < 2 ^ 64

theorem countable_frames {filter : Bool} {input : Bytes} (h : input.length < 2 ^ 34) :
    Countable (Recording.ofBytes filter input).frames := by
  have hframes := Recording.seven_mul_length_frames_le filter input
  have hplayed := Opus.played_le (Recording.ofBytes filter input).frames
  rw [Opus.maxSamples] at hplayed
  constructor
  · rw [Ogg.AudioPage.firstSequence]
    omega
  · omega

/-- The vendor text alone decides whether the pages before the audio have room. -/
theorem segments_headerPages_le_iff {head : Opus.Head} :
    (∀ p ∈ headerPages o head serial, p.segments.length ≤ Ogg.SegmentTable.maxLength)
      ↔ (Utf8.encode o.vendor).length ≤ 65008 := by
  have hcount (bytes : Bytes) : Ogg.SegmentTable.countAll [bytes] ≤ Ogg.SegmentTable.maxLength
      ↔ bytes.length < 65025 := by
    rw [Ogg.SegmentTable.countAll, List.map_singleton, List.sum_singleton, ← Nat.not_lt,
      Ogg.SegmentTable.maxLength_lt_count_iff, Nat.not_le]
  rw [headerPages, List.forall_mem_cons, List.forall_mem_singleton,
    Ogg.Page.length_segments_ofPackets, Ogg.Page.length_segments_ofPackets, hcount, hcount,
    length_head_bytes, length_tags_bytes]
  omega

theorem headerPagesIn_eq_ok_iff {head : Opus.Head} :
    headerPagesIn o head serial = .ok (headerPages o head serial)
      ↔ (Utf8.encode o.vendor).length ≤ 65008 := by
  rw [headerPagesIn, ← segments_headerPages_le_iff, ← Ogg.Page.mapM_counted_eq_ok_iff]
  by_cases hword : (Utf8.encode o.vendor).length < 2 ^ 32
  · obtain ⟨_, hw, -⟩ := Word.hold_of_lt hword
    rw [hw, ok_bind]
  · rw [Word.hold_of_le (Nat.le_of_not_lt hword), error_bind, Ogg.Page.mapM_counted_eq_ok_iff,
      segments_headerPages_le_iff]
    exact iff_of_false (by simp) (by omega)

theorem writePagesIn_eq (hr : r.frames ≠ []) (hcountable : Countable r.frames) :
    writePagesIn o r serial (headerPages o (head o r) serial) = .ok (writePages o r serial) := by
  obtain ⟨s, hrun, hkeeps, hpending⟩ := Ogg.Paging.run_ofPackets (limits_segments_le o)
    hcountable.pages_lt hcountable.played_lt
  have hpages : s.written.reverse = audio o r := by
    rw [hkeeps.written_eq, List.reverse_reverse, audio]
  rw [writePagesIn, hrun, ok_bind]
  cases hsize : (Ogg.Cut.ofPackets o.limits r.frames).oversized with
  | some packet =>
    simp only [writePages, hsize, hpages]
    rfl
  | none =>
    have hsequence : s.sequence.toNat = Ogg.AudioPage.firstSequence + (audio o r).length := by
      rw [hkeeps.sequence_eq, List.length_reverse, audio, Ogg.AudioPage.length_ofGroups]
    have hgranule : s.granule.toNat = (output o r serial).granule := by
      rw [hkeeps.granule_eq, hpending hsize, granule_output hr hsize, List.reverse_reverse,
        List.reverse_nil, List.append_nil, Ogg.Cut.flatten_groups_ofPackets hsize]
    simp only [writePages, hsize, hpages, hsequence, hgranule]
    rfl

theorem writeIn_eq (hvendor : (Utf8.encode o.vendor).length ≤ 65008) (hr : r.frames ≠ [])
    (hcountable : Countable r.frames) : writeIn o r serial = .ok (write o r serial) := by
  rw [writeIn, headerPagesIn_eq_ok_iff.2 hvendor, ok_bind, write]
  split
  · exact writePagesIn_eq hr hcountable
  · rfl

theorem convertIn_eq (hvendor : (Utf8.encode o.vendor).length ≤ 65008)
    (hcountable : Countable r.frames) (drawn : Except String UInt32) :
    convertIn o drawn r = .ok (convert o drawn r) := by
  rw [convertIn, convert]
  cases hrefusal : refusal? o r with
  | some e => rfl
  | none =>
    cases o.serial.elim drawn .ok with
    | error cause => rfl
    | ok serial => exact writeIn_eq hvendor (frames_ne_nil_of_refusal? hrefusal) hcountable

/-- What the words hold of each page with audio. -/
theorem audio_fits (hcountable : Countable r.frames) {a : Ogg.AudioPage} (ha : a ∈ audio o r) :
    a.sequence + 1 < 2 ^ 32 ∧ a.granule < 2 ^ 64
      ∧ Ogg.SegmentTable.countAll a.packets ≤ Ogg.SegmentTable.maxLength := by
  obtain ⟨s, -, hkeeps, -⟩ := Ogg.Paging.run_ofPackets (limits_segments_le o) hcountable.pages_lt
    hcountable.played_lt
  apply hkeeps.written_fits
  rwa [← List.mem_reverse, hkeeps.written_eq, List.reverse_reverse]

theorem segments_streamPages_le (hvendor : (Utf8.encode o.vendor).length ≤ 65008)
    (hcountable : Countable r.frames) :
    ∀ p ∈ streamPages o r serial, p.segments.length ≤ Ogg.SegmentTable.maxLength := by
  intro p hp
  rcases List.mem_append.1 hp with hheader | haudio
  · exact segments_headerPages_le_iff.2 hvendor p hheader
  · obtain ⟨i, hi⟩ := List.mem_iff_getElem?.1 haudio
    rw [Ogg.getElem?_audioPages] at hi
    obtain ⟨a, ha, rfl⟩ := Option.map_eq_some_iff.1 hi
    rw [Ogg.AudioPage.page, Ogg.Page.length_segments_ofPackets]
    exact (audio_fits hcountable (List.mem_of_getElem? ha)).2.2

end Remux

theorem remuxIn_eq {o : Options} {input : Bytes} (hlength : input.length < 2 ^ 34)
    (hvendor : (Utf8.encode o.vendor).length ≤ 65008) (drawn : Except String UInt32) :
    remuxIn o drawn input = .ok (remux o drawn input) := by
  rw [remuxIn, remux]
  by_cases hogg : Bytes.startsWith input Ogg.Page.capture = true
  · rw [if_pos hogg, if_pos hogg]
    rfl
  · have hinput : input.length < maxInput := Nat.lt_of_lt_of_le hlength (by decide)
    rw [if_neg hogg, if_neg hogg, Recording.readAt_eq _ hinput, ok_bind,
      Remux.convertIn_eq hvendor (Remux.countable_frames hlength), ok_bind]
    rfl

namespace Remux

/-- Nothing that is counted in a conversion of less than 2^34 bytes leaves its word, and no length
leaves its field: a machine that fails where one does converts the input, and it converts it to
the same. -/
theorem words_hold {o : Options} {input : Bytes} (hlength : input.length < 2 ^ 34)
    (hvendor : (Utf8.encode o.vendor).length ≤ 65008) (drawn : Except String UInt32) :
    let r := Recording.ofBytes o.filterAudioTrack input
    remuxIn o drawn input = .ok (remux o drawn input)
      ∧ r.frames.length ≤ input.length / 7
      ∧ (∀ packet ∈ r.frames, Opus.samples packet < 2 ^ 32)
      ∧ Opus.played r.frames < 2 ^ 64
      ∧ (∀ a ∈ audio o r, a.sequence + 1 < 2 ^ 32 ∧ a.granule < 2 ^ 64)
      ∧ (∀ serial, ∀ p ∈ streamPages o r serial,
        (UInt8.ofNat p.segments.length).toNat = p.segments.length)
      ∧ (UInt32.ofNat (Utf8.encode o.vendor).length).toNat = (Utf8.encode o.vendor).length := by
  intro r
  have hcountable : Countable r.frames := countable_frames hlength
  have hframes : 7 * r.frames.length ≤ input.length :=
    Recording.seven_mul_length_frames_le o.filterAudioTrack input
  refine ⟨remuxIn_eq hlength hvendor drawn, by omega, fun packet _ => ?_, hcountable.played_lt,
    fun a ha => ?_, fun serial p hp => ?_, ?_⟩
  · exact Nat.lt_of_le_of_lt (Opus.samples_le packet) (by decide)
  · obtain ⟨hsequence, hgranule, -⟩ := audio_fits hcountable ha
    exact ⟨hsequence, hgranule⟩
  · have hle := segments_streamPages_le hvendor hcountable p hp
    exact Nat.mod_eq_of_lt (Nat.lt_succ_of_le hle)
  · exact Nat.mod_eq_of_lt (Nat.lt_of_le_of_lt hvendor (by decide))

theorem words_hold_twoBlocks :
    twoBlocks.length < 2 ^ 34 ∧ (Utf8.encode onePerPage.vendor).length ≤ 65008
      ∧ ∃ run, remuxIn onePerPage (.ok 7) twoBlocks = .ok run
        ∧ run.result = .ok (output onePerPage (Recording.ofBytes true twoBlocks) 7) := by
  have hvendor : (Utf8.encode onePerPage.vendor).length ≤ 65008 := by decide +kernel
  obtain ⟨hrun, -⟩ := @words_hold onePerPage twoBlocks (by decide) hvendor (.ok 7)
  exact ⟨by decide, hvendor, _, hrun, remux_twoBlocks⟩

end Remux

end Transmux
