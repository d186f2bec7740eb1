import Transmux.Proofs.PacketSlices
import Transmux.Proofs.StreamReports

/-! The log of a conversion against what was read and what was written: each kind of entry is told
once for each thing of its kind, in order, and no other entry reads like it. -/

namespace Transmux

namespace LogEntry

/-- A warning that a span was left early, whatever the reason. -/
def isStop (e : LogEntry) : Bool :=
  e.level == .warn && ", stopping span early".toList.isSuffixOf e.message.toList

def isLacedBlock (e : LogEntry) : Bool :=
  e.level == .warn && e.message == "webm: laced SimpleBlock detected, unsupported"

def isSkippedBlock (e : LogEntry) : Bool :=
  e.level == .debug && e.message == "webm: skipping block of non-audio track"

def isBlock (e : LogEntry) : Bool :=
  e.isLacedBlock || e.isSkippedBlock

def isPage (e : LogEntry) : Bool :=
  e.level == .trace && e.message == "remux: page"

def field? (e : LogEntry) (name : String) : Option String :=
  e.fields.lookup name

def ofIssue (i : Issue) : LogEntry :=
  ⟨.warn, "webm: " ++ i.reason.message ++ ", stopping span early",
    [("parent", i.parent.name), ("offset", toString i.offset)]⟩

/-- What there is to tell of a page that was read, if its packets can be. -/
def ofPage? (p : Ogg.Page) : Option LogEntry :=
  p.packets?.map fun packets => ⟨.trace, "remux: page",
    [("sequence", toString p.sequence.toNat), ("packets", toString packets.length),
      ("granule", toString p.granule.toNat)]⟩

theorem isStop_ofIssue (i : Issue) : (ofIssue i).isStop = true := by
  have hmessage : ", stopping span early".toList <:+ (ofIssue i).message.toList := by
    rw [ofIssue, String.toList_append]
    exact List.suffix_append ..
  exact (Bool.true_and _).trans (List.isSuffixOf_iff_suffix.2 hmessage)

theorem isStop_lacedBlock (mode : LacingMode) (offset : Nat) :
    (Notice.lacedBlock mode offset).entry.isStop = false := by
  have hmessage : ", stopping span early".toList.isSuffixOf
      "webm: laced SimpleBlock detected, unsupported".toList = false := by decide
  exact (Bool.true_and _).trans hmessage

end LogEntry

namespace Finding

/-- What the log tells of a finding. -/
def entry? (f : Finding) : Option LogEntry :=
  (Notice.ofFinding? f).map Notice.entry

/-- The place of a block that the log tells of. -/
def notedPlace? (f : Finding) : Option Extent :=
  if Recording.isLaced f || Recording.isSkipped f then f.place? else none

/-- The log tells of a finding just what the views of a recording see in it. -/
structure Told (f : Finding) : Prop where
  stop_eq : f.entry?.filter LogEntry.isStop = (Recording.issue? f).map LogEntry.ofIssue
  laced_eq : (f.entry?.filter LogEntry.isLacedBlock).isSome = Recording.isLaced f
  skipped_eq : (f.entry?.filter LogEntry.isSkippedBlock).isSome = Recording.isSkipped f
  offset_eq : (f.entry?.filter LogEntry.isBlock).map (·.field? "offset")
    = f.notedPlace?.map fun place => some (toString place.contentOffset)
  page_eq : f.entry?.filter LogEntry.isPage = none

theorem told (f : Finding) : f.Told := by
  cases f with
  | issue i =>
    have hstop := Option.filter_some_pos (LogEntry.isStop_ofIssue i)
    obtain ⟨parent, offset, reason⟩ := i
    cases reason <;> exact ⟨hstop, rfl, rfl, rfl, rfl⟩
  | selected | track => exact ⟨rfl, rfl, rfl, rfl, rfl⟩
  | block place fate =>
    cases fate with
    | undecodable | skipped => exact ⟨rfl, rfl, rfl, rfl, rfl⟩
    | kept b | empty b =>
      have hstop (mode : LacingMode) :
          (some (Notice.lacedBlock mode place.contentOffset).entry).filter LogEntry.isStop
            = none :=
        Option.filter_some_neg (LogEntry.isStop_lacedBlock ..)
      obtain ⟨track, lacing, data⟩ := b
      cases lacing with
      | none => exact ⟨rfl, rfl, rfl, rfl, rfl⟩
      | xiph | fixedSize | ebml => exact ⟨hstop _, rfl, rfl, rfl, rfl⟩

end Finding

namespace Recording

variable {filter : Bool} {input : Bytes}

def notedPlaces (r : Recording) : List Extent :=
  r.findings.filterMap Finding.notedPlace?

theorem header_pos_of_mem {f : Finding} {place : Extent}
    (hf : f ∈ (ofBytes filter input).findings) (hplace : f.place? = some place) :
    0 < place.header := by
  cases f with
  | block place' fate =>
    obtain rfl := Option.some.inj hplace
    rw [ofBytes, ofEvents_eq, Event.ofBytes_eq_span] at hf
    obtain ⟨id, data, hleaf, -⟩ := Context.block_mem_tells filter {} hf
    exact (Event.leafWithin_span _ _ _ _ _ (Nat.le_refl _) hleaf).header_pos
  | _ => cases hplace

theorem place?_of_notedPlace? {f : Finding} {place : Extent} (h : f.notedPlace? = some place) :
    f.place? = some place :=
  (Option.ite_none_right_eq_some.1 h).2

/-- What a block holds starts behind what all blocks before it hold. -/
theorem pairwise_notedPlaces (filter : Bool) (input : Bytes) :
    (ofBytes filter input).notedPlaces.Pairwise fun a b => a.contentOffset < b.contentOffset := by
  have hplaces := List.pairwise_filterMap.1 (pairwise_places filter input)
  refine List.pairwise_filterMap.2 (hplaces.imp_of_mem ?_)
  intro f g hf hg hfg a ha b hb
  have horder := hfg a (place?_of_notedPlace? ha) b (place?_of_notedPlace? hb)
  have hheader := header_pos_of_mem hg (place?_of_notedPlace? hb)
  rw [Extent.stop] at horder
  rw [Extent.contentOffset, Extent.contentOffset] at *
  omega

end Recording

/-- How a run reads in the log. -/
def RemuxRun.log (run : RemuxRun) : List LogEntry :=
  run.notices.map Notice.entry

namespace Remux

variable {o : Options} {drawn : Except String UInt32} {r : Recording} {input : Bytes}

theorem notices_write (hroom : HasRoom o) (r : Recording) (serial : UInt32) :
    ∃ ending, (∀ n ∈ ending, ∃ pages granule bytes, n = Notice.written pages granule bytes)
      ∧ (write o r serial).notices
        = readNotice (head o r) serial r.frames :: ((audio o r).map pageNotice ++ ending) := by
  rw [audio, write, if_pos (isReservable_limits_iff.2 hroom)]
  cases h : (Ogg.Cut.ofPackets o.limits r.frames).oversized with
  | some packet => exact ⟨[], by simp, by simp [writePages, h]⟩
  | none =>
    simp only [writePages, h]
    exact ⟨_, fun n hn => ⟨_, _, _, List.mem_singleton.1 hn⟩, List.cons_append⟩

theorem convert_eq_write {serial : UInt32} (hrefusal : refusal? o r = none)
    (hserial : o.serial.elim drawn .ok = .ok serial) :
    convert o drawn r = write o r serial := by
  simp only [convert, hrefusal, hserial]

/-- Once a recording is read, the log tells of no block and of no span any more. -/
theorem quiet_convert {e : LogEntry} (h : e ∈ (convert o drawn r).log) :
    e.isStop = false ∧ e.isBlock = false := by
  obtain ⟨n, hn, rfl⟩ := List.mem_map.1 h
  cases hrefusal : refusal? o r with
  | some refusal => simp [convert, hrefusal] at hn
  | none =>
    cases hserial : o.serial.elim drawn .ok with
    | error cause => simp [convert, hrefusal, hserial] at hn
    | ok serial =>
      rw [convert_eq_write hrefusal hserial] at hn
      by_cases hroom : HasRoom o
      · obtain ⟨ending, hending, hnotices⟩ := notices_write hroom r serial
        rw [hnotices, List.mem_cons, List.mem_append] at hn
        rcases hn with rfl | hpage | hlast
        · exact ⟨rfl, rfl⟩
        · obtain ⟨a, -, rfl⟩ := List.mem_map.1 hpage
          exact ⟨rfl, rfl⟩
        · obtain ⟨pages, granule, bytes, rfl⟩ := hending n hlast
          exact ⟨rfl, rfl⟩
      · rw [write_of_not_hasRoom hroom] at hn
        obtain rfl := List.mem_singleton.1 hn
        exact ⟨rfl, rfl⟩

theorem filter_isPage_convert {serial : UInt32} (hrefusal : refusal? o r = none)
    (hserial : o.serial.elim drawn .ok = .ok serial) (hroom : HasRoom o) :
    (convert o drawn r).log.filter LogEntry.isPage
      = (audio o r).map fun a => (pageNotice a).entry := by
  obtain ⟨ending, hending, hnotices⟩ := notices_write hroom r serial
  have hpages : ((audio o r).map fun a => (pageNotice a).entry).filter LogEntry.isPage
      = (audio o r).map fun a => (pageNotice a).entry := by
    refine List.filter_eq_self.2 fun e he => ?_
    obtain ⟨a, -, rfl⟩ := List.mem_map.1 he
    rfl
  have hlast : (ending.map Notice.entry).filter LogEntry.isPage = [] := by
    refine List.filter_eq_nil_iff.2 fun e he => ?_
    obtain ⟨n, hn, rfl⟩ := List.mem_map.1 he
    obtain ⟨pages, granule, bytes, rfl⟩ := hending n hn
    exact Bool.false_ne_true
  rw [convert_eq_write hrefusal hserial, RemuxRun.log, hnotices, List.map_cons, List.map_append,
    List.map_map, List.filter_cons_of_neg Bool.false_ne_true, List.filter_append, hlast,
    List.append_nil]
  exact hpages

theorem log_remux (hinput : Bytes.startsWith input Ogg.Page.capture = false) :
    (remux o drawn input).log
      = (Recording.ofBytes o.filterAudioTrack input).findings.filterMap Finding.entry?
        ++ (convert o drawn (Recording.ofBytes o.filterAudioTrack input)).log := by
  simp only [remux, hinput, Bool.false_eq_true, if_false, RemuxRun.log, List.map_append,
    List.map_filterMap]
  rfl

/-- Entries of a kind that only the reading of a recording tells. -/
theorem filter_log_remux {keep : LogEntry → Bool}
    (hinput : Bytes.startsWith input Ogg.Page.capture = false)
    (hquiet : ∀ e ∈ (convert o drawn (Recording.ofBytes o.filterAudioTrack input)).log,
      keep e = false) :
    (remux o drawn input).log.filter keep
      = (Recording.ofBytes o.filterAudioTrack input).findings.filterMap
        fun f => f.entry?.filter keep := by
  have hnone :
      (convert o drawn (Recording.ofBytes o.filterAudioTrack input)).log.filter keep = [] :=
    List.filter_eq_nil_iff.2 fun e he => Bool.eq_false_iff.1 (hquiet e he)
  rw [log_remux hinput, List.filter_append, hnone, List.append_nil, List.filter_filterMap]

/-- How often a kind of entry is told, from what each finding tells. -/
theorem countP_log_remux {keep : LogEntry → Bool} {seen : Finding → Bool}
    (hinput : Bytes.startsWith input Ogg.Page.capture = false)
    (hquiet : ∀ e ∈ (convert o drawn (Recording.ofBytes o.filterAudioTrack input)).log,
      keep e = false) (hseen : ∀ f : Finding, (f.entry?.filter keep).isSome = seen f) :
    (remux o drawn input).log.countP keep
      = (Recording.ofBytes o.filterAudioTrack input).findings.countP seen := by
  rw [List.countP_eq_length_filter, filter_log_remux hinput hquiet,
    List.length_filterMap_eq_countP]
  simp only [hseen]

theorem sequence_audio_lt (hr : r.frames ≠ []) (hcount : r.frames.length < 2 ^ 32 - 2)
    (hsize : (Ogg.Cut.ofPackets o.limits r.frames).oversized = none) {a : Ogg.AudioPage}
    (ha : a ∈ audio o r) : a.sequence < 2 ^ 32 := by
  obtain ⟨i, hi⟩ := List.mem_iff_getElem?.1 ha
  obtain ⟨hlt, -⟩ := List.getElem?_eq_some_iff.1 hi
  have hle := length_audio_le hr hsize
  rw [Ogg.AudioPage.sequence_ofGroups hi, Ogg.AudioPage.firstSequence]
  omega

theorem ofPage?_audioPage {a : Ogg.AudioPage} (hsequence : a.sequence < 2 ^ 32)
    (hgranule : a.granule < 2 ^ 64) (serial : UInt32) (flags : UInt8) :
    LogEntry.ofPage? (a.page serial flags) = some (pageNotice a).entry := by
  have hpackets : (a.page serial flags).packets? = some a.packets := Ogg.Page.packets?_ofPackets ..
  have hnumber : (a.page serial flags).sequence.toNat = a.sequence :=
    Nat.mod_eq_of_lt hsequence
  have htime : (a.page serial flags).granule.toNat = a.granule := Nat.mod_eq_of_lt hgranule
  rw [LogEntry.ofPage?, hpackets, hnumber, htime]
  rfl

/-- The pages that are written are told as they are. -/
theorem map_ofPage?_audioPages (serial : UInt32) (hr : r.frames ≠ [])
    (hcount : r.frames.length < 2 ^ 32 - 2)
    (hsize : (Ogg.Cut.ofPackets o.limits r.frames).oversized = none) :
    (Ogg.audioPages serial (audio o r)).map LogEntry.ofPage?
      = (audio o r).map fun a => some (pageNotice a).entry := by
  rw [Ogg.map_audioPages (g := fun a => LogEntry.ofPage? (a.page serial 0)) serial
    fun a flags => rfl]
  refine List.map_congr_left fun a ha => ?_
  have hgranule : a.granule < 2 ^ 64 := by
    have hle := granule_audio_le hsize ha
    have hplayed := played_lt hcount
    omega
  exact ofPage?_audioPage (sequence_audio_lt hr hcount hsize ha) hgranule serial 0

/-- What a log has to tell of a recording that was read. -/
structure TellsOf (log : List LogEntry) (r : Recording) : Prop where
  stops_eq : log.filter LogEntry.isStop = r.issues.map LogEntry.ofIssue
  laced_eq : log.countP LogEntry.isLacedBlock = r.lacedBlocks
  skipped_eq : log.countP LogEntry.isSkippedBlock = r.skippedBlocks
  offsets_eq : (log.filter LogEntry.isBlock).map (·.field? "offset")
    = r.notedPlaces.map fun place => some (toString place.contentOffset)
  offsets_increase : (r.notedPlaces.map Extent.contentOffset).Pairwise (· < ·)

theorem tellsOf_log_remux (hinput : Bytes.startsWith input Ogg.Page.capture = false) :
    TellsOf (remux o drawn input).log (Recording.ofBytes o.filterAudioTrack input) where
  stops_eq := by
    rw [filter_log_remux hinput fun e he => (quiet_convert he).1, Recording.issues,
      List.map_filterMap]
    exact List.filterMap_congr fun f _ => f.told.stop_eq
  laced_eq := countP_log_remux hinput
    (fun e he => (Bool.or_eq_false_iff.1 (quiet_convert he).2).1) fun f => f.told.laced_eq
  skipped_eq := countP_log_remux hinput
    (fun e he => (Bool.or_eq_false_iff.1 (quiet_convert he).2).2) fun f => f.told.skipped_eq
  offsets_eq := by
    rw [filter_log_remux hinput fun e he => (quiet_convert he).2, Recording.notedPlaces,
      List.map_filterMap, List.map_filterMap]
    exact List.filterMap_congr fun f _ => f.told.offset_eq
  offsets_increase := List.pairwise_map.2 (Recording.pairwise_notedPlaces _ _)

theorem filter_isPage_log_remux
    (hinput : Bytes.startsWith input Ogg.Page.capture = false) :
    (remux o drawn input).log.filter LogEntry.isPage
      = (convert o drawn (Recording.ofBytes o.filterAudioTrack input)).log.filter
        LogEntry.isPage := by
  have hnone (findings : List Finding) :
      (findings.filterMap Finding.entry?).filter LogEntry.isPage = [] := by
    rw [List.filter_filterMap]
    exact List.filterMap_eq_nil_iff.2 fun f _ => f.told.page_eq
  rw [log_remux hinput, List.filter_append, hnone, List.nil_append]

/-- The log of a conversion of a recording agrees with what was read, however the conversion ends,
and with the audio pages of what was written. -/
theorem log_of_remux (drawn : Except String UInt32)
    (hinput : Bytes.startsWith input Ogg.Page.capture = false) :
    TellsOf (remux o drawn input).log (Recording.ofBytes o.filterAudioTrack input)
      ∧ ((Utf8.encode o.vendor).length ≤ 65008 →
        (Recording.ofBytes o.filterAudioTrack input).frames.length < 2 ^ 32 - 2 →
        ∀ out, (remux o drawn input).result = .ok out → ∃ pages, Ogg.pages out.data = .ok pages
          ∧ (pages.drop 2).map LogEntry.ofPage?
            = ((remux o drawn input).log.filter LogEntry.isPage).map some) := by
  refine ⟨tellsOf_log_remux hinput, fun hvendor hcount out hout => ?_⟩
  rw [remux_result hinput, convert_eq_ok_iff] at hout
  obtain ⟨hrefusal, serial, hserial, hroom, hsize, rfl⟩ := hout
  have hr := frames_ne_nil_of_refusal? hrefusal
  have hdrop : (streamPages o (Recording.ofBytes o.filterAudioTrack input) serial).drop 2
      = Ogg.audioPages serial (audio o (Recording.ofBytes o.filterAudioTrack input)) := rfl
  refine ⟨_, pages_output hvendor hr hsize, ?_⟩
  rw [hdrop, map_ofPage?_audioPages serial hr hcount hsize, filter_isPage_log_remux hinput,
    filter_isPage_convert hrefusal hserial (isReservable_limits_iff.1 hroom), List.map_map]
  rfl

/-- A track 1 of audio, a block of track 2, a laced block of track 1, and a stray byte. -/
def mixedBlocks : Bytes :=
  [0x16, 0x54, 0xAE, 0x6B, 0x88, 0xAE, 0x86, 0xD7, 0x81, 0x01, 0x83, 0x81, 0x02,
    0xA3, 0x85, 0x82, 0x00, 0x00, 0x80, 0xFC, 0xA3, 0x85, 0x81, 0x00, 0x00, 0x82, 0xFC, 0x00]

theorem remux_mixedBlocks : (remux onePerPage (.ok 7) mixedBlocks).result
    = .ok (output onePerPage (Recording.ofBytes true mixedBlocks) 7) :=
  remux_eq_output (by decide) (by decide +kernel) rfl (by decide) (by decide +kernel)

theorem log_of_remux_mixedBlocks :
    (remux onePerPage (.ok 7) mixedBlocks).log.filter LogEntry.isStop
        = [LogEntry.ofIssue ⟨Event.root, 27, .badId⟩]
      ∧ (remux onePerPage (.ok 7) mixedBlocks).log.countP LogEntry.isLacedBlock = 1
      ∧ (remux onePerPage (.ok 7) mixedBlocks).log.countP LogEntry.isSkippedBlock = 1
      ∧ ((remux onePerPage (.ok 7) mixedBlocks).log.filter LogEntry.isBlock).map (·.field? "offset")
        = [some "15", some "22"]
      ∧ ∃ out, (remux onePerPage (.ok 7) mixedBlocks).result = .ok out
        ∧ ∃ pages, Ogg.pages out.data = .ok pages
          ∧ (pages.drop 2).map LogEntry.ofPage?
            = ((remux onePerPage (.ok 7) mixedBlocks).log.filter LogEntry.isPage).map some := by
  have hinput : Bytes.startsWith mixedBlocks Ogg.Page.capture = false := by decide
  obtain ⟨hread, hwritten⟩ := log_of_remux (o := onePerPage) (.ok 7) hinput
  exact ⟨hread.stops_eq.trans (by decide +kernel), hread.laced_eq.trans (by decide +kernel),
    hread.skipped_eq.trans (by decide +kernel), hread.offsets_eq.trans (by decide +kernel), _,
    remux_mixedBlocks, hwritten (by decide +kernel) (by decide +kernel) _ remux_mixedBlocks⟩

end Remux

end Transmux
