import Transmux.Proofs.RemuxedStream

/-! How a conversion ends. The policy comes first, then the want of packets, then the want of room
for as many as may share a page, and last the first packet that fits on no page; nothing else keeps
a stream from being written. -/

namespace Transmux

namespace Ogg.SegmentTable

/-- A table of 255 values ends a packet of 65024 bytes, and none that is longer. -/
theorem maxLength_lt_count_iff (n : Nat) : maxLength < count n ↔ 65025 ≤ n := by
  simp only [maxLength, count]
  omega

end Ogg.SegmentTable

namespace Remux

def isOversized (packet : Bytes) : Bool :=
  65025 ≤ packet.length

/-- Whether the policy of the options lets a recording pass. -/
def Accepts (o : Options) (r : Recording) : Prop :=
  o.parsePolicy = .strict → r.issues = []

variable {o : Options} {r : Recording} {serial : UInt32} (drawn : Except String UInt32)

theorem oversized_ofPackets_eq_find? (l : Limits) (packets : List Bytes) :
    (Ogg.Cut.ofPackets l packets).oversized = packets.find? isOversized := by
  rw [Ogg.Cut.oversized_ofPackets]
  congr 1
  funext packet
  exact decide_eq_decide.2 (Ogg.SegmentTable.maxLength_lt_count_iff _)

theorem find?_isOversized_eq_none_iff {packets : List Bytes} :
    packets.find? isOversized = none ↔ ∀ packet ∈ packets, packet.length < 65025 := by
  simp [isOversized]

theorem refusal?_of_issue {issue : Issue} (hstrict : o.parsePolicy = .strict)
    (hissue : r.issues.head? = some issue) : refusal? o r = some (.truncated issue) := by
  obtain ⟨issues, hissues⟩ := List.head?_eq_some_iff.1 hissue
  simp only [refusal?, hstrict, hissues]

theorem refusal?_of_accepts (h : Accepts o r) :
    refusal? o r = if r.frames = [] then some .noFrames else none := by
  cases hpolicy : o.parsePolicy with
  | lenient => simp only [refusal?, hpolicy]
  | strict => simp only [refusal?, hpolicy, h hpolicy]

theorem issue_or_accepts (o : Options) (r : Recording) :
    (o.parsePolicy = .strict ∧ ∃ issue, r.issues.head? = some issue) ∨ Accepts o r := by
  by_cases hstrict : o.parsePolicy = .strict
  · cases hissues : r.issues with
    | nil => exact .inr fun _ => hissues
    | cons issue issues => exact .inl ⟨hstrict, issue, rfl⟩
  · exact .inr fun h => absurd h hstrict

theorem convert_of_refusal {e : RemuxError} (h : refusal? o r = some e) :
    (convert o drawn r).result = .error e := by
  simp only [convert, h]

theorem convert_of_accepts (h : Accepts o r) (hr : r.frames ≠ [])
    (hserial : o.serial = some serial) :
    (convert o drawn r).result = (write o r serial).result := by
  simp only [convert, refusal?_of_accepts h, if_neg hr, hserial, Option.elim_some]

theorem write_of_oversized (hroom : HasRoom o) {packet : Bytes}
    (h : r.frames.find? isOversized = some packet) :
    (write o r serial).result = .error (.packetTooLarge packet.length) := by
  rw [← oversized_ofPackets_eq_find? o.limits] at h
  rw [write, if_pos (isReservable_limits_iff.2 hroom)]
  simp only [writePages, h]

theorem write_of_fitting (hroom : HasRoom o)
    (h : ∀ packet ∈ r.frames, packet.length < 65025) :
    (write o r serial).result = .ok (output o r serial) := by
  rw [← find?_isOversized_eq_none_iff, ← oversized_ofPackets_eq_find? o.limits] at h
  exact write_eq_ok_iff.2 ⟨isReservable_limits_iff.2 hroom, h, rfl⟩

theorem convert_cases (h : Accepts o r) (hr : r.frames ≠ []) (hserial : o.serial = some serial) :
    ¬ HasRoom o ∧ (convert o drawn r).result = .panicked
    ∨ HasRoom o ∧ (∃ packet, r.frames.find? isOversized = some packet
      ∧ (convert o drawn r).result = .error (.packetTooLarge packet.length))
    ∨ HasRoom o ∧ (∀ packet ∈ r.frames, packet.length < 65025)
      ∧ (convert o drawn r).result = .ok (output o r serial) := by
  rw [convert_of_accepts drawn h hr hserial]
  by_cases hroom : HasRoom o
  · cases hfind : r.frames.find? isOversized with
    | some packet => exact .inr (.inl ⟨hroom, packet, rfl, write_of_oversized hroom hfind⟩)
    | none =>
      have hfits := find?_isOversized_eq_none_iff.1 hfind
      exact .inr (.inr ⟨hroom, hfits, write_of_fitting hroom hfits⟩)
  · exact .inl ⟨hroom, by rw [write_of_not_hasRoom hroom]⟩

/-- What each end of a conversion takes. No two of the conditions hold at once, and one of them
always does. -/
structure Decided (o : Options) (r : Recording) (result : RemuxResult) : Prop where
  truncated_iff (issue : Issue) : result = .error (.truncated issue)
    ↔ o.parsePolicy = .strict ∧ r.issues.head? = some issue
  noFrames_iff : result = .error .noFrames ↔ Accepts o r ∧ r.frames = []
  panicked_iff : result = .panicked
    ↔ Accepts o r ∧ r.frames ≠ [] ∧ ¬ HasRoom o
  packetTooLarge_iff (length : Nat) : result = .error (.packetTooLarge length)
    ↔ Accepts o r ∧ HasRoom o ∧ (r.frames.find? isOversized).map List.length = some length
  written_iff : (∃ out, result = .ok out ∧ out.passedThrough = false)
    ↔ Accepts o r ∧ r.frames ≠ [] ∧ HasRoom o ∧ ∀ packet ∈ r.frames, packet.length < 65025

theorem not_accepts_of_issue {issue : Issue} (hstrict : o.parsePolicy = .strict)
    (hissue : r.issues.head? = some issue) : ¬ Accepts o r := by
  intro h
  rw [h hstrict] at hissue
  cases hissue

theorem decided_convert (hserial : o.serial = some serial) :
    Decided o r (convert o drawn r).result := by
  rcases issue_or_accepts o r with ⟨hstrict, issue, hissue⟩ | h
  · -- the policy comes before everything else, even before the want of packets
    have hresult := convert_of_refusal drawn (refusal?_of_issue hstrict hissue)
    have hrefused := not_accepts_of_issue hstrict hissue
    rw [hresult]
    constructor <;> simp [hstrict, hissue, hrefused]
  · have hno (issue : Issue) : ¬ (o.parsePolicy = .strict ∧ r.issues.head? = some issue) :=
      fun hissue => not_accepts_of_issue hissue.1 hissue.2 h
    by_cases hr : r.frames = []
    · have hresult := convert_of_refusal drawn
        ((refusal?_of_accepts h).trans (if_pos hr))
      rw [hresult]
      constructor <;> simp [hno, h, hr]
    · rcases convert_cases drawn h hr hserial with
        ⟨hroom, hresult⟩ | ⟨hroom, packet, hfind, hresult⟩ | ⟨hroom, hfits, hresult⟩
      · rw [hresult]
        constructor <;> simp [hno, h, hr, hroom]
      · have hsome : ¬ ∀ packet ∈ r.frames, packet.length < 65025 := by
          rw [← find?_isOversized_eq_none_iff, hfind]
          simp
        rw [hresult]
        constructor <;> simp [hno, h, hr, hroom, hfind, hsome]
      · have hnone := find?_isOversized_eq_none_iff.2 hfits
        have hwritten : (output o r serial).passedThrough = false := rfl
        rw [hresult]
        constructor
        · simp [hno]
        · simp [hr]
        · simp [hroom]
        · simp [hnone]
        · exact iff_of_true ⟨_, rfl, hwritten⟩ ⟨h, hr, hroom, hfits⟩

def withPolicy (o : Options) (policy : ParsePolicy) : Options :=
  { o with parsePolicy := policy }

theorem convert_withPolicy (h : r.issues = []) (policy : ParsePolicy) :
    convert (withPolicy o policy) drawn r = convert o drawn r := by
  have haccepts (o : Options) : Accepts o r := fun _ => h
  have hrefusal : refusal? (withPolicy o policy) r = refusal? o r := by
    rw [refusal?_of_accepts (haccepts _), refusal?_of_accepts (haccepts _)]
  simp only [convert, hrefusal]
  rfl

/-- How a conversion with a serial of its own ends follows from the recording. Of the limits for
pages only the one of packets matters, and only where no room can be asked for so many. If the walk
was not stopped, the policy does not matter. -/
theorem outcome_of_remux {input : Bytes}
    (hinput : Bytes.startsWith input Ogg.Page.capture = false) (hserial : o.serial = some serial) :
    Decided o (Recording.ofBytes o.filterAudioTrack input) (remux o drawn input).result
      ∧ ((Recording.ofBytes o.filterAudioTrack input).issues = [] → ∀ policy,
        (remux (withPolicy o policy) drawn input).result = (remux o drawn input).result) := by
  constructor
  · rw [remux_result hinput]
    exact decided_convert drawn hserial
  · intro h policy
    have hpolicy : (remux (withPolicy o policy) drawn input).result
        = (convert (withPolicy o policy) drawn
          (Recording.ofBytes o.filterAudioTrack input)).result := remux_result hinput
    rw [hpolicy, remux_result hinput, convert_withPolicy drawn h]

def strictWithSerial : Options :=
  { serial := some 7, parsePolicy := .strict }

/-- A byte behind the blocks that starts no element: it costs a strict conversion its packets. -/
theorem outcome_of_remux_strayByte :
    (remux strictWithSerial (.ok 0) (twoBlocks ++ [0x00])).result
        = .error (.truncated ⟨Event.root, 15, .badId⟩)
      ∧ ∃ out, (remux (withPolicy strictWithSerial .lenient) (.ok 0)
        (twoBlocks ++ [0x00])).result = .ok out ∧ out.passedThrough = false := by
  have hinput : Bytes.startsWith (twoBlocks ++ [0x00]) Ogg.Page.capture = false := by decide
  have hstrict := outcome_of_remux (o := strictWithSerial) (.ok 0) hinput rfl
  have hlenient := outcome_of_remux (o := withPolicy strictWithSerial .lenient) (.ok 0) hinput rfl
  constructor
  · exact (hstrict.1.truncated_iff _).2 ⟨rfl, by decide +kernel⟩
  · refine hlenient.1.written_iff.2 ⟨fun h => ?_, by decide +kernel, by decide, by decide +kernel⟩
    cases h

/-- A recording of one small packet, whole, and no stream of it: no room can be asked for as many
packets as may share a page. -/
theorem outcome_without_room :
    Bytes.startsWith (twoBlocks.take 7) Ogg.Page.capture = false
      ∧ (Recording.ofBytes true (twoBlocks.take 7)).issues = []
      ∧ (Recording.ofBytes true (twoBlocks.take 7)).frames = [[0xFC]]
      ∧ (remux unlimited (.ok 0) (twoBlocks.take 7)).result = .panicked := by
  have hframes : (Recording.ofBytes true (twoBlocks.take 7)).frames = [[0xFC]] := by decide +kernel
  refine ⟨by decide, by decide +kernel, hframes, ?_⟩
  have hfilter : unlimited.filterAudioTrack = true := rfl
  have haccepts : Accepts unlimited (Recording.ofBytes true (twoBlocks.take 7)) :=
    fun h => by cases h
  have hne : (Recording.ofBytes true (twoBlocks.take 7)).frames ≠ [] := by
    rw [hframes]
    exact List.cons_ne_nil _ _
  rw [remux_result (by decide), hfilter, convert_of_accepts _ haccepts hne rfl,
    write_of_not_hasRoom (by decide)]

end Remux

end Transmux
