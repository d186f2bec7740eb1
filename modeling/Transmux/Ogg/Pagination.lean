import Transmux.Ogg.Page
import Transmux.Opus.Toc
import Transmux.Options.Basic

/-! Packing packets into pages: a list of packets is cut into groups, each as long as the limits
allow, and each group becomes a page that knows how much has been played at its end. -/

namespace Transmux

/-- Whether room for the packets of one page can be asked for. It is asked for all of them at once,
sixteen bytes each, and no more bytes than half of what 64 bits can address are ever given. Whether
a machine has that many is left open. -/
def Limits.isReservable (l : Limits) : Bool :=
  16 * l.packets < 1 <<< 63

namespace Ogg

/-- A list of packets cut into groups up to a packet that fits on no page. -/
structure Cut where
  groups : List (List Bytes)
  oversized : Option Bytes
deriving DecidableEq

namespace Cut

/-- Cuts packets one at a time. `closed` are the finished groups and `pending` the packets of the
unfinished one, both last first; `count` and `segments` measure the unfinished one. -/
def extend (l : Limits) (closed : List (List Bytes)) (pending : List Bytes) (count segments : Nat) :
    List Bytes → Cut
  | [] => ⟨(pending.reverse :: closed).reverse, none⟩
  | packet :: packets =>
    let n := SegmentTable.count packet.length
    if SegmentTable.maxLength < n then ⟨closed.reverse, some packet⟩
    else if pending ≠ [] ∧ (l.packets ≤ count ∨ l.segments < segments + n) then
      extend l (pending.reverse :: closed) [packet] 1 n packets
    else extend l closed (packet :: pending) (count + 1) (segments + n) packets

/-- A group is closed only when the next packet would break a limit. -/
def ofPackets (l : Limits) (packets : List Bytes) : Cut :=
  extend l [] [] 0 0 packets

end Cut

/-- A group of packets with its place in the stream. -/
structure AudioPage where
  sequence : Nat
  /-- Samples played at the end of the page. -/
  granule : Nat
  packets : List Bytes
deriving DecidableEq

namespace AudioPage

/-- Two header pages go before the audio. -/
def firstSequence : Nat := 2

/-- Numbers groups from a sequence number on, after so many samples, and puts them after the pages
`done`, last first. -/
def number (sequence granule : Nat) (done : List AudioPage) : List (List Bytes) → List AudioPage
  | [] => done.reverse
  | group :: groups =>
    let granule := granule + (group.map Opus.samples).sum
    number (sequence + 1) granule (⟨sequence, granule, group⟩ :: done) groups

def ofGroups (groups : List (List Bytes)) : List AudioPage :=
  number firstSequence 0 [] groups

def page (a : AudioPage) (serial : UInt32) (flags : UInt8) : Page :=
  .ofPackets flags (UInt64.ofNat a.granule) serial (UInt32.ofNat a.sequence) a.packets

end AudioPage

/-- The pages of a whole stream of audio: the last one ends it. -/
def audioPages (serial : UInt32) (pages : List AudioPage) : List Page :=
  pages.dropLast.map (fun a => a.page serial 0)
    ++ (pages.getLast?.map fun a => a.page serial Page.ending).toList

end Ogg

end Transmux
