import Transmux.Ogg.Page
import Transmux.Ogg.Source

/-! Reading pages one after the other from a source, and all pages of a byte string. -/

namespace Transmux.Ogg

namespace Page

/-- The page with these 27 bytes in front of its segment table and body. -/
def ofHeader (header : Bytes) (segments : SegmentTable) (body : Bytes) : Page where
  version := UInt8.ofNat (Bytes.ofLe ((header.drop 4).take 1))
  flags := UInt8.ofNat (Bytes.ofLe ((header.drop 5).take 1))
  granule := UInt64.ofNat (Bytes.ofLe ((header.drop 6).take 8))
  serial := UInt32.ofNat (Bytes.ofLe ((header.drop 14).take 4))
  sequence := UInt32.ofNat (Bytes.ofLe ((header.drop 18).take 4))
  checksum := UInt32.ofNat (Bytes.ofLe ((header.drop 22).take 4))
  segments := segments
  body := body

/-- The segment count that 27 header bytes tell. -/
def segmentCount (header : Bytes) : Nat :=
  Bytes.ofLe (header.drop 26)

end Page

namespace Source

/-- Takes the table and the body that belong to a header. -/
def takeContent (s : Source) (header : Bytes) : Except ReadError Page × Source :=
  match s.take (Page.segmentCount header) with
  | (.error e, s) => (.error e, s)
  | (.ok segments, s) =>
    match s.take (SegmentTable.total segments) with
    | (.error e, s) => (.error e, s)
    | (.ok body, s) => (.ok (.ofHeader header segments body), s)

/-- Reads the next page. A source that ends before a whole header has no more pages, even if a few
bytes are left. -/
def nextPage (s : Source) : Except ReadError (Option Page) × Source :=
  match s.take Page.headerLength with
  | (.error .unexpectedEnd, s) => (.ok none, s)
  | (.error e, s) => (.error e, s)
  | (.ok header, s) =>
    if header.take 4 = Page.capture then
      match s.takeContent header with
      | (.error e, s) => (.error e, s)
      | (.ok page, s) => (.ok (some page), s)
    else (.error .badCapture, s)

theorem length_take_le {s s' : Source} {n : Nat} {r : Except ReadError Bytes}
    (h : s.take n = (r, s')) : s'.rest.length ≤ s.rest.length := by
  unfold take at h
  split at h
  next front rest hs =>
    obtain ⟨-, rfl⟩ := Prod.mk.inj h
    rw [(Bytes.split?_eq_some_iff.1 hs).1]
    simp
  next =>
    obtain ⟨-, rfl⟩ := Prod.mk.inj h
    simp

theorem length_take_ok {s s' : Source} {n : Nat} {front : Bytes}
    (h : s.take n = (.ok front, s')) : s'.rest.length + n = s.rest.length := by
  unfold take at h
  split at h
  next a rest hs =>
    obtain ⟨-, rfl⟩ := Prod.mk.inj h
    have hb := Bytes.split?_eq_some_iff.1 hs
    rw [hb.1, List.length_append, hb.2]
    simp [Nat.add_comm]
  next => simp at h

theorem length_takeContent_le {s s' : Source} {header : Bytes} {r : Except ReadError Page}
    (h : s.takeContent header = (r, s')) : s'.rest.length ≤ s.rest.length := by
  unfold takeContent at h
  split at h
  next e t ht =>
    obtain ⟨-, rfl⟩ := Prod.mk.inj h
    exact length_take_le ht
  next segments t ht =>
    split at h
    all_goals
      next hu =>
        obtain ⟨-, rfl⟩ := Prod.mk.inj h
        exact Nat.le_trans (length_take_le hu) (length_take_le ht)

/-- A page takes bytes from its source. -/
theorem length_nextPage_lt {s s' : Source} {page : Page}
    (h : s.nextPage = (.ok (some page), s')) : s'.rest.length < s.rest.length := by
  unfold nextPage at h
  split at h
  · simp at h
  · simp at h
  · next header t ht =>
    have ht' := length_take_ok ht
    simp only [Page.headerLength] at ht'
    split at h
    · split at h
      · simp at h
      · next p u hu =>
        have hu' := length_takeContent_le hu
        obtain ⟨-, rfl⟩ := Prod.mk.inj h
        omega
    · simp at h

/-- Reads pages until the source ends or fails, and puts them after those `seen`, last first. -/
def readPages (s : Source) (seen : List Page) : Except ReadError (List Page) :=
  match _h : s.nextPage with
  | (.error e, _) => .error e
  | (.ok none, _) => .ok seen.reverse
  | (.ok (some page), s') => readPages s' (page :: seen)
termination_by s.rest.length
decreasing_by exact length_nextPage_lt _h

end Source

/-- All pages of a byte string. -/
def pages (bytes : Bytes) : Except ReadError (List Page) :=
  Source.readPages ⟨bytes, false⟩ []

end Transmux.Ogg
