import Transmux.Proofs.ChecksumRemainder
import Transmux.Proofs.PageStreams

/-! Burst errors. A page that is damaged in no more consecutive bits than its checksum has does not
keep a valid checksum, wherever the burst lies, unless it reaches into the checksum from outside or
touches the version, which the checksum is not taken of. -/

namespace Transmux.Ogg

namespace Checksum

theorem bits_injective {a b : UInt8} (h : bits a = bits b) : a = b := by
  rw [← UInt8.toNat_inj]
  apply Nat.eq_of_testBit_eq
  intro i
  by_cases hi : i < 8
  · have hbit := congrArg (fun bs : List Bool => bs[7 - i]?) h
    have hplace : 7 - (7 - i) = i := by omega
    have hlt : 7 - i < 8 := by omega
    simpa [bits, hplace, hlt] using hbit
  · have hpow : 2 ^ 8 ≤ 2 ^ i := Nat.pow_le_pow_right (by decide) (by omega)
    rw [Nat.testBit_lt_two_pow (Nat.lt_of_lt_of_le a.toNat_lt hpow),
      Nat.testBit_lt_two_pow (Nat.lt_of_lt_of_le b.toNat_lt hpow)]

theorem bitsOf_injective {a b : Bytes} (h : bitsOf a = bitsOf b) : a = b := by
  induction a generalizing b with
  | nil =>
    have hlength := congrArg List.length h
    rw [length_bitsOf, length_bitsOf] at hlength
    exact (List.length_eq_zero_iff.1 (by simpa using hlength.symm)).symm
  | cons x a ih =>
    cases b with
    | nil =>
      have hlength := congrArg List.length h
      rw [length_bitsOf, length_bitsOf] at hlength
      simp at hlength
    | cons y b =>
      obtain ⟨hfirst, hrest⟩ := List.append_inj h ((length_bits x).trans (length_bits y).symm)
      rw [bits_injective hfirst, ih hrest]

theorem eq_of_getElem?_bits {a b : Bytes}
    (h : ∀ i : Nat, (bitsOf a)[i]? = (bitsOf b)[i]?) : a = b :=
  bitsOf_injective (List.ext_getElem? h)

/-- Whether two rows of bits agree but for 32 of them that follow one another. -/
def AgreeOutside (start : Nat) (a b : List Bool) : Prop :=
  ∀ i, ¬ (start ≤ i ∧ i < start + 32) → a[i]? = b[i]?

theorem agreeOutside_iff {start : Nat} {a b : List Bool} :
    AgreeOutside start a b
      ↔ a.take start = b.take start ∧ a.drop (start + 32) = b.drop (start + 32) := by
  constructor
  · intro h
    constructor
    · apply List.ext_getElem?
      intro i
      rw [List.getElem?_take, List.getElem?_take]
      by_cases hi : i < start
      · rw [if_pos hi, if_pos hi]
        exact h i (by omega)
      · rw [if_neg hi, if_neg hi]
    · apply List.ext_getElem?
      intro i
      rw [List.getElem?_drop, List.getElem?_drop]
      exact h _ (by omega)
  · rintro ⟨hfront, hback⟩ i hi
    by_cases hstart : i < start
    · have hbit := congrArg (·[i]?) hfront
      simpa only [List.getElem?_take, if_pos hstart] using hbit
    · have hbit := congrArg (·[i - (start + 32)]?) hback
      have hplace : start + 32 + (i - (start + 32)) = i := by omega
      simpa only [List.getElem?_drop, hplace] using hbit

instance (start : Nat) (a b : List Bool) : Decidable (AgreeOutside start a b) :=
  decidable_of_iff _ agreeOutside_iff.symm

/-- Rows of bits that agree but for a burst have different remainders, unless they are the same. -/
theorem eq_of_agreeOutside {start : Nat} {a b : List Bool} (hlength : a.length = b.length)
    (h : AgreeOutside start a b) (hremainder : ofBits a = ofBits b) : a = b := by
  obtain ⟨hfront, hback⟩ := agreeOutside_iff.1 h
  rw [← List.drop_drop, ← List.drop_drop] at hback
  have hsplit (bs : List Bool) :
      bs.take start ++ ((bs.drop start).take 32 ++ (bs.drop start).drop 32) = bs := by
    rw [List.take_append_drop, List.take_append_drop]
  have hburst : (a.drop start).take 32 = (b.drop start).take 32 := by
    have hsame : ((a.drop start).take 32).length = ((b.drop start).take 32).length := by
      simp [hlength]
    rw [← hsplit a, ← hsplit b, hfront, hback] at hremainder
    exact ofBits_burst_injective hsame (List.length_take_le ..) hremainder
  rw [← hsplit a, ← hsplit b, hfront, hback, hburst]

end Checksum

open Checksum (bitsOf AgreeOutside)

namespace Page

def front (p : Page) : Bytes :=
  capture ++ [p.version, p.flags] ++ Bytes.le 8 p.granule.toNat ++ Bytes.le 4 p.serial.toNat
    ++ Bytes.le 4 p.sequence.toNat

def back (p : Page) : Bytes :=
  [UInt8.ofNat p.segments.length] ++ p.segments ++ p.body

/-- The page as the checksum is taken of it. -/
def blank (p : Page) : Page :=
  { p with version := 0, checksum := 0 }

theorem layout_parts (p : Page) :
    p.layout = p.front ++ (Bytes.le 4 p.checksum.toNat ++ p.back) := by
  simp [layout, front, back]

theorem length_front (p : Page) : p.front.length = 22 := by
  simp [front, capture]

theorem checksumValid_iff (p : Page) :
    p.checksumValid = true ↔ Ogg.checksum p.blank.layout = p.checksum := by
  simp only [checksumValid, Page.sealed, blank, beq_iff_eq]

theorem layout_blank {p : Page} (h : p.version = 0) :
    p.blank.layout = p.front ++ (Bytes.le 4 0 ++ p.back) := by
  have hfront : p.blank.front = p.front := by
    rw [front, front, h]
    rfl
  have hback : p.blank.back = p.back := rfl
  rw [layout_parts, hfront, hback]
  rfl

theorem checksum_eq_of_le {a b : UInt32} (h : Bytes.le 4 a.toNat = Bytes.le 4 b.toNat) : a = b := by
  have hvalue := congrArg Bytes.ofLe h
  rw [Bytes.ofLe_toNat_uint32, Bytes.ofLe_toNat_uint32] at hvalue
  exact UInt32.toNat_inj.1 hvalue

/-- The first bit of the checksum, and the first one behind it. -/
def checksumStart : Nat := 8 * 22
def checksumStop : Nat := 8 * 26

theorem checksumStop_eq : checksumStop = checksumStart + 32 := by
  simp only [checksumStop, checksumStart]

/-- The bits of a page with any four bytes in the place of its checksum. -/
theorem getElem?_bits_of_checksum {p : Page} {field : Bytes} (hfield : field.length = 4) (i : Nat) :
    (bitsOf (p.front ++ (field ++ p.back)))[i]?
      = if i < checksumStart then (bitsOf p.front)[i]?
        else if i < checksumStop then (bitsOf field)[i - checksumStart]?
        else (bitsOf p.back)[i - checksumStop]? := by
  have hfront : (bitsOf p.front).length = checksumStart := by
    rw [Checksum.length_bitsOf, length_front, checksumStart]
  have hbits : (bitsOf field).length = 32 := by
    rw [Checksum.length_bitsOf, hfield]
  have hstop := checksumStop_eq
  have hwithin : ¬ i < checksumStart → (i - checksumStart < 32 ↔ i < checksumStop) := by
    omega
  rw [Checksum.bitsOf_append, Checksum.bitsOf_append, List.getElem?_append, hfront,
    List.getElem?_append, hbits, hstop, ← Nat.sub_sub, ← hstop]
  by_cases hstart : i < checksumStart
  · rw [if_pos hstart, if_pos hstart]
  · rw [if_neg hstart, if_neg hstart]
    exact if_congr (hwithin hstart) rfl rfl

theorem getElem?_bits_layout (p : Page) (i : Nat) :
    (bitsOf p.layout)[i]?
      = if i < checksumStart then (bitsOf p.front)[i]?
        else if i < checksumStop then (bitsOf (Bytes.le 4 p.checksum.toNat))[i - checksumStart]?
        else (bitsOf p.back)[i - checksumStop]? := by
  rw [layout_parts]
  exact getElem?_bits_of_checksum (Bytes.length_le ..) i

theorem getElem?_bits_blank {p : Page} (h : p.version = 0) (i : Nat) :
    (bitsOf p.blank.layout)[i]?
      = if i < checksumStart then (bitsOf p.front)[i]?
        else if i < checksumStop then (bitsOf (Bytes.le 4 0))[i - checksumStart]?
        else (bitsOf p.back)[i - checksumStop]? := by
  rw [layout_blank h]
  exact getElem?_bits_of_checksum (Bytes.length_le ..) i

variable {p q : Page} {start : Nat}

theorem agreeOutside_blank (hp : p.version = 0) (hq : q.version = 0)
    (h : AgreeOutside start (bitsOf p.layout) (bitsOf q.layout)) :
    AgreeOutside start (bitsOf p.blank.layout) (bitsOf q.blank.layout) := by
  intro i hi
  have hagree := h i hi
  rw [getElem?_bits_layout, getElem?_bits_layout] at hagree
  rw [getElem?_bits_blank hp, getElem?_bits_blank hq]
  by_cases hstart : i < checksumStart
  · simpa only [if_pos hstart] using hagree
  · by_cases hstop : i < checksumStop
    · simp only [if_neg hstart, if_pos hstop]
    · simpa only [if_neg hstart, if_neg hstop] using hagree

theorem checksum_eq_of_agreeOutside (hplace : start + 32 ≤ checksumStart ∨ checksumStop ≤ start)
    (h : AgreeOutside start (bitsOf p.layout) (bitsOf q.layout)) : p.checksum = q.checksum := by
  apply checksum_eq_of_le
  apply Checksum.eq_of_getElem?_bits
  intro i
  have hstop := checksumStop_eq
  by_cases hi : i < 32
  · have hagree := h (checksumStart + i) (by omega)
    have hfrom : ¬ checksumStart + i < checksumStart := by omega
    have hto : checksumStart + i < checksumStop := by omega
    rw [getElem?_bits_layout, getElem?_bits_layout] at hagree
    simpa only [if_neg hfrom, if_pos hto, Nat.add_sub_cancel_left] using hagree
  · rw [List.getElem?_eq_none, List.getElem?_eq_none]
    · rw [Checksum.length_bitsOf, Bytes.length_le]
      omega
    · rw [Checksum.length_bitsOf, Bytes.length_le]
      omega

theorem layout_blank_eq_of_agreeOutside (hp : p.version = 0) (hq : q.version = 0)
    (h : AgreeOutside checksumStart (bitsOf p.layout) (bitsOf q.layout)) :
    p.blank.layout = q.blank.layout := by
  apply Checksum.eq_of_getElem?_bits
  intro i
  by_cases hi : checksumStart ≤ i ∧ i < checksumStart + 32
  · have hstop := checksumStop_eq
    have hfrom : ¬ i < checksumStart := by omega
    have hto : i < checksumStop := by omega
    rw [getElem?_bits_blank hp, getElem?_bits_blank hq]
    simp only [if_neg hfrom, if_pos hto]
  · exact agreeOutside_blank hp hq h i hi

theorem layout_eq_of_blank (hp : p.version = 0) (hq : q.version = 0)
    (hblank : p.blank.layout = q.blank.layout) (hchecksum : p.checksum = q.checksum) :
    p.layout = q.layout := by
  rw [layout_blank hp, layout_blank hq] at hblank
  obtain ⟨hfront, hrest⟩ := List.append_inj hblank (p.length_front.trans q.length_front.symm)
  rw [layout_parts, layout_parts, hfront, List.append_cancel_left hrest, hchecksum]

/-- Pages with valid checksums do not differ by a burst alone. -/
theorem layout_eq_of_agreeOutside (hp : p.version = 0) (hq : q.version = 0)
    (hpvalid : p.checksumValid = true) (hqvalid : q.checksumValid = true)
    (hlength : p.layout.length = q.layout.length)
    (hplace : start = checksumStart ∨ start + 32 ≤ checksumStart ∨ checksumStop ≤ start)
    (h : AgreeOutside start (bitsOf p.layout) (bitsOf q.layout)) : p.layout = q.layout := by
  rw [checksumValid_iff] at hpvalid hqvalid
  rcases hplace with rfl | houtside
  · -- the checksums are taken of the same bytes, so they do not differ either
    have hblank := layout_blank_eq_of_agreeOutside hp hq h
    apply layout_eq_of_blank hp hq hblank
    rw [← hpvalid, ← hqvalid, hblank]
  · -- the checksums are the same, so the burst is in what they are taken of
    have hchecksum := checksum_eq_of_agreeOutside houtside h
    have hremainder := hpvalid.trans (hchecksum.trans hqvalid.symm)
    rw [Checksum.checksum_eq_ofBits, Checksum.checksum_eq_ofBits] at hremainder
    apply layout_eq_of_blank hp hq _ hchecksum
    apply Checksum.bitsOf_injective
    apply Checksum.eq_of_agreeOutside _ (agreeOutside_blank hp hq h) hremainder
    rw [length_layout, length_layout] at hlength
    rw [Checksum.length_bitsOf, Checksum.length_bitsOf, length_layout, length_layout]
    exact congrArg (8 * ·) hlength

theorem getElem?_layout_version (p : Page) : p.layout[4]? = some p.version :=
  rfl

end Page

/-- A page that was written and then damaged by a burst, within its checksum or outside it, is not
read as a page with a valid checksum. -/
theorem burst_detected (d : PacketPage) {damaged : Bytes} {start : Nat}
    (hlength : damaged.length = d.page.layout.length) (hne : damaged ≠ d.page.layout)
    (hversion : damaged[4]? = d.page.layout[4]?)
    (hburst : AgreeOutside start (bitsOf d.page.layout) (bitsOf damaged))
    (hplace : Page.checksumStart ≤ start ∧ start + 32 ≤ Page.checksumStop
      ∨ start + 32 ≤ Page.checksumStart ∨ Page.checksumStop ≤ start)
    {q : Page} (hread : pages damaged = .ok [q]) (hcover : q.length = damaged.length) :
    q.checksumValid = false := by
  obtain ⟨-, rest, -, hdamaged⟩ := pages_eq_ok_iff.1 hread
  obtain rfl : damaged = q.layout := by
    have hrest := congrArg List.length hdamaged
    simp only [List.flatMap_cons, List.flatMap_nil, List.append_nil, List.length_append,
      Page.length_layout, hcover] at hrest
    have hnil : rest = [] := List.length_eq_zero_iff.1 (by omega)
    simpa [hnil] using hdamaged
  have hd : d.page.version = 0 := rfl
  have hq : q.version = 0 := by
    rw [Page.getElem?_layout_version, Page.getElem?_layout_version, hd] at hversion
    exact Option.some.inj hversion
  have hplace' : start = Page.checksumStart ∨ start + 32 ≤ Page.checksumStart
      ∨ Page.checksumStop ≤ start := by
    have hstop := Page.checksumStop_eq
    omega
  cases hvalid : q.checksumValid with
  | false => rfl
  | true =>
    have hsame := Page.layout_eq_of_agreeOutside hd hq d.readAs_page.checksum_valid hvalid
      hlength.symm hplace' hburst
    exact absurd hsame.symm hne

def unevenPackets : PacketPage :=
  ⟨Page.beginning, 960, 7, 2, [[1, 2], [3]]⟩

/-- The same page with the two lengths in its segment table exchanged. -/
def exchangedLengths : Page :=
  { unevenPackets.page with segments := [1, 2] }

theorem burst_detected_exchangedLengths :
    pages exchangedLengths.layout = .ok [exchangedLengths]
      ∧ exchangedLengths.packets? = some [[1], [2, 3]]
      ∧ exchangedLengths.checksumValid = false := by
  have hread : pages exchangedLengths.layout = .ok [exchangedLengths] := by
    have hconsistent : exchangedLengths.Consistent := ⟨by decide +kernel, by decide +kernel⟩
    have hlayouts : ∀ p ∈ [exchangedLengths], p.Consistent := by simpa using hconsistent
    simpa using pages_layouts hlayouts
  have hburst : AgreeOutside Page.checksumStop (bitsOf unevenPackets.page.layout)
      (bitsOf exchangedLengths.layout) := by
    decide +kernel
  have hversion : exchangedLengths.layout[4]? = unevenPackets.page.layout[4]? := by
    rw [Page.getElem?_layout_version, Page.getElem?_layout_version]
    rfl
  refine ⟨hread, by decide +kernel, ?_⟩
  exact burst_detected unevenPackets (by decide +kernel) (by decide +kernel) hversion hburst
    (Or.inr (Or.inr (Nat.le_refl _))) hread (Page.length_layout _).symm

end Transmux.Ogg
