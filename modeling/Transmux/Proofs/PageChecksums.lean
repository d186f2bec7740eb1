import Transmux.Proofs.BurstErrors

/-! Checksums of pages against the bytes they were read from. A page that was read is judged by its
fields, laid out anew in the one version that is written. This is a judgement on its bytes as long
as they are of that version, and never agrees with them on a page that stores the checksum of
another one. -/

namespace Transmux.Ogg

/-- The checksum of the bytes of a page, with nothing in the place of the checksum. -/
def ownChecksum (bytes : Bytes) : UInt32 :=
  checksum (bytes.overwrite 22 (Bytes.le 4 0))

/-- The checksum that stands in the bytes of a page. -/
def storedChecksum (bytes : Bytes) : UInt32 :=
  UInt32.ofNat (Bytes.ofLe ((bytes.drop 22).take 4))

namespace Checksum

/-- Byte strings that differ in one byte have different checksums. -/
theorem checksum_byte_injective {front back : Bytes} {a b : UInt8}
    (h : checksum (front ++ ([a] ++ back)) = checksum (front ++ ([b] ++ back))) : a = b := by
  have hbits (c : UInt8) : bitsOf [c] = bits c := List.append_nil _
  have hlength : (bits a).length = (bits b).length := (length_bits a).trans (length_bits b).symm
  have hle : (bits a).length ≤ 32 := by
    rw [length_bits]
    decide
  simp only [checksum_eq_ofBits, bitsOf_append, hbits] at h
  exact bits_injective (ofBits_burst_injective hlength hle h)

end Checksum

namespace Page

/-- The bytes of a page behind its version. -/
def behindVersion (p : Page) : Bytes :=
  [p.flags] ++ Bytes.le 8 p.granule.toNat ++ Bytes.le 4 p.serial.toNat
    ++ Bytes.le 4 p.sequence.toNat ++ Bytes.le 4 p.checksum.toNat ++ p.back

theorem layout_eq_version (p : Page) : p.layout = capture ++ ([p.version] ++ p.behindVersion) := by
  simp [layout, behindVersion, back]

theorem overwrite_version (p : Page) (version : UInt8) :
    p.layout.overwrite 4 [version] = { p with version := version }.layout := by
  have hlength : [version].length = [p.version].length := rfl
  rw [layout_eq_version, layout_eq_version]
  exact Bytes.overwrite_append hlength capture p.behindVersion

theorem overwrite_checksum (p : Page) :
    p.layout.overwrite 22 (Bytes.le 4 0) = { p with checksum := 0 }.layout := by
  have hlength : (Bytes.le 4 0).length = (Bytes.le 4 p.checksum.toNat).length := by
    rw [Bytes.length_le, Bytes.length_le]
  rw [layout_parts, ← p.length_front, Bytes.overwrite_append hlength, layout_parts]
  rfl

theorem storedChecksum_layout (p : Page) : storedChecksum p.layout = p.checksum := by
  have hfield : (p.layout.drop 22).take 4 = Bytes.le 4 p.checksum.toNat := by
    rw [layout_parts, ← p.length_front, List.drop_left]
    exact List.take_left' (Bytes.length_le ..)
  rw [storedChecksum, hfield, Bytes.ofLe_toNat_uint32, UInt32.ofNat_toNat]

/-- What a page is judged by is the checksum of its bytes without their version. -/
theorem ownChecksum_overwrite_version (p : Page) :
    ownChecksum (p.layout.overwrite 4 [0]) = Ogg.checksum p.blank.layout := by
  rw [overwrite_version, ownChecksum, overwrite_checksum]
  rfl

/-- Without its version a page has another checksum, unless the version is zero. -/
theorem version_eq_zero {p : Page} (h : ownChecksum p.layout = Ogg.checksum p.blank.layout) :
    p.version = 0 := by
  rw [ownChecksum, overwrite_checksum, layout_eq_version, layout_eq_version] at h
  exact Checksum.checksum_byte_injective h

end Page

/-- Bytes that are read as one page are its layout. -/
theorem eq_layout_of_pages {bytes : Bytes} {p : Page} (hread : pages bytes = .ok [p])
    (hcover : p.length = bytes.length) : bytes = p.layout := by
  obtain ⟨-, rest, -, hbytes⟩ := pages_eq_ok_iff.1 hread
  rw [List.flatMap_singleton] at hbytes
  have hlength := congrArg List.length hbytes
  rw [List.length_append, Page.length_layout, ← hcover] at hlength
  have hnil : rest = [] := List.length_eq_zero_iff.1 (by omega)
  rw [hbytes, hnil, List.append_nil]

/-- A page that was read is valid just if it stores the checksum of its bytes with version zero. So
it is judged by its bytes if that is their version, and if it is not, a page is never valid that
stores the checksum of its bytes. -/
theorem checksumValid_of_read {bytes : Bytes} {p : Page} (hread : pages bytes = .ok [p])
    (hcover : p.length = bytes.length) :
    (p.checksumValid = true ↔ ownChecksum (bytes.overwrite 4 [0]) = storedChecksum bytes)
      ∧ (bytes[4]? = some 0 →
        (p.checksumValid = true ↔ ownChecksum bytes = storedChecksum bytes))
      ∧ (bytes[4]? ≠ some 0 →
        ¬ (p.checksumValid = true ∧ ownChecksum bytes = storedChecksum bytes)) := by
  obtain rfl := eq_layout_of_pages hread hcover
  have hvalid : p.checksumValid = true
      ↔ ownChecksum (p.layout.overwrite 4 [0]) = storedChecksum p.layout := by
    rw [Page.checksumValid_iff, Page.ownChecksum_overwrite_version, Page.storedChecksum_layout]
  refine ⟨hvalid, fun hversion => ?_, fun hversion => ?_⟩
  · have hzero : p.version = 0 := Option.some.inj hversion
    have hsame : p.layout.overwrite 4 [0] = p.layout := by
      rw [Page.overwrite_version, ← hzero]
    rw [hvalid, hsame]
  · rintro ⟨hjudged, hown⟩
    rw [hvalid, Page.ownChecksum_overwrite_version, ← hown] at hjudged
    exact hversion (congrArg some (Page.version_eq_zero hjudged.symm))

/-- The last page of a stream with one packet of one byte. -/
def shortPage : Page :=
  .ofPackets Page.ending 960 7 1 [[0xFC]]

/-- The same page in version one, with the checksum of its bytes. -/
def laterPage : Page :=
  { shortPage with version := 1, checksum := 0x1EE1B82B }

theorem pages_layout {p : Page} (h : p.Consistent) : pages p.layout = .ok [p] := by
  have hlayouts : ∀ q ∈ [p], q.Consistent := by simpa using h
  simpa using pages_layouts hlayouts

theorem pages_laterPage : pages laterPage.layout = .ok [laterPage] :=
  pages_layout ⟨by decide +kernel, by decide +kernel⟩

theorem checksumValid_of_read_shortPage :
    pages shortPage.layout = .ok [shortPage]
      ∧ (shortPage.checksumValid = true
        ↔ ownChecksum shortPage.layout = storedChecksum shortPage.layout)
      ∧ ¬ (laterPage.checksumValid = true
        ∧ ownChecksum laterPage.layout = storedChecksum laterPage.layout) := by
  have hread : pages shortPage.layout = .ok [shortPage] :=
    pages_layout ⟨by decide +kernel, by decide +kernel⟩
  refine ⟨hread, ?_, ?_⟩
  · exact (checksumValid_of_read hread (Page.length_layout _).symm).2.1 rfl
  · exact (checksumValid_of_read pages_laterPage (Page.length_layout _).symm).2.2 (by decide)

/-- A page of another version that stores the checksum of its bytes does not pass for valid. -/
theorem later_version_misjudged :
    laterPage.layout = [0x4F, 0x67, 0x67, 0x53, 0x01, 0x04, 0xC0, 0x03, 0x00, 0x00, 0x00, 0x00,
        0x00, 0x00, 0x07, 0x00, 0x00, 0x00, 0x01, 0x00, 0x00, 0x00, 0x2B, 0xB8, 0xE1, 0x1E, 0x01,
        0x01, 0xFC]
      ∧ pages laterPage.layout = .ok [laterPage]
      ∧ laterPage.length = laterPage.layout.length
      ∧ ownChecksum laterPage.layout = storedChecksum laterPage.layout
      ∧ laterPage.checksumValid = false := by
  exact ⟨by decide +kernel, pages_laterPage, (Page.length_layout _).symm, by decide +kernel,
    by decide +kernel⟩

end Transmux.Ogg
