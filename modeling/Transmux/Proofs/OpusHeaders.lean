import Transmux.Bytes.Lemmas
import Transmux.Opus.Head
import Transmux.Opus.Tags
import Transmux.Proofs.Utf8RoundTrip

/-! The two header packets of an Opus stream read back, whatever follows them: the identification
header field by field, and of the comment header the vendor text. Of a header that is cut off, the
pre-skip alone is read, and on every other the two readers agree. -/

namespace Transmux

namespace Bytes

theorem split?_le (width n : Nat) (rest : Bytes) :
    split? width (le width n ++ rest) = some (le width n, rest) :=
  split?_append rest (length_le width n)

theorem split?_one (b : UInt8) (rest : Bytes) : split? 1 (b :: rest) = some ([b], rest) :=
  split?_append (a := [b]) rest rfl

end Bytes

namespace Opus

namespace Head

theorem bytes_append (h : Head) (rest : Bytes) :
    h.bytes ++ rest = signature ++ (h.version :: h.channels :: (Bytes.le 2 h.preSkip.toNat
      ++ (Bytes.le 4 h.sampleRate.toNat ++ (Bytes.le 2 h.gain.toUInt16.toNat
        ++ h.mappingFamily :: rest)))) := by
  simp [bytes]

theorem ofLe_toNat_uint16 (n : UInt16) : Bytes.ofLe (Bytes.le 2 n.toNat) = n.toNat := by
  rw [Bytes.ofLe_le]
  exact Nat.mod_eq_of_lt n.toNat_lt

theorem ofNat_ofLe_single (b : UInt8) : UInt8.ofNat (Bytes.ofLe [b]) = b := by
  simp [Bytes.ofLe]

theorem read?_append (h : Head) (rest : Bytes) : read? (h.bytes ++ rest) = some h := by
  have hmark (rest : Bytes) : Bytes.split? 8 (signature ++ rest) = some (signature, rest) :=
    Bytes.split?_append rest rfl
  rw [bytes_append, read?]
  simp only [hmark, Bytes.split?_one, Bytes.split?_le, Option.bind_eq_bind, Option.bind_some,
    if_true, ofNat_ofLe_single, ofLe_toNat_uint16, Bytes.ofLe_toNat_uint32, UInt16.ofNat_toNat,
    UInt32.ofNat_toNat, Int16.toInt16_toUInt16]

theorem read?_bytes (h : Head) : read? h.bytes = some h := by
  have happend := read?_append h []
  rwa [List.append_nil] at happend

theorem startsWith_signature_iff (data : Bytes) :
    Bytes.startsWith data signature = true ↔ data.take 8 = signature := by
  rw [Bytes.startsWith, List.isPrefixOf_iff_prefix, List.prefix_iff_eq_take]
  exact eq_comm

theorem preSkip?_of_lt {data : Bytes} (h : data.length < 12) : preSkip? data = none := by
  simp only [preSkip?, Bytes.split?_eq, Option.bind_eq_bind, Option.bind_eq_none_iff,
    Option.ite_none_right_eq_some, Option.some.injEq]
  rintro _ ⟨-, rfl⟩ _ ⟨-, rfl⟩ _ ⟨hfield, -⟩
  simp only [List.length_drop] at hfield
  omega

/-- The pre-skip is read from the front of a header that is long enough to have it. -/
theorem preSkip?_eq (data : Bytes) :
    preSkip? data
      = if Bytes.startsWith data signature = true ∧ 12 ≤ data.length then
          some (UInt16.ofNat (Bytes.ofLe ((data.drop 10).take 2)))
        else none := by
  by_cases hlength : 12 ≤ data.length
  · have hmark : 8 ≤ data.length := by omega
    have hskipped : 2 ≤ data.length - 8 := by omega
    have hfield : 2 ≤ data.length - 10 := by omega
    simp only [preSkip?, startsWith_signature_iff, Bytes.split?_eq, List.drop_drop,
      List.length_drop, hmark, hskipped, hfield, hlength, if_true, and_true, Option.bind_eq_bind,
      Option.bind_some]
  · rw [preSkip?_of_lt (by omega), if_neg fun h => hlength h.2]

theorem read?_of_lt {data : Bytes} (h : data.length < 19) : read? data = none := by
  simp only [read?, Bytes.split?_eq, Option.bind_eq_bind, Option.bind_eq_none_iff,
    Option.ite_none_right_eq_some, Option.some.injEq]
  rintro _ ⟨-, rfl⟩ _ ⟨-, rfl⟩ _ ⟨-, rfl⟩ _ ⟨-, rfl⟩ _ ⟨-, rfl⟩ _ ⟨-, rfl⟩ _ ⟨hfamily, -⟩
  simp only [List.length_drop] at hfamily
  omega

/-- The fields where a header has them, whatever the eight bytes before them are. -/
def ofFront (data : Bytes) : Head where
  version := UInt8.ofNat (Bytes.ofLe ((data.drop 8).take 1))
  channels := UInt8.ofNat (Bytes.ofLe ((data.drop 9).take 1))
  preSkip := UInt16.ofNat (Bytes.ofLe ((data.drop 10).take 2))
  sampleRate := UInt32.ofNat (Bytes.ofLe ((data.drop 12).take 4))
  gain := (UInt16.ofNat (Bytes.ofLe ((data.drop 16).take 2))).toInt16
  mappingFamily := UInt8.ofNat (Bytes.ofLe ((data.drop 18).take 1))

theorem read?_eq (data : Bytes) :
    read? data
      = if Bytes.startsWith data signature = true ∧ 19 ≤ data.length then some (ofFront data)
        else none := by
  by_cases hlength : 19 ≤ data.length
  · have hmark : 8 ≤ data.length := by omega
    have hversion : 1 ≤ data.length - 8 := by omega
    have hchannels : 1 ≤ data.length - 9 := by omega
    have hskip : 2 ≤ data.length - 10 := by omega
    have hrate : 4 ≤ data.length - 12 := by omega
    have hgain : 2 ≤ data.length - 16 := by omega
    have hfamily : 1 ≤ data.length - 18 := by omega
    simp only [read?, ofFront, startsWith_signature_iff, Bytes.split?_eq, List.drop_drop,
      List.length_drop, hmark, hversion, hchannels, hskip, hrate, hgain, hfamily, hlength, if_true,
      and_true, Option.bind_eq_bind, Option.bind_some]
  · rw [read?_of_lt (by omega), if_neg fun h => hlength h.2]

theorem preSkip?_of_read? {data : Bytes} {h : Head} (hread : read? data = some h) :
    preSkip? data = some h.preSkip := by
  rw [read?_eq, Option.ite_none_right_eq_some, Option.some.injEq] at hread
  obtain ⟨⟨hmark, hlength⟩, rfl⟩ := hread
  rw [preSkip?_eq, if_pos ⟨hmark, by omega⟩, ofFront]

theorem isSome_read?_iff {data : Bytes} (hlength : 19 ≤ data.length) :
    (read? data).isSome = true ↔ (preSkip? data).isSome = true := by
  have hskip : 12 ≤ data.length := by omega
  simp only [read?_eq, preSkip?_eq, hlength, hskip, and_true, Option.isSome_ite]

end Head

namespace Tags

theorem vendor?_append {vendor : String} (h : (Utf8.encode vendor).length < 2 ^ 32) (rest : Bytes) :
    vendor? (bytes vendor ++ rest) = some vendor := by
  have hmark (rest : Bytes) : Bytes.split? 8 (signature ++ rest) = some (signature, rest) :=
    Bytes.split?_append rest rfl
  have hlength : Bytes.ofLe (Bytes.le 4 (Utf8.encode vendor).length)
      = (Utf8.encode vendor).length := by
    rw [Bytes.ofLe_le]
    exact Nat.mod_eq_of_lt h
  have htext (rest : Bytes) : Bytes.split? (Utf8.encode vendor).length (Utf8.encode vendor ++ rest)
      = some (Utf8.encode vendor, rest) :=
    Bytes.split?_append rest rfl
  simp only [vendor?, bytes, List.append_assoc, hmark, Bytes.split?_le, hlength, htext,
    Option.bind_eq_bind, Option.bind_some, if_true, Utf8.decodeLossy_encode]

theorem vendor?_bytes {vendor : String} (h : (Utf8.encode vendor).length < 2 ^ 32) :
    vendor? (bytes vendor) = some vendor := by
  have happend := vendor?_append h []
  rwa [List.append_nil] at happend

end Tags

/-- What the headers are written from is read back from them, and no reader of a header contradicts
another on any bytes. -/
theorem headers_read_back :
    (∀ (channels : UInt8) (sampleRate : UInt32) (preSkip : UInt16),
      Head.read? (Head.bytes { channels, preSkip, sampleRate })
        = some {
          version := 1
          channels
          preSkip
          sampleRate
          gain := 0
          mappingFamily := 0 })
    ∧ (∀ (vendor : String) (rest : Bytes), (Utf8.encode vendor).length < 2 ^ 32 →
      Tags.vendor? (Tags.bytes vendor ++ rest) = some vendor)
    ∧ (∀ (data : Bytes) (h : Head), Head.read? data = some h →
      Head.preSkip? data = some h.preSkip)
    ∧ ∀ data : Bytes, 19 ≤ data.length →
      ((Head.read? data).isSome = true ↔ (Head.preSkip? data).isSome = true) := by
  refine ⟨?written, ?vendor, ?skip, ?both⟩
  case written =>
    intro channels sampleRate preSkip
    exact Head.read?_bytes _
  case vendor =>
    intro vendor rest hvendor
    exact Tags.vendor?_append hvendor rest
  case skip =>
    intro data h hread
    exact Head.preSkip?_of_read? hread
  case both =>
    intro data hlength
    exact Head.isSome_read?_iff hlength

/-- A header of version 2, for six channels, with a gain and a mapping family. -/
def foreignHead : Bytes :=
  Head.signature ++ [2, 6, 0x38, 1, 0x44, 0xAC, 0, 0, 0xFF, 0xFF, 1, 4]

theorem headers_read_back_foreignHead :
    Tags.vendor? (Tags.bytes "rec" ++ [1, 2, 3]) = some "rec"
      ∧ Head.preSkip? foreignHead = some 312
      ∧ ((Head.read? foreignHead).isSome = true ↔ (Head.preSkip? foreignHead).isSome = true) := by
  obtain ⟨-, hvendor, hskip, hboth⟩ := headers_read_back
  exact ⟨hvendor "rec" [1, 2, 3] (by decide), hskip _ ⟨2, 6, 312, 44100, -1, 1⟩ (by decide),
    hboth _ (by decide)⟩

end Opus

end Transmux
