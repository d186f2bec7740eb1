import Mathlib.Data.List.Induction
import Mathlib.Tactic.IntervalCases
import Transmux.Proofs.CheckedWalk
import Transmux.Proofs.VintReading

/-! Numbers of variable width as codes: each value has one code in each width, and it is read just
where that code stands. A reader that counts zero bits, masks the marker off and shifts bytes into a
word of 64 or 32 bits tells the same numbers, as none of them is too large for its word. -/

namespace Transmux

namespace Bytes

theorem ofBe_cons (b : UInt8) (bs : Bytes) :
    ofBe (b :: bs) = b.toNat * 256 ^ bs.length + ofBe bs := by
  have hsplit := ofBe_append [b] bs
  rw [List.singleton_append] at hsplit
  rw [hsplit]
  simp [ofBe]

theorem ofBe_lt (bs : Bytes) : ofBe bs < 256 ^ bs.length := by
  induction bs with
  | nil => simp [ofBe]
  | cons b bs ih =>
    have hb : (b.toNat + 1) * 256 ^ bs.length ≤ 256 * 256 ^ bs.length :=
      Nat.mul_le_mul_right _ b.toNat_lt
    rw [Nat.succ_mul] at hb
    rw [ofBe_cons, List.length_cons, Nat.pow_succ, Nat.mul_comm _ 256]
    omega

theorem be_ofBe (bs : Bytes) : be bs.length (ofBe bs) = bs := by
  induction bs using List.reverseRecOn with
  | nil => rfl
  | append_singleton bs b ih =>
    have hb := b.toNat_lt
    have hvalue : ofBe (bs ++ [b]) = 256 * ofBe bs + b.toNat := by
      rw [ofBe_append, Nat.mul_comm]
      simp [ofBe]
    have hlow : UInt8.ofNat (256 * ofBe bs + b.toNat) = b := by
      rw [← UInt8.toNat_inj, UInt8.toNat_ofNat']
      omega
    have hrest : (256 * ofBe bs + b.toNat) / 256 = ofBe bs := by omega
    rw [hvalue, List.length_append, List.length_singleton, be, hlow, hrest, ih]

end Bytes

namespace Vint

/-- The leading bit of a first byte is the one in front of its value bits. -/
theorem first_bounds {first : UInt8} (h : first ≠ 0) :
    2 ^ (8 - widthOf first) ≤ first.toNat ∧ first.toNat < 2 ^ (8 - widthOf first + 1) := by
  have hne : first.toNat ≠ 0 := fun h0 => h (UInt8.toNat_inj.1 h0)
  have hlog : first.toNat.log2 < 8 := (Nat.log2_lt hne).2 first.toNat_lt
  have hexp : 8 - widthOf first = first.toNat.log2 := by
    rw [widthOf]
    omega
  rw [hexp]
  exact ⟨Nat.log2_self_le hne, Nat.lt_log2_self⟩

/-- What is read starts with a first byte that tells how many bytes follow it. -/
theorem code_of_read? {bytes : Bytes} {v : Vint} (h : read? bytes = some v) :
    ∃ first more rest, bytes = first :: (more ++ rest) ∧ first ≠ 0
      ∧ widthOf first = more.length + 1 ∧ v.width = more.length + 1
      ∧ v.coded = Bytes.ofBe (first :: more) := by
  cases bytes with
  | nil => cases h
  | cons first tail =>
    obtain ⟨hfirst, hwidth⟩ := first_of_read? h
    rw [read?_cons_of_ne hfirst] at h
    obtain ⟨⟨code, rest⟩, hsplit, rfl⟩ := Option.map_eq_some_iff.1 h
    obtain ⟨hbytes, hlength⟩ := Bytes.split?_eq_some_iff.1 hsplit
    cases code with
    | nil => exact absurd hlength.symm (Nat.ne_of_gt (widthOf_pos first))
    | cons first' more =>
      obtain ⟨rfl, rfl⟩ := List.cons.inj hbytes
      exact ⟨first, more, rest, rfl, hfirst, hlength.symm, hlength.symm, rfl⟩

theorem isCoded_ofBe {first : UInt8} {more : Bytes} (hfirst : first ≠ 0)
    (hwidth : widthOf first = more.length + 1) :
    IsCoded (Bytes.ofBe (first :: more)) (more.length + 1) := by
  have hle := widthOf_le first
  obtain ⟨hlow, hhigh⟩ := first_bounds hfirst
  have hexp : 8 - widthOf first = 7 - more.length := by omega
  rw [hexp] at hlow hhigh
  have hmore := Bytes.ofBe_lt more
  have hleast : 2 ^ (7 - more.length) * 256 ^ more.length ≤ first.toNat * 256 ^ more.length :=
    Nat.mul_le_mul_right _ hlow
  have hmost : (first.toNat + 1) * 256 ^ more.length
      ≤ 2 ^ (7 - more.length + 1) * 256 ^ more.length := Nat.mul_le_mul_right _ hhigh
  rw [Nat.succ_mul, Nat.pow_succ, Nat.mul_right_comm] at hmost
  rw [IsCoded, marker_succ _ (by omega), Bytes.ofBe_cons]
  omega

/-- A number is read just where its code stands. -/
theorem read?_eq_some_iff {bytes : Bytes} {v : Vint} :
    read? bytes = some v ↔ v.width ≤ 8 ∧ IsCoded v.coded v.width ∧ v.bytes <+: bytes := by
  constructor
  · intro h
    obtain ⟨first, more, rest, rfl, hfirst, hof, hwidth, hcoded⟩ := code_of_read? h
    have hbytes : v.bytes = first :: more := by
      rw [Vint.bytes, hwidth, hcoded]
      exact Bytes.be_ofBe (first :: more)
    refine ⟨width_le h, ?_, ?_⟩
    · rw [hwidth, hcoded]
      exact isCoded_ofBe hfirst hof
    · rw [hbytes]
      exact List.prefix_append (first :: more) rest
  · rintro ⟨hwidth, hcoded, rest, rfl⟩
    exact read?_be v.width_pos hwidth hcoded rest

/-- The value and the width of the number at the front of a byte string. -/
def told? (bytes : Bytes) : Option (Nat × Nat) :=
  (read? bytes).map fun v => (v.value, v.width)

theorem told?_eq_some_iff {bytes : Bytes} {value width : Nat} :
    told? bytes = some (value, width) ↔ (1 ≤ width ∧ width ≤ 8) ∧ value < 2 ^ (7 * width)
      ∧ Bytes.be width (2 ^ (7 * width) + value) <+: bytes := by
  rw [← marker_eq]
  constructor
  · intro h
    obtain ⟨v, hread, hv⟩ := Option.map_eq_some_iff.1 h
    obtain ⟨rfl, rfl⟩ := Prod.mk.inj hv
    obtain ⟨hwidth, ⟨hlow, hhigh⟩, hbytes⟩ := read?_eq_some_iff.1 hread
    have hvalue : marker v.width + v.value = v.coded := Nat.add_sub_cancel' hlow
    rw [hvalue]
    exact ⟨⟨v.width_pos, hwidth⟩, by omega, hbytes⟩
  · rintro ⟨⟨hpos, hwidth⟩, hvalue, hbytes⟩
    have hhigh : marker width + value < 2 * marker width := by omega
    have hread : read? bytes = some (ofValue value width hpos) :=
      read?_eq_some_iff.2 ⟨hwidth, ⟨Nat.le_add_right .., hhigh⟩, hbytes⟩
    rw [told?, hread, Option.map_some, value_ofValue]
    rfl

/-- Every value has one code in every width that has room for it. -/
theorem existsUnique_code_iff (value width : Nat) :
    (∃! code : Bytes, code.length = width ∧ told? code = some (value, width))
      ↔ (1 ≤ width ∧ width ≤ 8) ∧ value < 2 ^ (7 * width) := by
  constructor
  · rintro ⟨code, ⟨-, htold⟩, -⟩
    obtain ⟨hwidth, hvalue, -⟩ := told?_eq_some_iff.1 htold
    exact ⟨hwidth, hvalue⟩
  · rintro ⟨hwidth, hvalue⟩
    refine ⟨Bytes.be width (2 ^ (7 * width) + value), ⟨Bytes.length_be .., ?_⟩, ?_⟩
    · exact told?_eq_some_iff.2 ⟨hwidth, hvalue, List.prefix_refl _⟩
    · rintro code ⟨hlength, htold⟩
      have hcode := (told?_eq_some_iff.1 htold).2.2
      exact (hcode.eq_of_length (by rw [Bytes.length_be, hlength])).symm

theorem isUnknownSize_iff {value width : Nat} (hpos : 1 ≤ width) (hwidth : width ≤ 8)
    (hvalue : value < 2 ^ (7 * width)) :
    isUnknownSize value width = true ↔ ∀ i < 7 * width, value.testBit i = true := by
  have hones : isUnknownSize value width = true ↔ value = 2 ^ (7 * width) - 1 := by
    have hmarker := Nat.two_pow_pos (7 * width)
    simp only [isUnknownSize, marker_eq, hpos, hwidth, decide_true, Bool.and_self, Bool.true_and,
      beq_iff_eq]
    omega
  rw [hones]
  constructor
  · rintro rfl i hi
    rw [Nat.testBit_two_pow_sub_one, decide_eq_true hi]
  · intro hbits
    apply Nat.eq_of_testBit_eq
    intro i
    rw [Nat.testBit_two_pow_sub_one]
    by_cases hi : i < 7 * width
    · rw [hbits i hi, decide_eq_true hi]
    · have hle : 2 ^ (7 * width) ≤ 2 ^ i := Nat.pow_le_pow_right (by decide) (Nat.not_lt.1 hi)
      rw [Nat.testBit_lt_two_pow (Nat.lt_of_lt_of_le hvalue hle), decide_eq_false hi]

end Vint

namespace ElementId

/-- The id at the front of a byte string, and its width. -/
def told? (bytes : Bytes) : Option (ElementId × Nat) :=
  (read? bytes).map fun v => (v.coded, v.width)

theorem told?_eq_some_iff {bytes : Bytes} {id : ElementId} {width : Nat} :
    told? bytes = some (id, width) ↔ (1 ≤ width ∧ width ≤ 4)
      ∧ (2 ^ (7 * width) ≤ id ∧ id < 2 ^ (7 * width + 1)) ∧ Bytes.be width id <+: bytes := by
  rw [Nat.pow_succ, Nat.mul_comm _ 2, ← Vint.marker_eq]
  constructor
  · intro h
    obtain ⟨v, hread, hv⟩ := Option.map_eq_some_iff.1 h
    obtain ⟨rfl, rfl⟩ := Prod.mk.inj hv
    obtain ⟨hvint, hwidth⟩ := read?_eq_some_iff.1 hread
    obtain ⟨-, hcoded, hbytes⟩ := Vint.read?_eq_some_iff.1 hvint
    exact ⟨⟨v.width_pos, hwidth⟩, hcoded, hbytes⟩
  · rintro ⟨⟨hpos, hwidth⟩, hcoded, hbytes⟩
    have hvint : Vint.read? bytes = some ⟨id, width, hpos⟩ :=
      Vint.read?_eq_some_iff.2 ⟨Nat.le_trans hwidth (by decide), hcoded, hbytes⟩
    rw [told?, read?_eq_some_iff.2 ⟨hvint, hwidth⟩]
    rfl

end ElementId

namespace Word

/-- A byte shifted into a word from below. -/
def shiftIn {w : Nat} (word : BitVec w) (b : UInt8) : BitVec w :=
  word <<< 8 ||| b.toBitVec.setWidth w

variable {w : Nat}

theorem toNat_shiftIn (word : BitVec w) (b : UInt8) :
    (shiftIn word b).toNat = (256 * word.toNat + b.toNat) % 2 ^ w := by
  have hadd : word.toNat <<< 8 + b.toNat = word.toNat <<< 8 ||| b.toNat :=
    Nat.shiftLeft_add_eq_or_of_lt b.toNat_lt _
  rw [shiftIn, BitVec.toNat_or, BitVec.toNat_shiftLeft, BitVec.toNat_setWidth, ← Nat.or_mod_two_pow,
    UInt8.toNat_toBitVec, ← hadd, Nat.shiftLeft_eq, Nat.mul_comm]

/-- A word keeps the bits that are not shifted out of it. -/
theorem toNat_foldl_shiftIn (word : BitVec w) (bs : Bytes) :
    (bs.foldl shiftIn word).toNat = (word.toNat * 256 ^ bs.length + Bytes.ofBe bs) % 2 ^ w := by
  induction bs generalizing word with
  | nil => simp [Bytes.ofBe, Nat.mod_eq_of_lt word.isLt]
  | cons b bs ih =>
    have hsum : (256 * word.toNat + b.toNat) * 256 ^ bs.length
        = word.toNat * (256 ^ bs.length * 256) + b.toNat * 256 ^ bs.length := by ring
    rw [List.foldl_cons, ih, toNat_shiftIn, Bytes.ofBe_cons, List.length_cons, Nat.pow_succ,
      ← Nat.add_assoc, ← hsum, Nat.add_mod, Nat.mod_mul_mod, ← Nat.add_mod]

end Word

namespace Vint

/-- The value bits of a first byte. In a width of eight there are none, as the marker is the last
bit of the byte. -/
def mask (width : Nat) : UInt8 :=
  if width = 8 then 0 else 0xFF >>> UInt8.ofNat width

/-- The first byte at a position and those that follow it in a number of `limit` bytes at most. -/
def codeAt? (limit : Nat) (bytes : Bytes) (pos : Nat) : Option (UInt8 × Bytes) :=
  match bytes[pos]? with
  | none => none
  | some first =>
    if first = 0 then none
    else
      let width := first.toBitVec.clz.toNat + 1
      if limit < width then none
      else if pos + width ≤ bytes.length then some (first, (bytes.drop (pos + 1)).take (width - 1))
      else none

/-- The value and the width of the number at a position, the value in a word. -/
def readWord? (bytes : Bytes) (pos : Nat) : Option (BitVec 64 × Nat) :=
  (codeAt? 8 bytes pos).map fun (first, more) =>
    let start : BitVec 64 := (first &&& mask (more.length + 1)).toBitVec.setWidth 64
    (more.foldl Word.shiftIn start, more.length + 1)

/-- Whether a size in a word has all value bits of its width set. -/
def isUnknownWord (size : BitVec 64) (width : Nat) : Bool :=
  decide (1 ≤ width) && decide (width ≤ 8) && size == 1#64 <<< (7 * width) - 1#64

end Vint

/-- The id at a position, in a word, and its width. -/
def ElementId.readWord? (bytes : Bytes) (pos : Nat) : Option (BitVec 32 × Nat) :=
  (Vint.codeAt? 4 bytes pos).map fun (first, more) =>
    ((first :: more).foldl Word.shiftIn 0#32, more.length + 1)

namespace Vint

theorem clz_eq {first : UInt8} (h : first ≠ 0) : first.toBitVec.clz.toNat + 1 = widthOf first := by
  have hne : first.toBitVec ≠ 0 := fun h0 => h (UInt8.toBitVec_inj.1 h0)
  have hlt : first.toBitVec.clz.toNat < 8 := BitVec.clz_lt_iff_ne_zero.2 hne
  have hlow := BitVec.two_pow_sub_clz_le_toNat_of_ne_zero (by decide) hne
  have hhigh := BitVec.toNat_lt_two_pow_sub_clz (x := first.toBitVec)
  have hlog : first.toNat.log2 = 8 - 1 - first.toBitVec.clz.toNat := by
    refine (Nat.log2_eq_iff fun h0 => h (UInt8.toNat_inj.1 h0)).2 ⟨hlow, ?_⟩
    have hexp : 8 - 1 - first.toBitVec.clz.toNat + 1 = 8 - first.toBitVec.clz.toNat := by omega
    rw [hexp]
    exact hhigh
  rw [widthOf, hlog]
  omega

theorem toNat_mask {width : Nat} (hpos : 1 ≤ width) (hwidth : width ≤ 8) :
    (mask width).toNat = 2 ^ (8 - width) - 1 := by
  interval_cases width <;> rfl

/-- Masking takes the leading bit away. -/
theorem toNat_masked {first : UInt8} (h : first ≠ 0) :
    (first &&& mask (widthOf first)).toNat + 2 ^ (8 - widthOf first) = first.toNat := by
  obtain ⟨hlow, hhigh⟩ := first_bounds h
  rw [Nat.pow_succ] at hhigh
  rw [UInt8.toNat_and, toNat_mask (widthOf_pos first) (widthOf_le first),
    Nat.and_two_pow_sub_one_eq_mod, Nat.mod_eq_sub_mod hlow, Nat.mod_eq_of_lt (by omega)]
  omega

section

variable {limit pos : Nat} {bytes : Bytes}

theorem codeAt?_of_none (h : read? (bytes.drop pos) = none) : codeAt? limit bytes pos = none := by
  rw [codeAt?, ← List.head?_drop]
  cases hdrop : bytes.drop pos with
  | nil => rfl
  | cons first tail =>
    rw [List.head?_cons]
    by_cases hfirst : first = 0
    · exact if_pos hfirst
    · rw [hdrop, read?_cons_of_ne hfirst, Option.map_eq_none_iff, Bytes.split?_eq, ← hdrop,
        List.length_drop] at h
      have hshort : ¬ pos + widthOf first ≤ bytes.length := fun hle => by
        rw [if_pos (by omega)] at h
        cases h
      simp [hfirst, clz_eq, hshort]

theorem codeAt?_of_code {first : UInt8} {more rest : Bytes}
    (hdrop : bytes.drop pos = first :: (more ++ rest)) (hfirst : first ≠ 0)
    (hwidth : widthOf first = more.length + 1) :
    codeAt? limit bytes pos = if limit < more.length + 1 then none else some (first, more) := by
  have hlength := congrArg List.length hdrop
  rw [List.length_drop, List.length_cons, List.length_append] at hlength
  have hinside : pos + (more.length + 1) ≤ bytes.length := by omega
  have hmore : (bytes.drop (pos + 1)).take more.length = more := by
    rw [← List.drop_drop, hdrop, List.drop_succ_cons, List.drop_zero, List.take_left]
  rw [codeAt?, ← List.head?_drop, hdrop]
  simp [hfirst, clz_eq, hwidth, hinside, hmore]

end

/-- The value is spelt by the first byte without its marker and the bytes behind it. -/
theorem value_of_code {v : Vint} {first : UInt8} {more : Bytes} (hfirst : first ≠ 0)
    (hof : widthOf first = more.length + 1) (hwidth : v.width = more.length + 1)
    (hcoded : v.coded = Bytes.ofBe (first :: more)) :
    v.value = (first &&& mask (widthOf first)).toNat * 256 ^ more.length + Bytes.ofBe more := by
  have hle := widthOf_le first
  have hexp : 7 - more.length = 8 - widthOf first := by omega
  rw [value, hwidth, hcoded, marker_succ _ (by omega), hexp, Bytes.ofBe_cons,
    ← toNat_masked hfirst, Nat.add_mul]
  omega

/-- A word has room for the values of all widths. -/
theorem value_lt {bytes : Bytes} {v : Vint} (h : read? bytes = some v) : v.value < 2 ^ 64 := by
  have hvalue := (told?_eq_some_iff.1 (congrArg (Option.map _) h)).2.1
  have hwidth := width_le h
  exact Nat.lt_of_lt_of_le hvalue (Nat.pow_le_pow_right (by decide) (by omega))

theorem readWord?_eq (bytes : Bytes) (pos : Nat) :
    (readWord? bytes pos).map (fun p => (p.1.toNat, p.2)) = told? (bytes.drop pos) := by
  rw [readWord?, told?]
  cases h : read? (bytes.drop pos) with
  | none =>
    rw [codeAt?_of_none h]
    rfl
  | some v =>
    obtain ⟨first, more, rest, hdrop, hfirst, hof, hwidth, hcoded⟩ := code_of_read? h
    have hle := widthOf_le first
    have hvalue := value_of_code hfirst hof hwidth hcoded
    have hstart : ((first &&& mask (widthOf first)).toBitVec.setWidth 64).toNat
        = (first &&& mask (widthOf first)).toNat :=
      BitVec.toNat_setWidth_of_le (by decide)
    have hword : (more.foldl Word.shiftIn
        ((first &&& mask (widthOf first)).toBitVec.setWidth 64)).toNat = v.value := by
      rw [Word.toNat_foldl_shiftIn, hstart, ← hvalue, Nat.mod_eq_of_lt (value_lt h)]
    rw [codeAt?_of_code hdrop hfirst hof, if_neg (by omega)]
    simp only [Option.map_some, ← hof, hword]
    rw [hwidth, hof]

theorem isUnknownWord_eq (size : BitVec 64) (width : Nat) :
    isUnknownWord size width = isUnknownSize size.toNat width := by
  rw [isUnknownWord, isUnknownSize, marker_eq]
  by_cases hwidth : width ≤ 8
  · have hroom : 2 ^ (7 * width) < 2 ^ 64 := Nat.pow_lt_pow_right (by decide) (by omega)
    have hpos := Nat.two_pow_pos (7 * width)
    have htop : (1#64 <<< (7 * width)).toNat = 2 ^ (7 * width) := by
      rw [BitVec.toNat_shiftLeft, Nat.shiftLeft_eq, BitVec.toNat_one (by decide), Nat.one_mul,
        Nat.mod_eq_of_lt hroom]
    have hones : (1#64 <<< (7 * width) - 1#64).toNat = 2 ^ (7 * width) - 1 := by
      rw [BitVec.toNat_sub_of_le, htop]
      · rfl
      · rw [BitVec.le_def, htop]
        exact hpos
    have hsame : size = 1#64 <<< (7 * width) - 1#64 ↔ size.toNat + 1 = 2 ^ (7 * width) := by
      rw [← BitVec.toNat_inj, hones]
      omega
    rw [Bool.eq_iff_iff]
    simp only [Bool.and_eq_true, beq_iff_eq, hsame]
  · simp [hwidth]

end Vint

namespace ElementId

theorem readWord?_eq (bytes : Bytes) (pos : Nat) :
    (readWord? bytes pos).map (fun p => (p.1.toNat, p.2)) = told? (bytes.drop pos) := by
  rw [readWord?, told?]
  cases h : Vint.read? (bytes.drop pos) with
  | none =>
    rw [Vint.codeAt?_of_none h, read?, h]
    rfl
  | some v =>
    obtain ⟨first, more, rest, hdrop, hfirst, hof, hwidth, hcoded⟩ := Vint.code_of_read? h
    rw [Vint.codeAt?_of_code hdrop hfirst hof, read?_of_vint h, hwidth]
    by_cases hlong : 4 < more.length + 1
    · rw [if_pos hlong, if_pos hlong]
      rfl
    · have hsmall := Vint.coded_lt v.width_pos (Vint.read?_eq_some_iff.1 h).2.1
      have hroom : 256 ^ v.width ≤ 256 ^ 4 := Nat.pow_le_pow_right (by decide) (by omega)
      have hword : ((first :: more).foldl Word.shiftIn 0#32).toNat = v.coded := by
        rw [Word.toNat_foldl_shiftIn, BitVec.toNat_zero, Nat.zero_mul, Nat.zero_add, ← hcoded,
          Nat.mod_eq_of_lt (by omega)]
      rw [if_neg hlong, if_neg hlong]
      simp only [Option.map_some, hword, hwidth]

end ElementId

namespace Vint

/-- Sizes, track numbers and ids are read exactly, wherever they stand in an input: what is told is
the number whose code stands there, every value has one code in each width, and a size is unknown
just if all its value bits are ones. Words of a machine tell the same. -/
theorem codes_read_exactly (bytes : Bytes) (pos : Nat) :
    (∀ value width, told? (bytes.drop pos) = some (value, width)
        ↔ (1 ≤ width ∧ width ≤ 8) ∧ value < 2 ^ (7 * width)
          ∧ Bytes.be width (2 ^ (7 * width) + value) <+: bytes.drop pos)
      ∧ (∀ value width,
        (∃! code : Bytes, code.length = width ∧ told? code = some (value, width))
          ↔ (1 ≤ width ∧ width ≤ 8) ∧ value < 2 ^ (7 * width))
      ∧ (∀ value width, told? (bytes.drop pos) = some (value, width) →
        (isUnknownSize value width = true ↔ ∀ i < 7 * width, value.testBit i = true))
      ∧ (∀ id width, ElementId.told? (bytes.drop pos) = some (id, width)
        ↔ (1 ≤ width ∧ width ≤ 4) ∧ (2 ^ (7 * width) ≤ id ∧ id < 2 ^ (7 * width + 1))
          ∧ Bytes.be width id <+: bytes.drop pos)
      ∧ (readWord? bytes pos).map (fun p => (p.1.toNat, p.2)) = told? (bytes.drop pos)
      ∧ (∀ size width, isUnknownWord size width = isUnknownSize size.toNat width)
      ∧ (ElementId.readWord? bytes pos).map (fun p => (p.1.toNat, p.2))
        = ElementId.told? (bytes.drop pos) := by
  refine ⟨fun _ _ => told?_eq_some_iff, existsUnique_code_iff, fun value width htold => ?_,
    fun _ _ => ElementId.told?_eq_some_iff, readWord?_eq bytes pos, isUnknownWord_eq,
    ElementId.readWord?_eq bytes pos⟩
  obtain ⟨⟨hpos, hwidth⟩, hvalue, -⟩ := told?_eq_some_iff.1 htold
  exact isUnknownSize_iff hpos hwidth hvalue

/-- The header of a cluster whose size is left open in eight bytes. -/
def openHeader : Bytes :=
  [0x1F, 0x43, 0xB6, 0x75, 0x01, 0xFF, 0xFF, 0xFF, 0xFF, 0xFF, 0xFF, 0xFF]

theorem codes_read_exactly_openHeader :
    told? (openHeader.drop 4) = some (2 ^ 56 - 1, 8)
      ∧ (isUnknownSize (2 ^ 56 - 1) 8 = true ↔ ∀ i < 7 * 8, (2 ^ 56 - 1).testBit i = true)
      ∧ ElementId.told? openHeader = some (Element.cluster.id, 4) := by
  obtain ⟨htold, -, hunknown, -⟩ := codes_read_exactly openHeader 4
  obtain ⟨-, -, -, hid, -⟩ := codes_read_exactly openHeader 0
  have hsize := (htold (2 ^ 56 - 1) 8).2 (by decide)
  exact ⟨hsize, hunknown _ _ hsize, (hid Element.cluster.id 4).2 (by decide)⟩

end Vint

end Transmux
