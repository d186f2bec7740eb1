import Mathlib.Algebra.Order.Group.Nat
import Mathlib.Data.List.DropRight
import Transmux.Recording.Track
import Transmux.Proofs.Utf8RoundTrip

/-! What codec names start with. A name is read as text however broken its bytes are, but letters
of one byte are in front of the text just if their bytes are in front of the name. -/

namespace Transmux

/-- Characters of one byte, other than the one that may follow a name. -/
def IsPlainText (cs : List Char) : Prop :=
  ∀ c ∈ cs, 0 < c.toNat ∧ c.toNat < 0x80

namespace Utf8

theorem toNat_ofNat_of_lt {n : Nat} (h : n < 0xD800) : (Char.ofNat n).toNat = n := by
  rw [Char.ofNat, dif_pos (Or.inl h)]
  rfl

/-- A number that is no scalar value becomes the zero character. -/
theorem toNat_ofNat_or (n : Nat) : (Char.ofNat n).toNat = 0 ∨ (Char.ofNat n).toNat = n := by
  by_cases h : n.isValidChar
  · rw [Char.ofNat, dif_pos h]
    exact Or.inr rfl
  · rw [Char.ofNat, dif_neg h]
    exact Or.inl rfl

theorem mul_le_of_continuation {more low high bits n : Nat} {bs rest : Bytes}
    (h : continuation more low high bits bs = (some n, rest)) : 64 ^ more * bits ≤ n := by
  fun_induction continuation more low high bits bs with
  | case1 low high bits bs =>
    obtain ⟨hn, -⟩ := Prod.mk.inj h
    rw [Option.some.inj hn, Nat.pow_zero, Nat.one_mul]
  | case2 => cases h
  | case3 more low high bits b bs hrange ih =>
    calc 64 ^ (more + 1) * bits = 64 ^ more * (64 * bits) := by rw [Nat.pow_succ, Nat.mul_assoc]
      _ ≤ 64 ^ more * (64 * bits + (b.toNat - 0x80)) :=
        Nat.mul_le_mul_left _ (Nat.le_add_right ..)
      _ ≤ n := ih h
  | case4 => cases h

theorem le_of_continuation {more low high bits n : Nat} {bs rest : Bytes}
    (h : continuation (more + 1) low high bits bs = (some n, rest)) :
    64 ^ more * (64 * bits + (low - 0x80)) ≤ n := by
  cases bs with
  | nil => cases h
  | cons b bs =>
    rw [continuation] at h
    split at h
    · next hrange =>
      have hle : 64 * bits + (low - 0x80) ≤ 64 * bits + (b.toNat - 0x80) := by omega
      exact Nat.le_trans (Nat.mul_le_mul_left _ hle) (mul_le_of_continuation h)
    · cases h

/-- What a lead byte of a longer sequence announces is above the characters of one byte. -/
theorem exists_of_lead? {b : Nat} {l : Lead} (hb : 0x80 ≤ b) (h : lead? b = some l) :
    ∃ more, l.more = more + 1 ∧ 0x80 ≤ 64 ^ more * (64 * l.bits + (l.low - 0x80)) := by
  rw [lead?, if_neg (by omega)] at h
  split at h
  · cases h
  · split at h
    · obtain rfl := Option.some.inj h
      exact ⟨0, rfl, by simp only; omega⟩
    · split at h
      · obtain rfl := Option.some.inj h
        refine ⟨1, rfl, ?_⟩
        simp only
        split <;> omega
      · split at h
        · obtain rfl := Option.some.inj h
          refine ⟨2, rfl, ?_⟩
          simp only
          split <;> omega
        · cases h

/-- A sequence of several bytes spells no character of one byte. -/
theorem le_of_first {b : UInt8} {bs : Bytes} {c : Char} (hb : 0x80 ≤ b.toNat)
    (h : (first b bs).1 = some c) : c.toNat = 0 ∨ 0x80 ≤ c.toNat := by
  rw [first] at h
  cases hlead : lead? b.toNat with
  | none => simp [hlead] at h
  | some l =>
    obtain ⟨more, hmore, hle⟩ := exists_of_lead? hb hlead
    cases hnumber : continuation l.more l.low l.high l.bits bs with
    | mk number rest =>
      cases number with
      | none => simp [hlead, hnumber] at h
      | some n =>
        obtain rfl : Char.ofNat n = c := by simpa [hlead, hnumber] using h
        rw [hmore] at hnumber
        have hn := Nat.le_trans hle (le_of_continuation hnumber)
        exact (toNat_ofNat_or n).imp_right fun hsame => by rw [hsame]; exact hn

theorem toList_decodeLossy (bs : Bytes) :
    (decodeLossy bs).toList = (items bs).map fun c => c.getD (Char.ofNat 0xFFFD) :=
  String.toList_ofList

theorem toList_decodeLossy_cons (b : UInt8) (rest : Bytes) :
    (decodeLossy (b :: rest)).toList
      = (first b rest).1.getD (Char.ofNat 0xFFFD) :: (decodeLossy (first b rest).2).toList := by
  rw [toList_decodeLossy, items_cons, List.map_cons, toList_decodeLossy]

/-- A character of one byte is read from its own byte alone. -/
theorem eq_of_first {b : UInt8} {rest : Bytes} {c : Char} (hpos : 0 < c.toNat)
    (hplain : c.toNat < 0x80) (h : (first b rest).1.getD (Char.ofNat 0xFFFD) = c) :
    UInt8.ofNat c.toNat = b := by
  by_cases hb : b.toNat < 0x80
  · have hvalid : (Char.ofNat b.toNat).toNat = b.toNat := toNat_ofNat_of_lt (by omega)
    have hfirst := first_oneByte (c := Char.ofNat b.toNat) rest (by omega)
    rw [hvalid, UInt8.ofNat_toNat] at hfirst
    rw [hfirst, Option.getD_some] at h
    rw [← h, hvalid, UInt8.ofNat_toNat]
  · cases hfirst : (first b rest).1 with
    | none =>
      rw [hfirst, Option.getD_none] at h
      rw [← h] at hplain
      exact absurd hplain (by decide)
    | some c' =>
      rw [hfirst, Option.getD_some] at h
      have hle := le_of_first (by omega) hfirst
      rw [h] at hle
      omega

theorem plain_prefix_decodeLossy {cs : List Char} (h : IsPlainText cs) (bs : Bytes) :
    cs <+: (decodeLossy bs).toList ↔ (cs.map fun c => UInt8.ofNat c.toNat) <+: bs := by
  induction cs generalizing bs with
  | nil => exact iff_of_true List.nil_prefix List.nil_prefix
  | cons c cs ih =>
    obtain ⟨hpos, hplain⟩ := h c List.mem_cons_self
    cases bs with
    | nil => simp [toList_decodeLossy, items, scan]
    | cons b bs =>
      have hrest := ih (fun c hc => h c (List.mem_cons_of_mem _ hc)) bs
      rw [toList_decodeLossy_cons, List.map_cons, List.cons_prefix_cons, List.cons_prefix_cons]
      constructor
      · rintro ⟨hfirst, hprefix⟩
        obtain rfl := eq_of_first hpos hplain hfirst.symm
        rw [first_oneByte bs hplain] at hprefix
        exact ⟨rfl, hrest.1 hprefix⟩
      · rintro ⟨rfl, hprefix⟩
        rw [first_oneByte bs hplain]
        exact ⟨rfl, hrest.2 hprefix⟩

end Utf8

namespace Track

theorem toList_codecName (s : String) :
    (codecName s).toList = s.toList.rdropWhile fun c => c == Char.ofNat 0 :=
  String.toList_ofList

/-- What may follow a name is none of the letters in front. -/
theorem plain_prefix_codecName {cs : List Char} (h : IsPlainText cs) (s : String) :
    cs <+: (codecName s).toList ↔ cs <+: s.toList := by
  rw [toList_codecName]
  constructor
  · exact fun hprefix => hprefix.trans (List.rdropWhile_prefix _ _)
  · rintro ⟨rest, hs⟩
    rw [← hs]
    clear hs
    induction rest using List.reverseRecOn with
    | nil =>
      have hself : cs.rdropWhile (fun c => c == Char.ofNat 0) = cs := by
        refine List.rdropWhile_eq_self_iff.2 fun hne hlast => ?_
        have hpos := (h _ (List.getLast_mem hne)).1
        rw [beq_iff_eq.1 hlast] at hpos
        exact absurd hpos (by decide)
      exact ⟨[], by rw [List.append_nil, hself]⟩
    | append_singleton rest c ih =>
      rw [← List.append_assoc, List.rdropWhile_concat]
      split
      · exact ih
      · rw [List.append_assoc]
        exact List.prefix_append ..

theorem kindOfCodec_eq_audio_iff (s : String) :
    kindOfCodec s = .audio ↔ ['A', '_'] <+: s.toList := by
  rw [kindOfCodec]
  split
  · next rest hs => simp [hs]
  · next rest hs => simp [hs]
  · next hs _ =>
    refine iff_of_false (by simp) ?_
    rintro ⟨rest, hrest⟩
    exact hs rest hrest.symm

/-- A name stands for audio if its bytes start with the letters "A_". -/
theorem kindOfCodec_codecName_iff (name : Bytes) :
    kindOfCodec (codecName (Utf8.decodeLossy name)) = .audio
      ↔ Bytes.startsWith name [0x41, 0x5F] = true := by
  have hplain : IsPlainText ['A', '_'] := by
    simp [IsPlainText]
  rw [kindOfCodec_eq_audio_iff, plain_prefix_codecName hplain, Utf8.plain_prefix_decodeLossy hplain,
    Bytes.startsWith, List.isPrefixOf_iff_prefix]
  exact Iff.rfl

end Track

end Transmux
