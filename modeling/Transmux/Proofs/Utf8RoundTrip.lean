import Transmux.Text.Utf8

/-! UTF-8 reads back. The bytes of a character are one item, whatever follows them, so a text is
the lossy reading of its own bytes. -/

namespace Transmux.Utf8

theorem scan_append (seen more : List (Option Char)) (bs : Bytes) :
    scan (seen ++ more) bs = scan seen bs ++ more := by
  fun_induction scan seen bs with
  | case1 seen => rw [scan]
  | case2 seen b rest ih =>
    rw [scan]
    exact ih

theorem items_cons (b : UInt8) (rest : Bytes) :
    items (b :: rest) = (first b rest).1 :: items (first b rest).2 := by
  have happend := scan_append [] [(first b rest).1] (first b rest).2
  rw [List.nil_append] at happend
  rw [items, scan, happend, List.reverse_append]
  rfl

/-- A continuation byte in range adds six bits. -/
theorem continuation_cons {more low high bits n : Nat} (rest : Bytes) (hn : n < 64)
    (hlow : low ≤ 0x80 + n) (hhigh : 0x80 + n ≤ high) :
    continuation (more + 1) low high bits (UInt8.ofNat (0x80 + n) :: rest)
      = continuation more 0x80 0xBF (64 * bits + n) rest := by
  have hbyte : (UInt8.ofNat (0x80 + n)).toNat = 0x80 + n :=
    UInt8.toNat_ofNat_of_lt' (show 0x80 + n < 256 by omega)
  rw [continuation, hbyte, if_pos ⟨hlow, hhigh⟩, Nat.add_sub_cancel_left]

theorem continuation_last {low high bits n : Nat} (rest : Bytes) (hn : n < 64)
    (hlow : low ≤ 0x80 + n) (hhigh : 0x80 + n ≤ high) :
    continuation 1 low high bits (UInt8.ofNat (0x80 + n) :: rest)
      = (some (64 * bits + n), rest) := by
  rw [continuation_cons rest hn hlow hhigh, continuation]

theorem first_of_lead {c : Char} {n more low high bits : Nat} {bs rest : Bytes} (hn : n < 256)
    (hlead : lead? n = some ⟨more, low, high, bits⟩)
    (hmore : continuation more low high bits bs = (some c.toNat, rest)) :
    first (UInt8.ofNat n) bs = (some c, rest) := by
  have hbyte : (UInt8.ofNat n).toNat = n := UInt8.toNat_ofNat_of_lt' hn
  simp only [first, hbyte, hlead, hmore, Option.map_some, Char.ofNat_toNat]

variable {c : Char} (rest : Bytes)

theorem first_oneByte (h : c.toNat < 0x80) : first (UInt8.ofNat c.toNat) rest = (some c, rest) := by
  have hlead : lead? c.toNat = some ⟨0, 0x80, 0xBF, c.toNat⟩ := by
    rw [lead?, if_pos h]
  refine first_of_lead (by omega) hlead ?_
  rw [continuation]

theorem first_twoBytes (h : 0x80 ≤ c.toNat) (h' : c.toNat < 0x800) :
    first (UInt8.ofNat (0xC0 + c.toNat / 64)) (UInt8.ofNat (0x80 + c.toNat % 64) :: rest)
      = (some c, rest) := by
  have hlead : lead? (0xC0 + c.toNat / 64) = some ⟨1, 0x80, 0xBF, c.toNat / 64⟩ := by
    rw [lead?, if_neg (by omega), if_neg (by omega), if_pos (by omega), Nat.add_sub_cancel_left]
  refine first_of_lead (by omega) hlead ?_
  rw [continuation_last rest (by omega) (by omega) (by omega), Nat.div_add_mod]

/-- The second byte keeps out what fewer bytes spell, and surrogates. -/
theorem first_threeBytes (h : 0x800 ≤ c.toNat) (h' : c.toNat < 0x10000)
    (hscalar : c.toNat < 0xD800 ∨ 0xDFFF < c.toNat) :
    first (UInt8.ofNat (0xE0 + c.toNat / 4096)) (UInt8.ofNat (0x80 + c.toNat / 64 % 64)
      :: UInt8.ofNat (0x80 + c.toNat % 64) :: rest) = (some c, rest) := by
  have hvalue : 64 * (64 * (c.toNat / 4096) + c.toNat / 64 % 64) + c.toNat % 64 = c.toNat := by
    omega
  have hlead : lead? (0xE0 + c.toNat / 4096)
      = some ⟨2, if 0xE0 + c.toNat / 4096 = 0xE0 then 0xA0 else 0x80,
        if 0xE0 + c.toNat / 4096 = 0xED then 0x9F else 0xBF, c.toNat / 4096⟩ := by
    rw [lead?, if_neg (by omega), if_neg (by omega), if_neg (by omega), if_pos (by omega),
      Nat.add_sub_cancel_left]
  refine first_of_lead (by omega) hlead ?_
  rw [continuation_cons _ (by omega) (by split <;> omega) (by split <;> omega),
    continuation_last rest (by omega) (by omega) (by omega), hvalue]

theorem first_fourBytes (h : 0x10000 ≤ c.toNat) (h' : c.toNat < 0x110000) :
    first (UInt8.ofNat (0xF0 + c.toNat / 262144)) (UInt8.ofNat (0x80 + c.toNat / 4096 % 64)
      :: UInt8.ofNat (0x80 + c.toNat / 64 % 64) :: UInt8.ofNat (0x80 + c.toNat % 64) :: rest)
        = (some c, rest) := by
  have hvalue : 64 * (64 * (64 * (c.toNat / 262144) + c.toNat / 4096 % 64) + c.toNat / 64 % 64)
      + c.toNat % 64 = c.toNat := by
    omega
  have hlead : lead? (0xF0 + c.toNat / 262144)
      = some ⟨3, if 0xF0 + c.toNat / 262144 = 0xF0 then 0x90 else 0x80,
        if 0xF0 + c.toNat / 262144 = 0xF4 then 0x8F else 0xBF, c.toNat / 262144⟩ := by
    rw [lead?, if_neg (by omega), if_neg (by omega), if_neg (by omega), if_neg (by omega),
      if_pos (by omega), Nat.add_sub_cancel_left]
  refine first_of_lead (by omega) hlead ?_
  rw [continuation_cons _ (by omega) (by split <;> omega) (by split <;> omega),
    continuation_cons _ (by omega) (by omega) (by omega),
    continuation_last rest (by omega) (by omega) (by omega), hvalue]

theorem items_encodeChar_append (c : Char) :
    items (encodeChar c ++ rest) = some c :: items rest := by
  have hscalar : c.toNat < 0xD800 ∨ 0xDFFF < c.toNat ∧ c.toNat < 0x110000 := c.valid
  simp only [encodeChar]
  split
  · next h1 => rw [List.singleton_append, items_cons, first_oneByte rest h1]
  · next h1 =>
    split
    · next h2 =>
      rw [List.cons_append, List.singleton_append, items_cons, first_twoBytes rest (by omega) h2]
    · next h2 =>
      split
      · next h3 =>
        rw [List.cons_append, List.cons_append, List.singleton_append, items_cons,
          first_threeBytes rest (by omega) h3 (by omega)]
      · next h3 =>
        rw [List.cons_append, List.cons_append, List.cons_append, List.singleton_append, items_cons,
          first_fourBytes rest (by omega) (by omega)]

theorem items_flatMap_encodeChar (cs : List Char) :
    items (cs.flatMap encodeChar) = cs.map some := by
  induction cs with
  | nil => rw [List.flatMap_nil, items, scan, List.map_nil, List.reverse_nil]
  | cons c cs ih => rw [List.flatMap_cons, items_encodeChar_append, ih, List.map_cons]

/-- A text is what its bytes spell. -/
theorem decodeLossy_encode (s : String) : decodeLossy (encode s) = s := by
  have hchar : (fun c : Option Char => c.getD (Char.ofNat 0xFFFD)) ∘ some = id := rfl
  rw [decodeLossy, encode, items_flatMap_encodeChar, List.map_map, hchar, List.map_id,
    String.ofList_toList]

end Transmux.Utf8
