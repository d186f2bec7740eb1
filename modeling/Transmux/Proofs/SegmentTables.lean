import Mathlib.Algebra.GroupWithZero.Nat
import Transmux.Ogg.SegmentTable

/-! Segment tables against the packet lengths they stand for. A table made from lengths gives the
lengths back, describes a body as long as all packets together, and leaves no packet unended. -/

namespace Transmux.Ogg.SegmentTable

theorem length_values (n : Nat) : (values n).length = count n := by
  simp [values, count]

theorem count_pos (n : Nat) : 0 < count n := by
  simp [count]

theorem ofLengths_cons (n : Nat) (lengths : List Nat) :
    ofLengths (n :: lengths) = values n ++ ofLengths lengths := rfl

theorem length_ofLengths (lengths : List Nat) :
    (ofLengths lengths).length = (lengths.map count).sum := by
  simp [ofLengths, List.length_flatMap, length_values]

theorem toNat_last_value (n : Nat) : (UInt8.ofNat (n % 255)).toNat = n % 255 := by
  rw [UInt8.toNat_ofNat']
  omega

theorem last_value_lt (n : Nat) : UInt8.ofNat (n % 255) < 255 := by
  rw [UInt8.lt_iff_toNat_lt, toNat_last_value]
  exact Nat.mod_lt n (by decide)

theorem eq_of_not_lt {v : UInt8} (h : ¬ v < 255) : v = 255 := by
  have hle := UInt8.le_iff_toNat_le.1 (UInt8.not_lt.1 h)
  have hlt := v.toNat_lt
  change 255 ≤ v.toNat at hle
  rw [← UInt8.toNat_inj]
  change v.toNat = 255
  omega

theorem lengthsAfter_replicate (k pending : Nat) (table : SegmentTable) :
    lengthsAfter pending (List.replicate k 255 ++ table)
      = lengthsAfter (pending + 255 * k) table := by
  induction k generalizing pending with
  | zero => rfl
  | succ k ih =>
    have hk : pending + 255 + 255 * k = pending + 255 * (k + 1) := by omega
    rw [List.replicate_succ, List.cons_append, lengthsAfter, if_neg (by decide), ih, hk]

theorem lengthsAfter_values (pending n : Nat) (table : SegmentTable) :
    lengthsAfter pending (values n ++ table) = (pending + n) :: lengthsAfter 0 table := by
  have hn : pending + 255 * (n / 255) + n % 255 = pending + n := by omega
  rw [values, List.append_assoc, lengthsAfter_replicate, List.singleton_append, lengthsAfter,
    if_pos (last_value_lt n), toNat_last_value, hn]

@[simp] theorem lengths_ofLengths (lengths : List Nat) :
    (ofLengths lengths).lengths = lengths := by
  induction lengths with
  | nil => rfl
  | cons n lengths ih =>
    rw [SegmentTable.lengths, ofLengths_cons, lengthsAfter_values, Nat.zero_add]
    exact congrArg (n :: ·) ih

theorem total_eq_sum (table : SegmentTable) : total table = (table.map UInt8.toNat).sum := by
  rw [total, ← List.foldl_map, ← List.sum_eq_foldl]

theorem total_values (n : Nat) : total (values n) = n := by
  simp only [total_eq_sum, values, List.map_append, List.map_replicate, List.map_cons, List.map_nil,
    List.sum_append, List.sum_replicate_nat, List.sum_cons, List.sum_nil, toNat_last_value]
  change n / 255 * 255 + (n % 255 + 0) = n
  omega

theorem total_ofLengths (lengths : List Nat) : total (ofLengths lengths) = lengths.sum := by
  induction lengths with
  | nil => rfl
  | cons n lengths ih =>
    have hn := total_values n
    rw [total_eq_sum] at hn ih
    rw [total_eq_sum, ofLengths_cons, List.map_append, List.sum_append, hn, ih, List.sum_cons]

theorem sum_lengthsAfter (pending : Nat) (table : SegmentTable) :
    (lengthsAfter pending table).sum = pending + total table := by
  induction table generalizing pending with
  | nil =>
    by_cases hp : pending = 0
    · simp [lengthsAfter, hp, total]
    · simp [lengthsAfter, hp, total]
  | cons v table ih =>
    have htotal : total (v :: table) = v.toNat + total table := by
      simp [total_eq_sum]
    by_cases hv : v < 255
    · rw [lengthsAfter, if_pos hv, List.sum_cons, ih, htotal]
      omega
    · obtain rfl := eq_of_not_lt hv
      rw [lengthsAfter, if_neg hv, ih, htotal]
      exact Nat.add_assoc ..

theorem sum_lengths (table : SegmentTable) : table.lengths.sum = total table := by
  rw [lengths, sum_lengthsAfter, Nat.zero_add]

theorem getLast?_ofLengths_ne (lengths : List Nat) : (ofLengths lengths).getLast? ≠ some 255 := by
  induction lengths with
  | nil => simp [ofLengths]
  | cons n lengths ih =>
    rw [ofLengths_cons, List.getLast?_append]
    cases h : (ofLengths lengths).getLast? with
    | some v => simpa [h] using ih
    | none =>
      intro hv
      have hlast : UInt8.ofNat (n % 255) = 255 := by simpa [values] using hv
      exact absurd (last_value_lt n) (by rw [hlast]; decide)

/-- Packets laid end to end are cut apart by their lengths, whatever follows them. -/
theorem cut?_flatten_append (packets : List Bytes) (rest : Bytes) :
    cut? (packets.map List.length) (packets.flatten ++ rest) = some packets := by
  induction packets with
  | nil => rfl
  | cons packet packets ih =>
    rw [List.map_cons, List.flatten_cons, List.append_assoc, cut?, Bytes.split?_append _ rfl]
    simp [ih]

/-- A body as long as the lengths tell is cut without a byte left over. -/
theorem exists_cut?_eq_some {lengths : List Nat} {body : Bytes} (h : lengths.sum = body.length) :
    ∃ packets, cut? lengths body = some packets ∧ packets.flatten = body
      ∧ packets.map List.length = lengths := by
  induction lengths generalizing body with
  | nil =>
    have hbody : body = [] := List.length_eq_zero_iff.1 h.symm
    exact ⟨[], rfl, hbody.symm, rfl⟩
  | cons n lengths ih =>
    rw [List.sum_cons] at h
    have hfront : (body.take n).length = n := List.length_take_of_le (by omega)
    have hsplit : Bytes.split? n body = some (body.take n, body.drop n) := by
      rw [Bytes.split?_eq, if_pos (by omega)]
    obtain ⟨packets, hcut, hflat, hlengths⟩ := @ih (body.drop n) (by
      rw [List.length_drop]
      omega)
    refine ⟨body.take n :: packets, ?_, ?_, ?_⟩
    · simp [cut?, hsplit, hcut]
    · rw [List.flatten_cons, hflat, List.take_append_drop]
    · rw [List.map_cons, hfront, hlengths]

theorem cut?_eq_none_iff {lengths : List Nat} {body : Bytes} :
    cut? lengths body = none ↔ body.length < lengths.sum := by
  induction lengths generalizing body with
  | nil => simp [cut?]
  | cons n lengths ih =>
    rw [cut?, List.sum_cons, Bytes.split?_eq]
    by_cases hle : n ≤ body.length
    · have hrest := @ih (body.drop n)
      rw [List.length_drop] at hrest
      rw [if_pos hle]
      exact Option.map_eq_none_iff.trans (hrest.trans (by omega))
    · rw [if_neg hle]
      exact iff_of_true rfl (by omega)

end Transmux.Ogg.SegmentTable
