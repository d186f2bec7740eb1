import Transmux.Ebml.Event

/-! What is read at the front of a byte string stays read when more bytes follow, and is read
without them if they are not part of it. -/

namespace Transmux

theorem Bytes.split?_add {n : Nat} {bytes front rest : Bytes}
    (h : split? n bytes = some (front, rest)) (more : Bytes) :
    split? n (bytes ++ more) = some (front, rest ++ more) := by
  obtain ⟨rfl, hfront⟩ := split?_eq_some_iff.1 h
  rw [List.append_assoc]
  exact split?_append _ hfront

namespace Vint

theorem read?_cons_of_ne {first : UInt8} (hfirst : first ≠ 0) (tail : Bytes) :
    read? (first :: tail) = (Bytes.split? (widthOf first) (first :: tail)).map fun p =>
      ⟨Bytes.ofBe p.1, widthOf first, widthOf_pos first⟩ := by
  rw [read?, if_neg hfirst]

theorem first_of_read? {first : UInt8} {tail : Bytes} {v : Vint}
    (h : read? (first :: tail) = some v) : first ≠ 0 ∧ v.width = widthOf first := by
  by_cases hzero : first = 0
  · simp [read?, hzero] at h
  · rw [read?_cons_of_ne hzero] at h
    obtain ⟨p, -, rfl⟩ := Option.map_eq_some_iff.1 h
    exact ⟨hzero, rfl⟩

theorem width_le_of_read? {bytes : Bytes} {v : Vint} (h : read? bytes = some v) :
    v.width ≤ bytes.length := by
  cases bytes with
  | nil => simp [read?] at h
  | cons first tail =>
    have hfirst := (first_of_read? h).1
    rw [read?_cons_of_ne hfirst] at h
    obtain ⟨p, hsplit, rfl⟩ := Option.map_eq_some_iff.1 h
    obtain ⟨hbytes, hlength⟩ := Bytes.split?_eq_some_iff.1 hsplit
    have hsum := congrArg List.length hbytes
    rw [List.length_append, hlength] at hsum
    change widthOf first ≤ (first :: tail).length
    omega

theorem read?_add {bytes : Bytes} {v : Vint} (h : read? bytes = some v) (more : Bytes) :
    read? (bytes ++ more) = some v := by
  cases bytes with
  | nil => simp [read?] at h
  | cons first tail =>
    have hfirst := (first_of_read? h).1
    rw [read?_cons_of_ne hfirst] at h
    obtain ⟨p, hsplit, hv⟩ := Option.map_eq_some_iff.1 h
    have hadd := Bytes.split?_add hsplit more
    rw [List.cons_append] at hadd ⊢
    rw [read?_cons_of_ne hfirst, hadd, ← hv]
    rfl

theorem read?_of_add {bytes more : Bytes} {v : Vint} (h : read? (bytes ++ more) = some v)
    (hwidth : v.width ≤ bytes.length) : read? bytes = some v := by
  cases bytes with
  | nil => exact absurd v.width_pos (Nat.not_lt.2 hwidth)
  | cons first tail =>
    obtain ⟨hfirst, hv⟩ := first_of_read? h
    have hsplit : Bytes.split? (widthOf first) (first :: tail)
        = some ((first :: tail).take (widthOf first), (first :: tail).drop (widthOf first)) :=
      Bytes.split?_eq_some_iff.2
        ⟨(List.take_append_drop ..).symm, List.length_take_of_le (hv ▸ hwidth)⟩
    have hread := read?_cons_of_ne hfirst tail
    rw [hsplit, Option.map_some] at hread
    rw [hread, ← read?_add hread more, h]

end Vint

namespace ElementId

theorem read?_eq_some_iff {bytes : Bytes} {v : Vint} :
    read? bytes = some v ↔ Vint.read? bytes = some v ∧ v.width ≤ 4 := by
  simp [read?]

theorem read?_of_vint {bytes : Bytes} {v : Vint} (h : Vint.read? bytes = some v) :
    read? bytes = if 4 < v.width then none else some v := by
  rw [read?, h]
  split
  · next hlong => exact Option.filter_some_neg (decide_eq_false (Nat.not_le.2 hlong))
  · next hshort => exact Option.filter_some_pos (decide_eq_true (Nat.not_lt.1 hshort))

end ElementId

namespace Header

theorem read?_eq_ok_iff {bytes : Bytes} {h : Header} :
    read? bytes = .ok h ↔ ∃ id size, ElementId.read? bytes = some id
      ∧ Vint.read? (bytes.drop id.width) = some size
      ∧ (⟨id.coded, if size.isUnknown then none else some size.value, id.width + size.width,
        Nat.add_pos_left id.width_pos _⟩ : Header) = h := by
  rw [read?]
  cases hid : ElementId.read? bytes with
  | none => simp
  | some id => cases hsize : Vint.read? (bytes.drop id.width) <;> simp [hsize]

theorem read?_add {bytes : Bytes} {h : Header} (hread : read? bytes = .ok h) (more : Bytes) :
    read? (bytes ++ more) = .ok h := by
  obtain ⟨id, size, hid, hsize, hh⟩ := read?_eq_ok_iff.1 hread
  obtain ⟨hvint, hwidth⟩ := ElementId.read?_eq_some_iff.1 hid
  have hlength : id.width < bytes.length := List.length_lt_of_drop_ne_nil fun hnil => by
    simp [hnil, Vint.read?] at hsize
  refine read?_eq_ok_iff.2 ⟨id, size, ?_, ?_, hh⟩
  · exact ElementId.read?_eq_some_iff.2 ⟨Vint.read?_add hvint more, hwidth⟩
  · rw [List.drop_append_of_le_length (Nat.le_of_lt hlength)]
    exact Vint.read?_add hsize more

theorem read?_of_add {bytes more : Bytes} {h : Header} (hread : read? (bytes ++ more) = .ok h)
    (hlength : h.length ≤ bytes.length) : read? bytes = .ok h := by
  obtain ⟨id, size, hid, hsize, rfl⟩ := read?_eq_ok_iff.1 hread
  obtain ⟨hvint, hwidth⟩ := ElementId.read?_eq_some_iff.1 hid
  have hsum : id.width + size.width ≤ bytes.length := hlength
  rw [List.drop_append_of_le_length (by omega)] at hsize
  refine read?_eq_ok_iff.2 ⟨id, size, ?_, ?_, rfl⟩
  · exact ElementId.read?_eq_some_iff.2 ⟨Vint.read?_of_add hvint (by omega), hwidth⟩
  · exact Vint.read?_of_add hsize (by rw [List.length_drop]; omega)

/-- With more room, content that did not fill its room is as long as before. -/
theorem contentLength_add (h : Header) (room more : Nat) :
    h.contentLength (room + more) = h.contentLength room
      ∨ h.contentLength room = room
        ∧ ∃ extra, h.contentLength (room + more) = room + extra ∧ extra ≤ more := by
  cases hsize : h.size with
  | none => exact Or.inr ⟨by simp [contentLength, hsize], more, by simp [contentLength, hsize]⟩
  | some n =>
    by_cases hle : n ≤ room
    · left
      simp [contentLength, hsize, Nat.min_eq_left hle, Nat.min_eq_left (Nat.le_add_right_of_le hle)]
    · right
      simp only [contentLength, hsize, Option.elim_some]
      exact ⟨by omega, min n (room + more) - room, by omega, by omega⟩

end Header

end Transmux
