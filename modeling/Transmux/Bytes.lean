/-! Byte strings, and the numbers of fixed width laid out in them in either byte order. -/

namespace Transmux

abbrev Bytes := List UInt8

namespace Bytes

/-- The last `width` base-256 digits of a number, least significant first. -/
def le : Nat → Nat → Bytes
  | 0, _ => []
  | width + 1, n => UInt8.ofNat n :: le width (n / 256)

def ofLe : Bytes → Nat
  | [] => 0
  | b :: bs => b.toNat + 256 * ofLe bs

/-- The last `width` base-256 digits of a number, most significant first. -/
def be : Nat → Nat → Bytes
  | 0, _ => []
  | width + 1, n => be width (n / 256) ++ [UInt8.ofNat n]

def ofBe (bs : Bytes) : Nat :=
  bs.foldl (fun n b => 256 * n + b.toNat) 0

/-- The number that the last eight bytes spell, most significant first. -/
def word (bs : Bytes) : Nat :=
  bs.foldl (fun n b => (256 * n + b.toNat) % UInt64.size) 0

def startsWith (bs front : Bytes) : Bool :=
  front.isPrefixOf bs

/-- The first `n` bytes and what follows them, if there are that many. -/
def split? (n : Nat) (bs : Bytes) : Option (Bytes × Bytes) :=
  let front := bs.take n
  if front.length = n then some (front, bs.drop n) else none

/-- The bytes with `new` in place of as many of them from `start` on. -/
def overwrite (bytes : Bytes) (start : Nat) (new : Bytes) : Bytes :=
  bytes.take start ++ (new ++ bytes.drop (start + new.length))

@[simp] theorem length_le (width n : Nat) : (le width n).length = width := by
  induction width generalizing n <;> simp [le, *]

@[simp] theorem length_be (width n : Nat) : (be width n).length = width := by
  induction width generalizing n <;> simp [be, *]

theorem split?_append {n : Nat} {a : Bytes} (b : Bytes) (h : a.length = n) :
    split? n (a ++ b) = some (a, b) := by
  subst h
  simp [split?]

theorem split?_eq_some_iff {n : Nat} {bs a b : Bytes} :
    split? n bs = some (a, b) ↔ bs = a ++ b ∧ a.length = n := by
  constructor
  · intro h
    simp only [split?] at h
    split at h
    next hl =>
      simp only [Option.some.injEq, Prod.mk.injEq] at h
      obtain ⟨rfl, rfl⟩ := h
      exact ⟨(List.take_append_drop n bs).symm, hl⟩
    next => simp at h
  · rintro ⟨rfl, h⟩
    exact split?_append b h

theorem split?_eq (n : Nat) (bs : Bytes) :
    split? n bs = if n ≤ bs.length then some (bs.take n, bs.drop n) else none := by
  have hfront : (bs.take n).length = n ↔ n ≤ bs.length := by
    rw [List.length_take]
    omega
  simp only [split?, hfront]

theorem overwrite_append {old new : Bytes} (h : new.length = old.length) (front back : Bytes) :
    overwrite (front ++ (old ++ back)) front.length new = front ++ (new ++ back) := by
  have hdrop : (front ++ (old ++ back)).drop (front.length + new.length) = back := by
    rw [← List.append_assoc]
    exact List.drop_left' (by rw [List.length_append, h])
  rw [overwrite, List.take_left, hdrop]

end Bytes

end Transmux
