import Transmux.Ebml.Event

/-! Documents: trees of elements, as opposed to the bytes that spell them. The same tree can be
spelt in many ways, as sizes may take more bytes than they need and a last element may leave its
size open; `Document.events` is what a walk over any of them should tell. -/

namespace Transmux

/-- How the size of an element is written. -/
inductive SizeForm where
  | known (width : Nat)
  /-- All value bits set. The element then goes on to the end of what it is in. -/
  | unknown (width : Nat)
deriving DecidableEq

namespace SizeForm

def width : SizeForm → Nat
  | known w | .unknown w => w

def isKnown : SizeForm → Bool
  | known _ => true
  | .unknown _ => false

/-- The coded number that stands for a size. -/
def coded (size : Nat) : SizeForm → Nat
  | known w => Vint.marker w + size
  | .unknown w => Vint.marker w + (Vint.marker w - 1)

def bytes (size : Nat) (f : SizeForm) : Bytes :=
  Bytes.be f.width (f.coded size)

/-- A known size must differ from the largest number of its width. -/
def Fits (size : Nat) (f : SizeForm) : Prop :=
  1 ≤ f.width ∧ f.width ≤ 8 ∧ (f.isKnown = true → size + 1 < Vint.marker f.width)

instance (size : Nat) (f : SizeForm) : Decidable (f.Fits size) :=
  inferInstanceAs (Decidable (_ ∧ _ ∧ _))

end SizeForm

/-- Whether a number is an element id as it is coded, in one to four bytes. -/
def ElementId.IsCoded (id : ElementId) : Prop :=
  1 ≤ id.width ∧ id.width ≤ 4 ∧ Vint.marker id.width ≤ id ∧ id < 2 * Vint.marker id.width

instance (id : ElementId) : Decidable id.IsCoded :=
  inferInstanceAs (Decidable (_ ∧ _ ∧ _ ∧ _))

/-- Elements that follow one another, each with what is in it. -/
inductive Document where
  | empty
  | leaf (id : ElementId) (form : SizeForm) (payload : Bytes) (next : Document)
  | master (id : ElementId) (form : SizeForm) (children next : Document)
deriving DecidableEq

namespace Document

def bytes : Document → Bytes
  | empty => []
  | leaf id form payload next =>
    ElementId.bytes id ++ form.bytes payload.length ++ payload ++ next.bytes
  | master id form children next =>
    ElementId.bytes id ++ form.bytes children.bytes.length ++ children.bytes ++ next.bytes

/-- Elements one after the other, as one document. -/
def append : Document → Document → Document
  | empty, d => d
  | leaf id form payload next, d => leaf id form payload (next.append d)
  | master id form children next, d => master id form children (next.append d)

instance : Append Document :=
  ⟨append⟩

/-- Every id is one, leaves and masters are told apart by their ids, and only the last element of
what it is in leaves its size open. -/
def WellFormed : Document → Prop
  | empty => True
  | leaf id form payload next =>
    id.IsCoded ∧ id.isMaster = false ∧ form.Fits payload.length
      ∧ (form.isKnown = true ∨ next = empty) ∧ next.WellFormed
  | master id form children next =>
    id.IsCoded ∧ id.isMaster = true ∧ form.Fits children.bytes.length
      ∧ (form.isKnown = true ∨ next = empty) ∧ children.WellFormed ∧ next.WellFormed

/-- No size is left open. -/
def IsSized : Document → Prop
  | empty => True
  | leaf _ form _ next => form.isKnown = true ∧ next.IsSized
  | master _ form children next => form.isKnown = true ∧ children.IsSized ∧ next.IsSized

/-- How many masters stand inside one another. -/
def depth : Document → Nat
  | empty => 0
  | leaf _ _ _ next => next.depth
  | master _ _ children next => max (children.depth + 1) next.depth

/-- Where an element lies whose header starts at `offset`. -/
def extent (offset : Nat) (id : ElementId) (form : SizeForm) (size : Nat) : Extent :=
  ⟨offset, id.width + form.width, size⟩

/-- The events of a tree in document order, if its bytes start at `offset`. -/
def events (offset : Nat) : Document → List Event
  | empty => []
  | leaf id form payload next =>
    let place := extent offset id form payload.length
    .leaf id place payload :: next.events place.stop
  | master id form children next =>
    let place := extent offset id form children.bytes.length
    .enter id place
      :: (children.events place.contentOffset ++ .leave id :: next.events place.stop)

@[simp] theorem bytes_append (d e : Document) : (d ++ e).bytes = d.bytes ++ e.bytes := by
  change (d.append e).bytes = d.bytes ++ e.bytes
  induction d with
  | empty => rfl
  | leaf id form payload next ih => simp [append, bytes, ih]
  | master id form children next _ ih => simp [append, bytes, ih]

end Document

end Transmux
