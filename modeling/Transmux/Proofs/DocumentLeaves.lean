import Transmux.Proofs.DocumentReading

/-! The leaves of a document, of all depths in document order, and what stands in its track
entries. Where each leaf of a kind replaces what an earlier one told, the last of them counts. -/

namespace Transmux

namespace Document

/-- The leaves of all depths. -/
def leaves : Document → List (ElementId × Bytes)
  | empty => []
  | leaf id _ payload next => (id, payload) :: next.leaves
  | master _ _ children next => children.leaves ++ next.leaves

/-- What is told by the leaves of a kind. -/
def payloads (d : Document) (k : Element) : List Bytes :=
  d.leaves.filterMap k.payload?

/-- What stands in each track entry. An entry inside another one is a part of that one. -/
def entries : Document → List Document
  | empty => []
  | leaf _ _ _ next => next.entries
  | master id _ children next =>
    if id = Element.trackEntry.id then children :: next.entries
    else children.entries ++ next.entries

theorem entries_of_ne {id : ElementId} (h : id ≠ Element.trackEntry.id) (form : SizeForm)
    (children next : Document) :
    (master id form children next).entries = children.entries ++ next.entries :=
  if_neg h

theorem entries_of_eq (form : SizeForm) (children next : Document) :
    (master Element.trackEntry.id form children next).entries = children :: next.entries :=
  if_pos rfl

theorem entries_master_eq_nil {id : ElementId} {form : SizeForm} {children next : Document}
    (h : (master id form children next).entries = []) :
    id ≠ Element.trackEntry.id ∧ children.entries = [] ∧ next.entries = [] := by
  by_cases hid : id = Element.trackEntry.id
  · rw [hid, entries_of_eq] at h
    cases h
  · rw [entries_of_ne hid, List.append_eq_nil_iff] at h
    exact ⟨hid, h⟩

/-- A master and what follows it. -/
theorem events_master (offset : Nat) (id : ElementId) (form : SizeForm)
    (children next : Document) :
    (master id form children next).events offset
      = (.enter id (extent offset id form children.bytes.length)
          :: (children.events (extent offset id form children.bytes.length).contentOffset
            ++ [.leave id]))
        ++ next.events (extent offset id form children.bytes.length).stop := by
  rw [events, List.cons_append, List.append_assoc]
  rfl

theorem leaf?_events (d : Document) (offset : Nat) :
    (d.events offset).filterMap Event.leaf? = d.leaves := by
  induction d generalizing offset with
  | empty => rfl
  | leaf id form payload next ih => exact congrArg ((id, payload) :: ·) (ih _)
  | master id form children next ihchildren ihnext =>
    rw [events, List.filterMap_cons_none rfl, List.filterMap_append, ihchildren,
      List.filterMap_cons_none rfl, ihnext]
    rfl

end Document

end Transmux
