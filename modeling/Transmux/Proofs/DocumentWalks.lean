import Transmux.Proofs.DocumentReading

/-! Walks over documents of any depth, and over documents that follow one another. A walk notes an
issue just if the document goes deeper than walks do. -/

namespace Transmux.Document

@[simp] theorem empty_append (d : Document) : empty ++ d = d :=
  rfl

@[simp] theorem leaf_append (id : ElementId) (form : SizeForm) (payload : Bytes)
    (next d : Document) : leaf id form payload next ++ d = leaf id form payload (next ++ d) :=
  rfl

@[simp] theorem master_append (id : ElementId) (form : SizeForm) (children next d : Document) :
    master id form children next ++ d = master id form children (next ++ d) :=
  rfl

theorem WellFormed.append {a b : Document} (ha : a.WellFormed) (hsized : a.IsSized)
    (hb : b.WellFormed) : (a ++ b).WellFormed := by
  induction a with
  | empty => exact hb
  | leaf id form payload next ih =>
    obtain ⟨hid, hleaf, hfits, -, hnext⟩ := ha
    exact ⟨hid, hleaf, hfits, Or.inl hsized.1, ih hnext hsized.2⟩
  | master id form children next _ ih =>
    obtain ⟨hid, hmaster, hfits, -, hchildren, hnext⟩ := ha
    exact ⟨hid, hmaster, hfits, Or.inl hsized.1, hchildren, ih hnext hsized.2.2⟩

theorem depth_append (a b : Document) : (a ++ b).depth = max a.depth b.depth := by
  induction a with
  | empty => exact (Nat.zero_max b.depth).symm
  | leaf id form payload next ih => exact ih
  | master id form children next _ ih =>
    rw [master_append, depth, ih, depth, Nat.max_assoc]

theorem visit_append (filter : Bool) (a b : Document) (r : Recording) :
    (a ++ b).tree.visit filter r = b.tree.visit filter (a.tree.visit filter r) := by
  induction a generalizing r with
  | empty => rfl
  | leaf id form payload next ih => exact ih _
  | master id form children next _ ih => exact ih _

theorem walked_append (a b : Document) (parent : ElementId) {depth : Nat}
    (hdepth : depth + a.depth ≤ Event.maxDepth) (offset : Nat) :
    (a ++ b).walked parent depth offset
      = a.events offset ++ b.walked parent depth (offset + a.bytes.length) := by
  induction a generalizing offset with
  | empty => rfl
  | leaf id form payload next ih =>
    have hstop : (extent offset id form payload.length).stop + next.bytes.length
        = offset + (leaf id form payload next).bytes.length := by
      simp only [extent, Extent.stop, Extent.contentOffset, length_bytes_leaf]
      omega
    rw [leaf_append, walked, ih hdepth, hstop, events]
    rfl
  | master id form children next _ ih =>
    have hnested : depth + max (children.depth + 1) next.depth ≤ Event.maxDepth := hdepth
    have hstop : (extent offset id form children.bytes.length).stop + next.bytes.length
        = offset + (master id form children next).bytes.length := by
      simp only [extent, Extent.stop, Extent.contentOffset, length_bytes_master]
      omega
    rw [master_append, walked_master _ _ _ _ (by omega), walked_eq_events children id (by omega),
      ih (by omega), hstop, events]
    simp

/-- A document is walked to its end just if it is not too deep. -/
theorem issue?_walked (d : Document) (parent : ElementId) {depth : Nat}
    (hdepth : depth ≤ Event.maxDepth) (offset : Nat) :
    (d.walked parent depth offset).filterMap Event.issue? = []
      ↔ depth + d.depth ≤ Event.maxDepth := by
  induction d generalizing parent depth offset with
  | empty => exact iff_of_true rfl hdepth
  | leaf id form payload next ih => exact ih parent hdepth _
  | master id form children next ihchildren ihnext =>
    have hmax : depth + (master id form children next).depth ≤ Event.maxDepth
        ↔ depth + 1 + children.depth ≤ Event.maxDepth ∧ depth + next.depth ≤ Event.maxDepth := by
      rw [Document.depth]
      omega
    by_cases hdeep : Event.maxDepth ≤ depth
    · rw [walked_master_deep _ _ _ _ hdeep, hmax]
      exact iff_of_false (by simp [Event.issue?]) (by omega)
    · rw [walked_master _ _ _ _ (Nat.lt_of_not_le hdeep), List.filterMap_cons_none rfl,
        List.filterMap_append, List.filterMap_cons_none rfl, List.append_eq_nil_iff,
        ihchildren id (by omega), ihnext parent hdepth, hmax]

theorem issues_ofBytes_eq_nil_iff (filter : Bool) {d : Document} (hd : d.WellFormed) :
    (Recording.ofBytes filter d.bytes).issues = [] ↔ d.depth ≤ Event.maxDepth := by
  rw [Recording.ofBytes, ofBytes_eq_walked hd, Recording.issues_ofEvents,
    issue?_walked d Event.root (Nat.zero_le _), Nat.zero_add]

end Transmux.Document
