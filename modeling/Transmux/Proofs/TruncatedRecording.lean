import Transmux.Proofs.TruncatedSpans

/-! What a cut does to the packets of a recording. All before it stay, the one it falls into may
lose its end, and nothing is told after that. -/

namespace Transmux

theorem Block.read?_add {payload : Bytes} {b : Block} (h : read? payload = some b) (more : Bytes) :
    read? (payload ++ more) = some { b with data := b.data ++ more } := by
  cases htrack : Vint.read? payload with
  | none => simp [read?, htrack] at h
  | some track =>
    cases hrest : payload.drop (track.width + 2) with
    | nil => simp [read?, htrack, hrest] at h
    | cons flags data =>
      simp only [read?, htrack, hrest, Option.some.injEq] at h
      have hlength : track.width + 2 < payload.length :=
        List.length_lt_of_drop_ne_nil (by simp [hrest])
      have hdrop : (payload ++ more).drop (track.width + 2) = flags :: (data ++ more) := by
        rw [List.drop_append_of_le_length (Nat.le_of_lt hlength), hrest, List.cons_append]
      simp only [read?, Vint.read?_add htrack more, hdrop, ← h]

namespace Context

/-- The packets that some events tell, given what is known before them. -/
def packets (filter : Bool) (c : Context) (events : List Event) : List Bytes :=
  (c.tells filter events).filterMap Recording.frame?

variable (filter : Bool) (c : Context)

theorem packets_cons (e : Event) (events : List Event) :
    c.packets filter (e :: events)
      = (c.findings filter e).filterMap Recording.frame? ++ (c.after e).packets filter events := by
  rw [packets, tells, List.filterMap_append]
  rfl

theorem frame?_findings_of_not_leaf {e : Event} (h : e.isLeaf = false) :
    (c.findings filter e).filterMap Recording.frame? = [] := by
  cases e with
  | enter => rfl
  | stopped => rfl
  | leaf => cases h
  | leave id =>
    refine List.filterMap_eq_nil_iff.2 fun f hf => ?_
    rcases mem_findings_leave filter c hf with ⟨_, _, rfl⟩ | ⟨_, rfl⟩ <;> rfl

theorem packets_of_not_leaf {events : List Event} (h : ∀ e ∈ events, e.isLeaf = false) :
    c.packets filter events = [] := by
  induction events generalizing c with
  | nil => rfl
  | cons e events ih =>
    obtain ⟨he, hevents⟩ := List.forall_mem_cons.1 h
    rw [packets_cons, frame?_findings_of_not_leaf filter c he, ih _ hevents, List.append_nil]

theorem frame?_fate (place : Extent) (payload : Bytes) :
    Recording.frame? (.block place (c.fate filter payload))
      = (Block.read? payload).bind fun b =>
        if c.drops filter b.track ∨ b.data = [] then none else some b.data := by
  rw [fate]
  cases Block.read? payload with
  | none => rfl
  | some b =>
    by_cases hdrop : c.drops filter b.track = true
    · simp [hdrop, Recording.frame?]
    · by_cases hempty : b.data = []
      · simp [hdrop, hempty, Recording.frame?]
      · simp [hdrop, hempty, Recording.frame?]

/-- A block that loses its end keeps what is left of its packet, or tells none. -/
theorem frame?_fate_add (place : Extent) (data lost : Bytes) :
    Recording.frame? (.block place (c.fate filter data)) = none
      ∨ ∃ part, part ≠ [] ∧ Recording.frame? (.block place (c.fate filter data)) = some part
        ∧ Recording.frame? (.block place (c.fate filter (data ++ lost))) = some (part ++ lost) := by
  rw [frame?_fate, frame?_fate]
  cases hread : Block.read? data with
  | none => exact Or.inl rfl
  | some b =>
    rw [Block.read?_add hread lost, Option.bind_some, Option.bind_some]
    by_cases hdrop : c.drops filter b.track = true
    · exact Or.inl (if_pos (Or.inl hdrop))
    · by_cases hempty : b.data = []
      · exact Or.inl (if_pos (Or.inr hempty))
      · right
        refine ⟨b.data, hempty, ?_, ?_⟩
        · simp [hdrop, hempty]
        · simp [hdrop, hempty]

theorem frame?_findings_leaf_add (id : ElementId) (data lost : Bytes) :
    (c.findings filter (.leaf id .nowhere data)).filterMap Recording.frame? = []
      ∨ ∃ part, part ≠ []
        ∧ (c.findings filter (.leaf id .nowhere data)).filterMap Recording.frame? = [part]
        ∧ (c.findings filter (.leaf id .nowhere (data ++ lost))).filterMap Recording.frame?
          = [part ++ lost] := by
  rw [findings_leaf, findings_leaf]
  split
  · rcases frame?_fate_add filter c .nowhere data lost with hnone | ⟨part, hne, hpart, hwhole⟩
    · left
      simp [hnone]
    · right
      exact ⟨part, hne, by simp [hpart], by simp [hwhole]⟩
  · exact Or.inl rfl

end Context

/-- The first so many packets, and after them at most a part of the next one. -/
def TailLost (kept all : List Bytes) : Prop :=
  ∃ n, kept = all.take n
    ∨ ∃ whole part, all[n]? = some whole ∧ part ≠ [] ∧ part <+: whole ∧ part ≠ whole
      ∧ kept = all.take n ++ [part]

namespace TailLost

theorem nil (all : List Bytes) : TailLost [] all :=
  ⟨0, Or.inl rfl⟩

theorem append_left {kept all : List Bytes} (h : TailLost kept all) (front : List Bytes) :
    TailLost (front ++ kept) (front ++ all) := by
  obtain ⟨n, hkept | ⟨whole, part, hwhole, hne, hprefix, hproper, hkept⟩⟩ := h
  · exact ⟨front.length + n, Or.inl (by rw [List.take_length_add_append, hkept])⟩
  · refine ⟨front.length + n, Or.inr ⟨whole, part, ?_, hne, hprefix, hproper, ?_⟩⟩
    · rw [List.getElem?_append_right (Nat.le_add_right ..), Nat.add_sub_cancel_left, hwhole]
    · rw [List.take_length_add_append, hkept, List.append_assoc]

theorem of_torn {part : Bytes} (hpart : part ≠ []) (lost : Bytes) (rest : List Bytes) :
    TailLost [part] ((part ++ lost) :: rest) := by
  by_cases hlost : lost = []
  · exact ⟨1, Or.inl (by simp [hlost])⟩
  · have hproper : part ≠ part ++ lost := by simpa using hlost
    exact ⟨0, Or.inr ⟨part ++ lost, part, rfl, hpart, List.prefix_append part lost, hproper, rfl⟩⟩

end TailLost

namespace Event

theorem CutShort.tailLost {part whole : List Event} (h : CutShort part whole) (filter : Bool)
    (c : Context) : TailLost (c.packets filter part) (c.packets filter whole) := by
  induction h generalizing c with
  | ended hpart =>
    rw [Context.packets_of_not_leaf filter c hpart]
    exact .nil _
  | torn id data lost hpart =>
    rw [Context.packets_cons, Context.packets_cons, Context.packets_of_not_leaf _ _ hpart,
      List.append_nil]
    rcases Context.frame?_findings_leaf_add filter c id data lost with
      hnone | ⟨part, hne, hsome, hwhole⟩
    · rw [hnone]
      exact .nil _
    · rw [hsome, hwhole]
      exact .of_torn hne lost _
  | same e _ ih =>
    rw [Context.packets_cons, Context.packets_cons]
    exact (ih (c.after e)).append_left _

end Event

namespace Recording

theorem frames_ofEvents (filter : Bool) (events : List Event) :
    (ofEvents filter events).frames = ({} : Context).packets filter (Event.essences events) := by
  rw [ofEvents_eq, frames, Context.packets, frames_tells_essence]

theorem frames_ofBytes (filter : Bool) (bytes : Bytes) :
    (ofBytes filter bytes).frames
      = ({} : Context).packets filter (Event.essences (Event.ofBytes bytes)) :=
  frames_ofEvents ..

/-- Cutting an input anywhere loses only the tail of its packets. -/
theorem frames_take_tailLost (filter : Bool) (input : Bytes) (n : Nat) :
    TailLost (ofBytes filter (input.take n)).frames (ofBytes filter input).frames := by
  have hcut := Event.cutShort_ofBytes (input.take n) (input.drop n)
  rw [List.take_append_drop] at hcut
  rw [frames_ofBytes, frames_ofBytes]
  exact hcut.tailLost filter {}

example :
    let input : Bytes := [0xA3, 0x85, 0x81, 0, 0, 0, 7, 0xA3, 0x86, 0x81, 0, 0, 0, 8, 9]
    (ofBytes false input).frames = [[7], [8, 9]]
      ∧ (ofBytes false (input.take 14)).frames = [[7], [8]] := by
  decide +kernel

end Recording

end Transmux
