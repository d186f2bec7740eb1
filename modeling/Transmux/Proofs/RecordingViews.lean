import Transmux.Recording.Basic

/-! How a recording builds up event by event, and what its views depend on. No view but the issues
looks at a stop, and none at where an element lies. -/

namespace Transmux

/-- If a step replaces a view of the state just when it is told a value, the last value told is
seen in the end. -/
theorem foldl_last_told {σ β α : Type} {step : σ → β → σ} {view : σ → α} {told? : β → Option α}
    (h : ∀ s b, view (step s b) = (told? b).getD (view s)) (s : σ) (bs : List β) :
    view (bs.foldl step s) = (bs.filterMap told?).getLast?.getD (view s) := by
  induction bs generalizing s with
  | nil => rfl
  | cons b bs ih =>
    rw [List.foldl_cons, ih, h]
    cases htold : told? b with
    | none => rw [List.filterMap_cons_none htold, Option.getD_none]
    | some a =>
      rw [List.filterMap_cons_some htold, List.getLast?_cons, Option.getD_some, Option.getD_some]

/-- What is told by a leaf of this kind. -/
def Element.payload? (k : Element) (leaf : ElementId × Bytes) : Option Bytes :=
  if Element.ofId? leaf.1 = some k then some leaf.2 else none

namespace Extent

/-- The place of what lies in no input. -/
def nowhere : Extent := ⟨0, 0, 0⟩

end Extent

namespace Event

def issue? : Event → Option Issue
  | .stopped issue => some issue
  | _ => none

/-- Where the element lies that a walk comes to. -/
def place? : Event → Option Extent
  | .enter _ place | .leaf _ place _ => some place
  | .leave _ | .stopped _ => none

def leaf? : Event → Option (ElementId × Bytes)
  | .leaf id _ data => some (id, data)
  | _ => none

/-- What a leaf of this kind tells. -/
def payload? (k : Element) (e : Event) : Option Bytes :=
  e.leaf?.bind k.payload?

def unplaced : Event → Event
  | .enter id _ => .enter id .nowhere
  | .leave id => .leave id
  | .leaf id _ data => .leaf id .nowhere data
  | .stopped issue => .stopped issue

/-- An event for what it tells of the stream itself. -/
def essence? : Event → Option Event
  | .stopped _ => none
  | e => some e.unplaced

def essences (events : List Event) : List Event :=
  events.filterMap essence?

section

variable (id : ElementId) (place : Extent) (data : Bytes) (issue : Issue) (events : List Event)

@[simp] theorem essences_nil : essences [] = [] :=
  rfl

@[simp] theorem essences_enter :
    essences (.enter id place :: events) = .enter id .nowhere :: essences events :=
  rfl

@[simp] theorem essences_leave :
    essences (.leave id :: events) = .leave id :: essences events :=
  rfl

@[simp] theorem essences_leaf :
    essences (.leaf id place data :: events) = .leaf id .nowhere data :: essences events :=
  rfl

@[simp] theorem essences_stopped : essences (.stopped issue :: events) = essences events :=
  rfl

theorem essences_cons (e : Event) :
    essences (e :: events) = e.essence?.toList ++ essences events := by
  cases e <;> rfl

@[simp] theorem essences_append (a b : List Event) :
    essences (a ++ b) = essences a ++ essences b :=
  List.filterMap_append

end

end Event

namespace Finding

def unplaced : Finding → Finding
  | .block _ fate => .block .nowhere fate
  | f => f

end Finding

/-- Whether elements of this id hold a block each. -/
def ElementId.isBlock (id : ElementId) : Bool :=
  Element.ofId? id = some .simpleBlock || Element.ofId? id = some .block

namespace Context

def afterAll (c : Context) (events : List Event) : Context :=
  events.foldl after c

/-- What several events tell, each given what is known before it. -/
def tells (filter : Bool) (c : Context) : List Event → List Finding
  | [] => []
  | e :: events => c.findings filter e ++ (c.after e).tells filter events

variable (filter : Bool) (c : Context)

theorem tells_append (a b : List Event) :
    c.tells filter (a ++ b) = c.tells filter a ++ (c.afterAll a).tells filter b := by
  induction a generalizing c with
  | nil => rfl
  | cons e a ih =>
    rw [List.cons_append, tells, ih, tells, List.append_assoc]
    rfl

theorem after_unplaced (e : Event) : c.after e.unplaced = c.after e := by
  cases e <;> rfl

/-- If leaves of one kind alone tell of a part of the context, each of them replaces it. -/
theorem view_after {α : Type} {view : Context → α} {k : Element} (value? : Bytes → Option α)
    (hentry : ∀ c entry, view { c with entry := entry } = view c)
    (hclose : ∀ c t, view (closeEntry c t) = view c)
    (hread : ∀ c e data, view (readLeaf c e data)
      = if e = k then (value? data).getD (view c) else view c)
    (c : Context) (e : Event) :
    view (c.after e) = ((e.payload? k).bind value?).getD (view c) := by
  cases e with
  | stopped issue => rfl
  | enter id place =>
    rw [after]
    split
    · exact hentry c _
    · rfl
  | leave id =>
    rw [after]
    split
    · cases c.entry with
      | none => rfl
      | some t => exact hclose c t
    · rfl
  | leaf id place data =>
    simp only [after, Event.payload?, Event.leaf?, Option.bind_some, Element.payload?]
    cases Element.ofId? id with
    | none => rfl
    | some e =>
      rw [Option.elim_some, hread]
      by_cases he : e = k
      · simp [he]
      · simp [he]

theorem findings_leaf (id : ElementId) (place : Extent) (data : Bytes) :
    c.findings filter (.leaf id place data)
      = if id.isBlock then [.block place (c.fate filter data)] else [] := by
  rw [findings, ElementId.isBlock]
  cases hid : Element.ofId? id with
  | none => rfl
  | some e => cases e <;> rfl

/-- The end of an element tells of tracks only. -/
theorem mem_findings_leave {id : ElementId} {f : Finding} (h : f ∈ c.findings filter (.leave id)) :
    (∃ number codec, f = .selected number codec) ∨ ∃ t, f = .track t := by
  simp only [findings] at h
  split at h
  · cases hentry : c.entry with
    | none => simp [hentry] at h
    | some t =>
      rw [hentry, Option.elim_some] at h
      rcases List.mem_append.1 h with hselected | htrack
      · obtain ⟨number, -, rfl⟩ := Option.map_eq_some_iff.1 (Option.mem_toList.1 hselected)
        exact Or.inl ⟨number, t.codec, rfl⟩
      · exact Or.inr ⟨t, List.mem_singleton.1 htrack⟩
  · cases h

theorem findings_unplaced (e : Event) :
    c.findings filter e.unplaced = (c.findings filter e).map Finding.unplaced := by
  cases e with
  | enter => rfl
  | stopped => rfl
  | leave master =>
    have hfixed : ∀ f ∈ c.findings filter (.leave master), f.unplaced = id f := fun f hf => by
      rcases mem_findings_leave filter c hf with ⟨_, _, rfl⟩ | ⟨_, rfl⟩ <;> rfl
    rw [List.map_congr_left hfixed, List.map_id]
    rfl
  | leaf id place data =>
    rw [Event.unplaced, findings_leaf, findings_leaf]
    split <;> rfl

theorem afterAll_unplaced (events : List Event) :
    c.afterAll (events.map Event.unplaced) = c.afterAll events := by
  simp only [afterAll, List.foldl_map, after_unplaced]

theorem tells_unplaced (events : List Event) :
    c.tells filter (events.map Event.unplaced)
      = (c.tells filter events).map Finding.unplaced := by
  induction events generalizing c with
  | nil => rfl
  | cons e events ih =>
    rw [List.map_cons, tells, findings_unplaced, after_unplaced, ih, tells, List.map_append]

end Context

namespace Recording

section

variable (f : Finding)

@[simp] theorem frame?_unplaced : frame? f.unplaced = frame? f := by
  cases f with
  | block place fate => cases fate <;> rfl
  | _ => rfl

@[simp] theorem track?_unplaced : track? f.unplaced = track? f := by
  cases f <;> rfl

@[simp] theorem isSkipped_unplaced : isSkipped f.unplaced = isSkipped f := by
  cases f with
  | block place fate => cases fate <;> rfl
  | _ => rfl

@[simp] theorem isLaced_unplaced : isLaced f.unplaced = isLaced f := by
  cases f with
  | block place fate => cases fate <;> rfl
  | _ => rfl

end

theorem foldl_add (filter : Bool) (r : Recording) (events : List Event) :
    events.foldl (add filter) r
      = ⟨r.context.afterAll events, (r.context.tells filter events).reverse ++ r.findings⟩ := by
  induction events generalizing r with
  | nil => rfl
  | cons e events ih =>
    rw [List.foldl_cons, ih]
    simp [add, Context.tells, Context.afterAll]

theorem ofEvents_eq (filter : Bool) (events : List Event) :
    ofEvents filter events
      = ⟨({} : Context).afterAll events, ({} : Context).tells filter events⟩ := by
  simp [ofEvents, foldl_add]

theorem issue?_findings (filter : Bool) (c : Context) (e : Event) :
    (c.findings filter e).filterMap issue? = e.issue?.toList := by
  cases e with
  | enter => rfl
  | stopped => rfl
  | leave id =>
    refine List.filterMap_eq_nil_iff.2 fun f hf => ?_
    rcases Context.mem_findings_leave filter c hf with ⟨_, _, rfl⟩ | ⟨_, rfl⟩ <;> rfl
  | leaf id place data =>
    rw [Context.findings_leaf]
    split <;> rfl

theorem issues_ofEvents (filter : Bool) (events : List Event) :
    (ofEvents filter events).issues = events.filterMap Event.issue? := by
  have htells (c : Context) : (c.tells filter events).filterMap issue?
      = events.filterMap Event.issue? := by
    induction events generalizing c with
    | nil => rfl
    | cons e events ih =>
      rw [Context.tells, List.filterMap_append, issue?_findings, ih]
      cases h : e.issue? <;> simp [h]
  rw [ofEvents_eq, issues, htells]

theorem frame?_findings_essence (filter : Bool) (c : Context) (e : Event) :
    (c.tells filter e.essence?.toList).filterMap frame?
        = (c.findings filter e).filterMap frame?
      ∧ c.afterAll e.essence?.toList = c.after e := by
  have hunplaced : (c.tells filter [e.unplaced]).filterMap frame?
      = (c.findings filter e).filterMap frame? := by
    have hcomp : frame? ∘ Finding.unplaced = frame? := funext frame?_unplaced
    rw [Context.tells, Context.findings_unplaced, Context.tells, List.append_nil,
      List.filterMap_map, hcomp]
  cases e with
  | stopped => exact ⟨rfl, rfl⟩
  | enter => exact ⟨hunplaced, rfl⟩
  | leave => exact ⟨hunplaced, rfl⟩
  | leaf => exact ⟨hunplaced, rfl⟩

theorem frames_tells_essence (filter : Bool) (c : Context) (events : List Event) :
    (c.tells filter (Event.essences events)).filterMap frame?
      = (c.tells filter events).filterMap frame? := by
  induction events generalizing c with
  | nil => rfl
  | cons e events ih =>
    obtain ⟨hframes, hafter⟩ := frame?_findings_essence filter c e
    rw [Event.essences_cons, Context.tells_append, List.filterMap_append, hframes, hafter, ih,
      Context.tells, List.filterMap_append]

end Recording

end Transmux
