import Transmux.Proofs.StrictPolicy
import Transmux.Proofs.VisitedElements

/-! Issues against the input. Each is told with the reason for which the walk could not go on at its
offset, and the offsets grow from issue to issue, so a strict conversion reports the one that comes
first in the input. -/

namespace Transmux

namespace Event

/-- The masters that are open at a point of a walk, innermost first. -/
abbrev Path := List (ElementId × Extent)

namespace Path

def parent (path : Path) : ElementId :=
  path.head?.elim root Prod.fst

/-- Where the innermost of the open spans ends. -/
def stop (path : Path) (input : Bytes) : Nat :=
  path.head?.elim input.length fun master => master.2.stop

end Path

/-- The issues among some events, each with the masters that were open then. -/
def stops (path : Path) : List Event → List (Path × Issue)
  | [] => []
  | .enter id place :: events => stops ((id, place) :: path) events
  | .leave _ :: events => stops path.tail events
  | .leaf _ _ _ :: events => stops path events
  | .stopped issue :: events => (path, issue) :: stops path events

theorem map_snd_stops (path : Path) (events : List Event) :
    (stops path events).map Prod.snd = events.filterMap issue? := by
  induction events generalizing path with
  | nil => rfl
  | cons e events ih =>
    cases e with
    | stopped issue =>
      have hissue : issue? (.stopped issue) = some issue := rfl
      rw [List.filterMap_cons_some hissue, ← ih path]
      rfl
    | enter => exact ih _
    | leave => exact ih _
    | leaf => exact ih _

namespace Traverses

variable {depth cursor stop : Nat} {events : List Event}

/-- A span is left with the masters open that were open before it. -/
theorem stops_append (h : Traverses depth cursor stop events) (path : Path) (rest : List Event) :
    stops path (events ++ rest) = stops path events ++ stops path rest := by
  induction h generalizing path rest with
  | finished => rfl
  | stopped => rfl
  | leaf _ _ _ ih => exact ih path rest
  | @master _ _ _ id place inner later _ _ _ _ ihinner ihrest =>
    have houter (tail : List Event) :
        stops path (.enter id place :: (inner ++ .leave id :: tail))
          = stops ((id, place) :: path) inner ++ stops path tail := ihinner _ _
    rw [List.cons_append, List.append_assoc, List.cons_append, houter, houter, ihrest,
      List.append_assoc]

theorem mem_issues (h : Traverses depth cursor stop events) {issue : Issue}
    (hissue : issue ∈ events.filterMap issue?) : cursor ≤ issue.offset ∧ issue.offset < stop := by
  induction h with
  | finished => cases hissue
  | stopped hcursor hoffset =>
    obtain rfl : issue = _ := by simpa [issue?] using hissue
    omega
  | leaf hfirst _ _ ih =>
    have hoffset := hfirst.offset_eq
    have hlt := hfirst.cursor_lt
    have hle := hfirst.content_le
    have hin := ih hissue
    omega
  | master _ hfirst _ _ ihinner ihrest =>
    have hlt := hfirst.cursor_lt
    have hle := hfirst.content_le
    have hstop := hfirst.stop_le
    rw [List.filterMap_cons_none rfl, List.filterMap_append, List.filterMap_cons_none rfl,
      List.mem_append] at hissue
    rcases hissue with hinner | hrest
    · have hin := ihinner hinner
      omega
    · have hin := ihrest hrest
      omega

/-- What a span inside an element tells comes before what is told behind the element. -/
theorem pairwise_issues (h : Traverses depth cursor stop events) :
    (events.filterMap issue?).Pairwise fun a b => a.offset < b.offset := by
  induction h with
  | finished => exact .nil
  | stopped => exact List.pairwise_singleton ..
  | leaf _ _ _ ih => exact ih
  | master _ _ hinner hrest ihinner ihrest =>
    rw [List.filterMap_cons_none rfl, List.filterMap_append, List.filterMap_cons_none rfl]
    refine List.pairwise_append.2 ⟨ihinner, ihrest, fun a ha b hb => ?_⟩
    exact Nat.lt_of_lt_of_le (hinner.mem_issues ha).2 (hrest.mem_issues hb).1

end Traverses

end Event

/-- Whether a walk that has come to an offset in a span up to `stop`, inside so many masters, has
this reason to stop there. -/
structure Stop.TrueAt (reason : Stop) (input : Bytes) (offset stop depth : Nat) : Prop where
  badId_iff : reason = .badId ↔ ElementId.read? (input.drop offset) = none
  badSize_iff : reason = .badSize ↔ ∃ id, ElementId.read? (input.drop offset) = some id
    ∧ (Vint.read? (input.drop (offset + id.width)) = none
      ∨ ∃ size, Vint.read? (input.drop (offset + id.width)) = some size
        ∧ stop < offset + id.width + size.width)
  tooDeep : reason = .tooDeep → depth = Event.maxDepth
    ∧ ∃ id size, ElementId.read? (input.drop offset) = some id
      ∧ ElementId.isMaster id.coded = true
      ∧ Vint.read? (input.drop (offset + id.width)) = some size
      ∧ offset + id.width + size.width ≤ stop

namespace Stop

variable {input : Bytes} {offset stop depth : Nat} {h : Header}

theorem trueAt_of_error {reason : Stop} (hread : Header.read? (input.drop offset) = .error reason) :
    reason.TrueAt input offset stop depth := by
  rw [Header.read?] at hread
  cases hid : ElementId.read? (input.drop offset) with
  | none =>
    obtain rfl : Stop.badId = reason := by simpa [hid] using hread
    constructor <;> simp [hid]
  | some id =>
    cases hsize : Vint.read? (input.drop (offset + id.width)) with
    | none =>
      obtain rfl : Stop.badSize = reason := by simpa [hid, hsize] using hread
      constructor <;> simp [hid, hsize]
    | some size => simp [hid, hsize] at hread

theorem trueAt_of_short (hread : Header.read? (input.drop offset) = .ok h)
    (hshort : stop < offset + h.length) : badSize.TrueAt input offset stop depth := by
  obtain ⟨id, size, hid, hsize, rfl⟩ := Header.read?_eq_ok_iff.1 hread
  rw [List.drop_drop] at hsize
  have hout : stop < offset + id.width + size.width := by
    simpa [Nat.add_assoc] using hshort
  constructor <;> simp [hid, hsize, hout]

theorem trueAt_of_tooDeep (hread : Header.read? (input.drop offset) = .ok h)
    (hlong : offset + h.length ≤ stop) (hmaster : h.id.isMaster = true)
    (hdepth : depth = Event.maxDepth) : tooDeep.TrueAt input offset stop depth := by
  obtain ⟨id, size, hid, hsize, rfl⟩ := Header.read?_eq_ok_iff.1 hread
  rw [List.drop_drop] at hsize
  have hin : offset + id.width + size.width ≤ stop := by
    simpa [Nat.add_assoc] using hlong
  constructor <;> simp_all

end Stop

/-- What an issue that is told inside these masters says of the input. -/
structure Issue.Sound (input : Bytes) (path : Event.Path) (issue : Issue) : Prop where
  parent_eq : issue.parent = path.parent
  /-- The masters are what they are told to be, and the issue lies in the content of each. -/
  enclosed : ∀ master ∈ path, master.1.isMaster = true
    ∧ master.2.contentOffset ≤ issue.offset ∧ issue.offset < master.2.stop
  offset_lt : issue.offset < path.stop input
  stop_le : path.stop input ≤ input.length
  reason_true : issue.reason.TrueAt input issue.offset (path.stop input) path.length

namespace Event

/-- The next `room` bytes at `offset` are walked inside these masters. -/
structure Path.Leads (path : Path) (input : Bytes) (parent : ElementId)
    (depth offset room : Nat) : Prop where
  parent_eq : path.parent = parent
  length_eq : path.length = depth
  depth_le : depth ≤ maxDepth
  stop_eq : path.stop input = offset + room
  stop_le : offset + room ≤ input.length
  enclosed : ∀ master ∈ path, master.1.isMaster = true
    ∧ master.2.contentOffset ≤ offset ∧ offset + room ≤ master.2.stop

namespace Path.Leads

variable {path : Path} {input : Bytes} {parent : ElementId} {depth offset room : Nat}

theorem root (input : Bytes) : Leads [] input Event.root 0 0 input.length where
  parent_eq := rfl
  length_eq := rfl
  depth_le := Nat.zero_le _
  stop_eq := (Nat.zero_add _).symm
  stop_le := Nat.le_of_eq (Nat.zero_add _)
  enclosed := fun _ hmaster => by cases hmaster

theorem skip (h : path.Leads input parent depth offset room) {n : Nat} (hn : n ≤ room) :
    path.Leads input parent depth (offset + n) (room - n) := by
  have hstop : offset + n + (room - n) = offset + room := by omega
  refine ⟨h.parent_eq, h.length_eq, h.depth_le, hstop ▸ h.stop_eq, hstop ▸ h.stop_le, ?_⟩
  intro master hmaster
  obtain ⟨his, hstart, hend⟩ := h.enclosed master hmaster
  exact ⟨his, by omega, hstop ▸ hend⟩

theorem enter (h : path.Leads input parent depth offset room) {id : ElementId}
    (hmaster : id.isMaster = true) (hdepth : depth < maxDepth) {header size : Nat}
    (hsize : header + size ≤ room) :
    Leads ((id, ⟨offset, header, size⟩) :: path) input id (depth + 1) (offset + header) size where
  parent_eq := rfl
  length_eq := congrArg Nat.succ h.length_eq
  depth_le := hdepth
  stop_eq := rfl
  stop_le := by
    have hstop := h.stop_le
    omega
  enclosed := by
    refine List.forall_mem_cons.2 ⟨⟨hmaster, Nat.le_refl _, Nat.le_refl _⟩, fun outer houter => ?_⟩
    obtain ⟨his, hstart, hend⟩ := h.enclosed outer houter
    exact ⟨his, by omega, by omega⟩

/-- An issue at the cursor is as sound as its reason. -/
theorem sound (h : path.Leads input parent depth offset room) (hroom : room ≠ 0) {reason : Stop}
    (hreason : reason.TrueAt input offset (offset + room) depth) :
    Issue.Sound input path ⟨parent, offset, reason⟩ where
  parent_eq := h.parent_eq.symm
  enclosed := by
    intro master hmaster
    obtain ⟨his, hstart, hend⟩ := h.enclosed master hmaster
    exact ⟨his, hstart, by dsimp only; omega⟩
  offset_lt := by
    rw [h.stop_eq]
    dsimp only
    omega
  stop_le := h.stop_eq ▸ h.stop_le
  reason_true := by
    rw [h.stop_eq, h.length_eq]
    exact hreason

end Path.Leads

theorem sound_stops_span {input : Bytes} (parent : ElementId) (depth : Nat) (bytes : Bytes)
    (offset room : Nat) (hbytes : bytes = input.drop offset) (path : Path)
    (hpath : path.Leads input parent depth offset room) :
    ∀ stop ∈ stops path (span parent depth bytes offset room), stop.2.Sound input stop.1 := by
  fun_induction span parent depth bytes offset room generalizing path with
  | case1 => exact fun stop hstop => by cases hstop
  | case2 parent depth bytes offset room hne reason hread =>
    rw [hbytes] at hread
    exact List.forall_mem_singleton.2 (hpath.sound hne (Stop.trueAt_of_error hread))
  | case3 parent depth bytes offset room hne h hread hshort =>
    rw [hbytes] at hread
    have hout : offset + room < offset + h.length := Nat.add_lt_add_left hshort offset
    exact List.forall_mem_singleton.2 (hpath.sound hne (Stop.trueAt_of_short hread hout))
  | case4 parent depth bytes offset room hne h hread hlong hmaster hdeep =>
    rw [hbytes] at hread
    have hin : offset + h.length ≤ offset + room :=
      Nat.add_le_add_left (Nat.not_lt.1 hlong) offset
    have hdepth : depth = maxDepth := Nat.le_antisymm hpath.depth_le hdeep
    exact List.forall_mem_singleton.2
      (hpath.sound hne (Stop.trueAt_of_tooDeep hread hin hmaster hdepth))
  | case5 parent depth bytes offset room hne h hread hlong size place content hmaster hdepth
      ihinner ihrest =>
    have hsize : size ≤ room - h.length := h.contentLength_le _
    have hcontent : content = input.drop place.contentOffset := place.drop_header hbytes
    have hlength : size ≤ content.length := by
      have hstop := hpath.stop_le
      rw [hcontent, List.length_drop, show place.contentOffset = offset + h.length from rfl]
      omega
    have hinside := hpath.enter hmaster (Nat.lt_of_not_le hdepth)
      (show h.length + size ≤ room by omega)
    have hbehind := hpath.skip (show h.length + size ≤ room by omega)
    rw [← Nat.add_assoc, ← Nat.sub_sub] at hbehind
    have hrest := ihrest (place.drop_content hcontent) path hbehind
    have hsplit : stops path (.enter h.id place :: (span h.id (depth + 1) content
        place.contentOffset size ++ .leave h.id :: span parent depth (content.drop size) place.stop
          (room - h.length - size)))
        = stops ((h.id, place) :: path) (span h.id (depth + 1) content place.contentOffset size)
          ++ stops path (span parent depth (content.drop size) place.stop
            (room - h.length - size)) :=
      (traverses_span _ _ _ _ _ hlength).stops_append _ _
    rw [hsplit, List.forall_mem_append]
    exact ⟨ihinner hcontent _ hinside, hrest⟩
  | case6 parent depth bytes offset room hne h hread hlong size place content hleaf ihrest =>
    have hsize : size ≤ room - h.length := h.contentLength_le _
    have hbehind := hpath.skip (show h.length + size ≤ room by omega)
    rw [← Nat.add_assoc, ← Nat.sub_sub] at hbehind
    exact ihrest (place.drop_content (place.drop_header hbytes)) path hbehind

theorem sound_stops_ofBytes (input : Bytes) :
    ∀ stop ∈ stops [] (ofBytes input), stop.2.Sound input stop.1 := by
  rw [ofBytes_eq_span]
  exact sound_stops_span root 0 input 0 input.length rfl [] (Path.Leads.root input)

end Event

/-- Of issues that lie one behind the other, the first one is the one that lies first. -/
theorem Issue.head?_eq_some_iff {issues : List Issue}
    (h : issues.Pairwise fun a b => a.offset < b.offset) {issue : Issue} :
    issues.head? = some issue
      ↔ issue ∈ issues ∧ ∀ other ∈ issues, issue.offset ≤ other.offset := by
  cases issues with
  | nil => simp
  | cons first rest =>
    have hlater := (List.pairwise_cons.1 h).1
    rw [List.head?_cons, Option.some.injEq]
    constructor
    · rintro rfl
      refine ⟨List.mem_cons_self, List.forall_mem_cons.2 ⟨Nat.le_refl _, fun other hother => ?_⟩⟩
      exact Nat.le_of_lt (hlater other hother)
    · rintro ⟨hmem, hleast⟩
      rcases List.mem_cons.1 hmem with heq | hrest
      · exact heq.symm
      · exact absurd (hlater issue hrest) (Nat.not_lt.2 (hleast first List.mem_cons_self))

theorem Issue.Sound.parent {input : Bytes} {path : Event.Path} {issue : Issue}
    (h : issue.Sound input path) :
    issue.parent = Event.root ∨ issue.parent.isMaster = true := by
  cases path with
  | nil => exact Or.inl h.parent_eq
  | cons master outer =>
    have hparent : issue.parent = master.1 := h.parent_eq
    rw [hparent]
    exact Or.inr (h.enclosed master List.mem_cons_self).1

namespace Recording

theorem issues_eq_stops (filter : Bool) (input : Bytes) :
    (ofBytes filter input).issues
      = (Event.stops [] (Event.ofBytes input)).map Prod.snd := by
  rw [ofBytes, issues_ofEvents, Event.map_snd_stops]

theorem pairwise_issues (filter : Bool) (input : Bytes) :
    (ofBytes filter input).issues.Pairwise fun a b => a.offset < b.offset := by
  rw [ofBytes, issues_ofEvents]
  exact (Event.traverses_ofBytes input).pairwise_issues

/-- Every issue of a recording is told with the masters it lies in and the reason the input gives
for it, and each lies behind those told before it. A strict conversion reports the one that lies
first. -/
theorem issues_are_sound (filter : Bool) (input : Bytes) :
    let issues := (ofBytes filter input).issues
    issues = (Event.stops [] (Event.ofBytes input)).map Prod.snd
      ∧ (∀ stop ∈ Event.stops [] (Event.ofBytes input), stop.2.Sound input stop.1)
      ∧ (∀ issue ∈ issues, issue.offset < input.length
        ∧ (issue.parent = Event.root ∨ issue.parent.isMaster = true))
      ∧ issues.Pairwise (fun a b => a.offset < b.offset)
      ∧ ∀ (o : Options) (drawn : Except String UInt32), o.parsePolicy = .strict →
        Bytes.startsWith input Ogg.Page.capture = false → ∀ issue,
          (remux o drawn input).result = .error (.truncated issue)
            ↔ issue ∈ issues ∧ ∀ other ∈ issues, issue.offset ≤ other.offset := by
  intro issues
  have hissues : issues = (Event.stops [] (Event.ofBytes input)).map Prod.snd :=
    issues_eq_stops filter input
  have hpair : issues.Pairwise (fun a b => a.offset < b.offset) := pairwise_issues filter input
  have hsound := Event.sound_stops_ofBytes input
  refine ⟨hissues, hsound, fun issue hissue => ?_, hpair, ?_⟩
  · rw [hissues] at hissue
    obtain ⟨stop, hstop, rfl⟩ := List.mem_map.1 hissue
    have h := hsound stop hstop
    exact ⟨Nat.lt_of_lt_of_le h.offset_lt h.stop_le, h.parent⟩
  · intro o drawn hstrict hinput issue
    -- the filter drops blocks only, so all recordings of the input have these issues
    have hsame : (ofBytes o.filterAudioTrack input).issues = issues := by
      rw [issues_eq_stops, hissues]
    rw [Remux.remux_result hinput, Remux.convert_truncated_iff hstrict, hsame]
    exact Issue.head?_eq_some_iff hpair

/-- A group of one byte, in which only the id of the next element lies, and behind that element a
byte that starts none. -/
def crookedGroup : Bytes :=
  [0xA0, 0x81, 0xA3, 0x81, 0x80, 0x00]

theorem issues_are_sound_crookedGroup :
    (ofBytes true crookedGroup).issues = [⟨0xA0, 2, .badSize⟩, ⟨0, 5, .badId⟩]
      ∧ Issue.Sound crookedGroup [(0xA0, ⟨0, 2, 1⟩)] ⟨0xA0, 2, .badSize⟩
      ∧ Issue.Sound crookedGroup [] ⟨0, 5, .badId⟩
      ∧ (remux Remux.strictly (.ok 7) crookedGroup).result
        = .error (.truncated ⟨0xA0, 2, .badSize⟩) := by
  have hstops : Event.stops [] (Event.ofBytes crookedGroup)
      = [([(0xA0, ⟨0, 2, 1⟩)], ⟨0xA0, 2, .badSize⟩), ([], ⟨0, 5, .badId⟩)] := by
    decide +kernel
  obtain ⟨hissues, hsound, -, -, hstrict⟩ := issues_are_sound true crookedGroup
  rw [hstops] at hissues hsound
  rw [List.forall_mem_cons, List.forall_mem_singleton] at hsound
  refine ⟨hissues, hsound.1, hsound.2, ?_⟩
  rw [hstrict Remux.strictly (.ok 7) rfl (by decide), hissues]
  simp

end Recording

end Transmux
