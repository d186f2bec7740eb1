import Mathlib.Algebra.Order.Group.Nat
import Transmux.Proofs.HeaderExtension
import Transmux.Proofs.RecordingViews
import Transmux.Proofs.SpanEvents

/-! Reading a recording by addresses in the input, the way a machine does: every address has to fit
a word, and every slice has to lie in the bytes that it is taken of, or else the reading fails. It
does not, whatever the input holds, and it tells the recording. -/

namespace Transmux

/-- Why a machine could not go on. -/
inductive Fault where
  /-- An address does not fit a word. -/
  | overflow
  /-- A slice reaches out of the bytes that it is taken of. -/
  | outOfRange
deriving DecidableEq

namespace Address

/-- Addresses are words of 64 bits. -/
def limit : Nat := 2 ^ 64

def add (a b : Nat) : Except Fault { c : Nat // c = a + b ∧ c < limit } :=
  if h : a + b < limit then .ok ⟨a + b, rfl, h⟩ else .error .overflow

/-- Addition that stays at the last address instead of failing. -/
def addSaturating (a b : Nat) : Nat :=
  min (a + b) (limit - 1)

theorem add_eq_ok {a b : Nat} (h : a + b < limit) : add a b = .ok ⟨a + b, rfl, h⟩ :=
  dif_pos h

end Address

/-- The bytes from one address up to another. -/
def Bytes.slice (bytes : Bytes) (start stop : Nat) : Except Fault Bytes :=
  if start ≤ stop ∧ stop ≤ bytes.length then .ok ((bytes.drop start).take (stop - start))
  else .error .outOfRange

theorem Bytes.slice_eq_ok {bytes : Bytes} {start stop : Nat} (h : start ≤ stop)
    (hstop : stop ≤ bytes.length) :
    bytes.slice start stop = .ok ((bytes.drop start).take (stop - start)) :=
  if_pos ⟨h, hstop⟩

theorem Bytes.slice_behind_first (first : UInt8) (more : Bytes) :
    slice (first :: more) 1 (List.length (first :: more)) = .ok more := by
  rw [slice_eq_ok (by simp) (Nat.le_refl _), List.drop_succ_cons, List.drop_zero,
    List.length_cons, Nat.add_sub_cancel, List.take_length]

/-- The number at an address: its first byte, and a slice for the others if all are there. -/
def Vint.readAt (bytes : Bytes) (pos : Nat) : Except Fault (Option Vint) :=
  match bytes[pos]? with
  | none => .ok none
  | some first =>
    if first = 0 then .ok none
    else do
      let stop ← Address.add pos (widthOf first)
      if stop.val ≤ bytes.length then
        let number ← bytes.slice pos stop
        let more ← number.slice 1 number.length
        return some ⟨Bytes.ofBe (first :: more), widthOf first, widthOf_pos first⟩
      else return none

theorem Vint.width_add_pos (id size : Vint) : 0 < id.width + size.width :=
  Nat.add_pos_left id.width_pos _

def Header.readAt (bytes : Bytes) (pos : Nat) : Except Fault (Except Stop Header) := do
  match ← Vint.readAt bytes pos with
  | none => return .error .badId
  | some id =>
    if 4 < id.width then return .error .badId
    else
      let sizeAt ← Address.add pos id.width
      match ← Vint.readAt bytes sizeAt with
      | none => return .error .badSize
      | some size =>
        return .ok ⟨id.coded, if size.isUnknown then none else some size.value,
          id.width + size.width, Vint.width_add_pos id size⟩

/-- Where the content of an element ends that starts at `start` in a span up to `stop`. -/
def Header.contentStop (h : Header) (start stop : Nat) : Nat :=
  h.size.elim stop fun size => min (Address.addSaturating start size) stop

def Block.readIn (payload : Bytes) : Except Fault (Option Block) := do
  match ← Vint.readAt payload 0 with
  | none => return none
  | some track =>
    let flagsAt ← Address.add track.width 2
    match payload[flagsAt.val]? with
    | none => return none
    | some flags =>
      let dataAt ← Address.add track.width 3
      let data ← payload.slice dataAt payload.length
      return some ⟨track.value, .ofFlags flags, data⟩

theorem Header.contentStop_le (h : Header) (start stop : Nat) :
    h.contentStop start stop ≤ stop := by
  rw [contentStop]
  cases h.size with
  | none => exact Nat.le_refl _
  | some size => exact Nat.min_le_right ..

theorem Header.le_contentStop (h : Header) {start stop : Nat} (hle : start ≤ stop)
    (hlimit : start < Address.limit) : start ≤ h.contentStop start stop := by
  rw [contentStop]
  cases h.size with
  | none => exact hle
  | some size =>
    rw [Option.elim_some, Address.addSaturating]
    omega

namespace Event

/-- What the end of a leaf needs: its data, split if it is a block. -/
def leafAt (bytes : Bytes) (id : ElementId) (start stop : Nat) : Except Fault Bytes := do
  let data ← bytes.slice start stop
  if id.isBlock then
    let _ ← Block.readIn data
    return data
  else return data

/-- Walks the input from the cursor `pos` up to `stop`, children of `parent`. -/
def walkAt (bytes : Bytes) (parent : ElementId) (depth pos stop : Nat) :
    Except Fault (List Event) :=
  if pos < stop then do
    match ← Header.readAt bytes pos with
    | .error reason => return [.stopped ⟨parent, pos, reason⟩]
    | .ok h =>
      let start ← Address.add pos h.length
      if stop < start.val then return [.stopped ⟨parent, pos, .badSize⟩]
      else
        let next := h.contentStop start stop
        let place : Extent := ⟨pos, h.length, next - start⟩
        if h.id.isMaster then
          if maxDepth ≤ depth then return [.stopped ⟨parent, pos, .tooDeep⟩]
          else
            let inner ← walkAt bytes h.id (depth + 1) start next
            let rest ← walkAt bytes parent depth next stop
            return .enter h.id place :: (inner ++ .leave h.id :: rest)
        else
          let data ← leafAt bytes h.id start next
          let rest ← walkAt bytes parent depth next stop
          return .leaf h.id place data :: rest
  else return []
termination_by stop - pos
decreasing_by
  all_goals
    have hp := h.length_pos
    have hlimit := start.property.2
    have := start.property.1
    have hnext : start ≤ h.contentStop start stop := h.le_contentStop (by omega) hlimit
    have hstop := h.contentStop_le start stop
    omega

end Event

/-- The whole input is read from its first byte. -/
def Recording.readAt (filter : Bool) (bytes : Bytes) : Except Fault Recording := do
  let events ← Event.walkAt bytes Event.root 0 0 bytes.length
  return ofEvents filter events

theorem ok_bind {α β : Type} (a : α) (f : α → Except Fault β) : (Except.ok a >>= f) = f a :=
  rfl

/-- Inputs leave half of the addresses to what is counted beyond their end. -/
def maxInput : Nat := 2 ^ 63

theorem Address.add_of_lt {a b : Nat} (ha : a < maxInput) (hb : b ≤ 16) :
    ∃ h, add a b = .ok ⟨a + b, rfl, h⟩ := by
  have hlt : a + b < limit := by
    rw [maxInput] at ha
    rw [limit]
    omega
  exact ⟨hlt, add_eq_ok hlt⟩

namespace Vint

theorem widthOf_le (first : UInt8) : widthOf first ≤ 8 :=
  Nat.sub_le ..

theorem width_le {bytes : Bytes} {v : Vint} (h : read? bytes = some v) : v.width ≤ 8 := by
  cases bytes with
  | nil => cases h
  | cons first tail =>
    rw [(first_of_read? h).2]
    exact widthOf_le first

theorem readAt_eq {bytes : Bytes} {pos : Nat} (hbytes : bytes.length < maxInput)
    (hpos : pos ≤ bytes.length) : readAt bytes pos = .ok (read? (bytes.drop pos)) := by
  rw [readAt, ← List.head?_drop]
  cases hdrop : bytes.drop pos with
  | nil => rfl
  | cons first tail =>
    rw [List.head?_cons]
    by_cases hfirst : first = 0
    · simp [read?, hfirst]
    · obtain ⟨width, hwidth⟩ : ∃ width, widthOf first = width + 1 :=
        ⟨widthOf first - 1, by have := widthOf_pos first; omega⟩
      have hlength := congrArg List.length hdrop
      rw [List.length_drop, List.length_cons] at hlength
      have hle := widthOf_le first
      obtain ⟨_, hadd⟩ := Address.add_of_lt (a := pos) (b := widthOf first) (by omega) (by omega)
      rw [read?_cons_of_ne hfirst]
      simp only [if_neg hfirst, hadd, ok_bind]
      by_cases hfit : pos + widthOf first ≤ bytes.length
      · have hsplit : Bytes.split? (widthOf first) (first :: tail)
            = some (first :: tail.take width, tail.drop width) := by
          rw [Bytes.split?_eq_some_iff, List.cons_append, List.take_append_drop, hwidth]
          exact ⟨rfl, by simp; omega⟩
        have hnumber : (bytes.drop pos).take (widthOf first) = first :: tail.take width := by
          rw [hdrop, hwidth, List.take_succ_cons]
        rw [if_pos hfit, Bytes.slice_eq_ok (by omega) hfit, Nat.add_sub_cancel_left, hnumber,
          ok_bind, Bytes.slice_behind_first, ok_bind, hsplit]
        rfl
      · have hnone : Bytes.split? (widthOf first) (first :: tail) = none := by
          simp [Bytes.split?]
          omega
        rw [if_neg hfit, hnone]
        rfl

end Vint

theorem Header.readAt_eq {bytes : Bytes} {pos : Nat} (hbytes : bytes.length < maxInput)
    (hpos : pos ≤ bytes.length) : readAt bytes pos = .ok (read? (bytes.drop pos)) := by
  rw [readAt, Vint.readAt_eq hbytes hpos, ok_bind, read?]
  cases hid : Vint.read? (bytes.drop pos) with
  | none =>
    rw [ElementId.read?, hid]
    rfl
  | some id =>
    have hwidth := Vint.width_le hid
    have hinside := Vint.width_le_of_read? hid
    rw [List.length_drop] at hinside
    obtain ⟨_, hadd⟩ := Address.add_of_lt (a := pos) (b := id.width) (by omega) (by omega)
    simp only [hadd, ok_bind, Vint.readAt_eq hbytes (show pos + id.width ≤ bytes.length by omega)]
    rw [ElementId.read?_of_vint hid]
    by_cases hlong : 4 < id.width
    · rw [if_pos hlong, if_pos hlong]
      rfl
    · rw [if_neg hlong, if_neg hlong]
      simp only [List.drop_drop]
      cases Vint.read? (bytes.drop (pos + id.width)) <;> rfl

/-- A header that is read lies in the input. -/
theorem Header.length_le {bytes : Bytes} {h : Header} (hread : read? bytes = .ok h) :
    h.length ≤ bytes.length ∧ h.length ≤ 16 := by
  obtain ⟨id, size, hid, hsize, rfl⟩ := read?_eq_ok_iff.1 hread
  have hidRead := (ElementId.read?_eq_some_iff.1 hid).1
  have hidWidth := Vint.width_le hidRead
  have hidInside := Vint.width_le_of_read? hidRead
  have hsizeWidth := Vint.width_le hsize
  have hsizeInside := Vint.width_le_of_read? hsize
  rw [List.length_drop] at hsizeInside
  change id.width + size.width ≤ bytes.length ∧ id.width + size.width ≤ 16
  omega

theorem Block.readIn_eq {payload : Bytes} (h : payload.length < maxInput) :
    readIn payload = .ok (read? payload) := by
  rw [readIn, Vint.readAt_eq h (Nat.zero_le _), List.drop_zero, ok_bind, read?]
  cases htrack : Vint.read? payload with
  | none => rfl
  | some track =>
    have hwidth := Vint.width_le htrack
    have hinside := Vint.width_le_of_read? htrack
    obtain ⟨_, hflags⟩ := Address.add_of_lt (a := track.width) (b := 2) (by omega) (by omega)
    obtain ⟨_, hdata⟩ := Address.add_of_lt (a := track.width) (b := 3) (by omega) (by omega)
    simp only [hflags, ok_bind, ← List.head?_drop]
    cases hrest : payload.drop (track.width + 2) with
    | nil => rfl
    | cons flags data =>
      have hlength := congrArg List.length hrest
      rw [List.length_drop, List.length_cons] at hlength
      have hbehind : payload.drop (track.width + 3) = data := by
        have hdrop := congrArg (List.drop 1) hrest
        rwa [List.drop_drop, List.drop_succ_cons, List.drop_zero] at hdrop
      have hshort : track.width + 3 ≤ payload.length := by omega
      have hslice := Bytes.slice_eq_ok hshort (Nat.le_refl _)
      rw [hbehind, List.take_of_length_le (by omega)] at hslice
      simp only [List.head?_cons, hdata, ok_bind, hslice]
      rfl

namespace Event

theorem leafAt_eq {bytes : Bytes} (hbytes : bytes.length < maxInput) (id : ElementId)
    {start stop : Nat} (hle : start ≤ stop) (hstop : stop ≤ bytes.length) :
    leafAt bytes id start stop = .ok ((bytes.drop start).take (stop - start)) := by
  rw [leafAt, Bytes.slice_eq_ok hle hstop, ok_bind]
  by_cases hblock : id.isBlock = true
  · have hdata : ((bytes.drop start).take (stop - start)).length < maxInput := by
      rw [List.length_take, List.length_drop]
      omega
    rw [if_pos hblock, Block.readIn_eq hdata]
    rfl
  · rw [if_neg hblock]
    rfl

/-- The content found by addresses is that of the room left in the span. -/
theorem contentStop_eq (h : Header) {start stop : Nat} (hle : start ≤ stop)
    (hstop : stop < Address.limit) :
    h.contentStop start stop = start + h.contentLength (stop - start) := by
  rw [Header.contentStop, Header.contentLength]
  cases h.size with
  | none => exact (Nat.add_sub_cancel' hle).symm
  | some size =>
    rw [Option.elim_some, Option.elim_some, Address.addSaturating]
    omega

section

variable {bytes : Bytes} {pos stop : Nat} {h : Header} (hbytes : bytes.length < maxInput)
  (parent : ElementId) (depth : Nat) (hpos : pos < stop) (hstop : stop ≤ bytes.length)

include hbytes hpos hstop

theorem walkAt_of_error {reason : Stop}
    (hread : Header.read? (bytes.drop pos) = .error reason) :
    walkAt bytes parent depth pos stop = .ok [.stopped ⟨parent, pos, reason⟩] := by
  rw [walkAt, if_pos hpos, Header.readAt_eq hbytes (by omega), hread]
  rfl

theorem add_length (hread : Header.read? (bytes.drop pos) = .ok h) :
    ∃ hlt, Address.add pos h.length = .ok ⟨pos + h.length, rfl, hlt⟩ :=
  Address.add_of_lt (by omega) (Header.length_le hread).2

theorem walkAt_of_short (hread : Header.read? (bytes.drop pos) = .ok h)
    (hshort : stop < pos + h.length) :
    walkAt bytes parent depth pos stop = .ok [.stopped ⟨parent, pos, .badSize⟩] := by
  obtain ⟨_, hadd⟩ := add_length hbytes hpos hstop hread
  rw [walkAt, if_pos hpos, Header.readAt_eq hbytes (by omega), ok_bind, hread]
  simp only [hadd, ok_bind]
  rw [if_pos hshort]
  rfl

/-- One step with a header that fits: addresses and slices are as the size in it says. -/
theorem walkAt_of_fitting (hread : Header.read? (bytes.drop pos) = .ok h)
    (hlong : pos + h.length ≤ stop) {size : Nat}
    (hsize : h.contentLength (stop - (pos + h.length)) = size) :
    walkAt bytes parent depth pos stop
      = if h.id.isMaster then
          if maxDepth ≤ depth then .ok [.stopped ⟨parent, pos, .tooDeep⟩]
          else do
            let inner ← walkAt bytes h.id (depth + 1) (pos + h.length) (pos + h.length + size)
            let rest ← walkAt bytes parent depth (pos + h.length + size) stop
            return .enter h.id ⟨pos, h.length, size⟩ :: (inner ++ .leave h.id :: rest)
        else do
          let rest ← walkAt bytes parent depth (pos + h.length + size) stop
          return .leaf h.id ⟨pos, h.length, size⟩ ((bytes.drop (pos + h.length)).take size)
            :: rest := by
  obtain ⟨_, hadd⟩ := add_length hbytes hpos hstop hread
  have hlimit : stop < Address.limit := by
    rw [Address.limit]
    rw [maxInput] at hbytes
    omega
  have hnext := contentStop_eq h hlong hlimit
  have hle := h.contentLength_le (stop - (pos + h.length))
  rw [hsize] at hnext hle
  have hleaf := leafAt_eq hbytes h.id (Nat.le_add_right (pos + h.length) size) (by omega)
  rw [Nat.add_sub_cancel_left] at hleaf
  rw [walkAt, if_pos hpos, Header.readAt_eq hbytes (by omega), ok_bind, hread]
  simp only [hadd, ok_bind]
  rw [if_neg (Nat.not_lt.2 hlong), hnext, Nat.add_sub_cancel_left, hleaf]
  rfl

end

/-- No address overflows, no slice is out of range, and what is told is told of the same bytes. -/
theorem walkAt_eq_span {bytes : Bytes} (hbytes : bytes.length < maxInput) (parent : ElementId)
    (depth : Nat) {pos stop : Nat} (hpos : pos ≤ stop) (hstop : stop ≤ bytes.length) :
    walkAt bytes parent depth pos stop
      = .ok (span parent depth (bytes.drop pos) pos (stop - pos)) := by
  induction hroom : stop - pos using Nat.strongRecOn generalizing parent depth pos stop with
  | ind room ih =>
    by_cases hend : pos < stop
    · cases hread : Header.read? (bytes.drop pos) with
      | error reason =>
        rw [walkAt_of_error hbytes parent depth hend hstop hread, span_of_error (by omega) hread]
      | ok h =>
        have hpositive := h.length_pos
        by_cases hcut : stop < pos + h.length
        · rw [walkAt_of_short hbytes parent depth hend hstop hread hcut,
            span_of_short (by omega) hread (by omega)]
        · obtain ⟨size, hsize⟩ : ∃ size, h.contentLength (room - h.length) = size := ⟨_, rfl⟩
          have hle := h.contentLength_le (room - h.length)
          rw [hsize] at hle
          have hlength : h.contentLength (stop - (pos + h.length)) = size := by
            rw [← Nat.sub_sub, hroom, hsize]
          have hrest : walkAt bytes parent depth (pos + h.length + size) stop
              = .ok (span parent depth (((bytes.drop pos).drop h.length).drop size)
                (pos + h.length + size) (room - h.length - size)) := by
            rw [List.drop_drop, List.drop_drop, ← Nat.add_assoc]
            exact ih _ (by omega) parent depth (by omega) hstop (by omega)
          rw [walkAt_of_fitting hbytes parent depth hend hstop hread (by omega) hlength, hrest]
          by_cases hmaster : h.id.isMaster = true
          · rw [if_pos hmaster]
            by_cases hdeep : maxDepth ≤ depth
            · rw [if_pos hdeep, span_of_tooDeep hread (by omega) hmaster hdeep]
            · have hinner : walkAt bytes h.id (depth + 1) (pos + h.length) (pos + h.length + size)
                  = .ok (span h.id (depth + 1) ((bytes.drop pos).drop h.length) (pos + h.length)
                    size) := by
                rw [List.drop_drop]
                exact ih size (by omega) h.id (depth + 1) (by omega) (by omega) (by omega)
              rw [if_neg hdeep, hinner, ok_bind,
                span_of_master hread (by omega) hmaster (Nat.lt_of_not_le hdeep) hsize]
              rfl
          · rw [if_neg hmaster, ok_bind,
              span_of_leaf hread (by omega) (Bool.eq_false_iff.2 hmaster) hsize, ← List.drop_drop]
            rfl
    · have hdone : room = 0 := by omega
      rw [walkAt, if_neg hend, hdone, span_zero]
      rfl

end Event

/-- A machine reads every input that it can hold, and reads it as the recording that it is. -/
theorem Recording.readAt_eq (filter : Bool) {bytes : Bytes} (h : bytes.length < maxInput) :
    readAt filter bytes = .ok (ofBytes filter bytes) := by
  rw [readAt, Event.walkAt_eq_span h Event.root 0 (Nat.zero_le _) (Nat.le_refl _), ok_bind,
    List.drop_zero, Nat.sub_zero, ← Event.ofBytes_eq_span, ofBytes]
  rfl

end Transmux
