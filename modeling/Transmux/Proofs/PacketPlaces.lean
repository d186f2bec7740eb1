import Mathlib.Data.List.Basic
import Transmux.Proofs.AudioTrack

/-! Packets by where their blocks lie in the input. -/

namespace Transmux

namespace Finding

/-- The packet of a block, if the block lies in this part of the input. -/
def frameWithin (start stop : Nat) : Finding → Option Bytes
  | .block place (.kept b) =>
    if start ≤ place.offset ∧ place.stop ≤ stop then some b.data else none
  | _ => none

end Finding

namespace Recording

/-- The packets of the blocks that lie in a part of the input. -/
def framesWithin (r : Recording) (start stop : Nat) : List Bytes :=
  r.findings.filterMap (Finding.frameWithin start stop)

end Recording

namespace Context

variable {filter : Bool} {c : Context} {start stop : Nat} {events : List Event}

theorem framesWithin_tells (h : Event.LeavesIn start stop events) :
    (c.tells filter events).filterMap (Finding.frameWithin start stop)
      = c.packets filter events := by
  refine List.filterMap_congr fun f hf => ?_
  cases f with
  | block place fate =>
    obtain ⟨hstart, -, hstop⟩ := h place (mem_leafPlaces_of_block hf)
    cases fate with
    | kept b => exact if_pos ⟨hstart, hstop⟩
    | _ => rfl
  | _ => rfl

theorem framesWithin_tells_outside {start' stop' : Nat} (h : Event.LeavesIn start' stop' events)
    (hout : stop' ≤ start ∨ stop ≤ start') :
    (c.tells filter events).filterMap (Finding.frameWithin start stop) = [] := by
  refine List.filterMap_eq_nil_iff.2 fun f hf => ?_
  cases f with
  | block place fate =>
    obtain ⟨hstart, hlt, hstop⟩ := h place (mem_leafPlaces_of_block hf)
    cases fate with
    | kept b => exact if_neg fun hwithin => by omega
    | _ => rfl
  | _ => rfl

end Context

namespace Recording

/-- A recording in three parts, the audio track being known after the first one. -/
theorem framesWithin_parts (filter : Bool) {front inner back : List Event}
    {start stop total n : Nat} (hle : start ≤ stop) (hfront : Event.LeavesIn 0 start front)
    (hinner : Event.LeavesIn start stop inner) (hback : Event.LeavesIn stop total back)
    (hknown : (({} : Context).afterAll front).audioTrack = some n) :
    let r := ofEvents filter (front ++ (inner ++ back))
    let known : Context := { audioTrack := some n }
    r.context.audioTrack = some n
      ∧ r.framesWithin 0 start = ({} : Context).packets filter front
      ∧ r.framesWithin start stop = known.packets filter inner
      ∧ r.framesWithin stop total = known.packets filter back
      ∧ r.frames = r.framesWithin 0 start ++ r.framesWithin start stop
        ++ r.framesWithin stop total := by
  intro r known
  have hlater := Context.audioTrack_afterAll_of_some hknown inner
  have hcontext : r.context = ((({} : Context).afterAll front).afterAll inner).afterAll back := by
    simp only [r, ofEvents_eq, Context.afterAll_append]
  have hfindings : r.findings = ({} : Context).tells filter front
      ++ ((({} : Context).afterAll front).tells filter inner
        ++ ((({} : Context).afterAll front).afterAll inner).tells filter back) := by
    simp only [r, ofEvents_eq, Context.tells_append]
  have hinnerPackets : (({} : Context).afterAll front).packets filter inner
      = known.packets filter inner := Context.packets_congr filter hknown rfl inner
  have hbackPackets : ((({} : Context).afterAll front).afterAll inner).packets filter back
      = known.packets filter back := Context.packets_congr filter hlater rfl back
  have hfirst : r.framesWithin 0 start = ({} : Context).packets filter front := by
    rw [framesWithin, hfindings, List.filterMap_append, List.filterMap_append,
      Context.framesWithin_tells hfront,
      Context.framesWithin_tells_outside hinner (Or.inr (Nat.le_refl _)),
      Context.framesWithin_tells_outside hback (Or.inr hle), List.append_nil, List.append_nil]
  have hsecond : r.framesWithin start stop = known.packets filter inner := by
    rw [framesWithin, hfindings, List.filterMap_append, List.filterMap_append,
      Context.framesWithin_tells hinner,
      Context.framesWithin_tells_outside hfront (Or.inl (Nat.le_refl _)),
      Context.framesWithin_tells_outside hback (Or.inr (Nat.le_refl _)), List.append_nil,
      List.nil_append, hinnerPackets]
  have hthird : r.framesWithin stop total = known.packets filter back := by
    rw [framesWithin, hfindings, List.filterMap_append, List.filterMap_append,
      Context.framesWithin_tells hback, Context.framesWithin_tells_outside hfront (Or.inl hle),
      Context.framesWithin_tells_outside hinner (Or.inl (Nat.le_refl _)), List.nil_append,
      List.nil_append, hbackPackets]
  refine ⟨?_, hfirst, hsecond, hthird, ?_⟩
  · rw [hcontext]
    exact Context.audioTrack_afterAll_of_some hlater back
  · rw [hfirst, hsecond, hthird, frames, hfindings, List.filterMap_append, List.filterMap_append,
      ← hinnerPackets, ← hbackPackets, List.append_assoc]
    rfl

end Recording

end Transmux
