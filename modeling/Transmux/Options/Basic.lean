/-! The options of a conversion and the page limits that follow from them. -/

namespace Transmux

/-- What to do with a recording whose walk was stopped somewhere. -/
inductive ParsePolicy where
  /-- Keep whatever was found. -/
  | lenient
  /-- Give up. -/
  | strict
deriving DecidableEq

namespace ParsePolicy

def name : ParsePolicy → String
  | lenient => "lenient"
  | strict => "strict"

def ofName? (name : String) : Option ParsePolicy :=
  if name = "lenient" then some lenient else if name = "strict" then some strict else none

end ParsePolicy

structure Options where
  maxPacketsPerPage : Nat := 50
  maxSegmentsPerPage : Nat := 255
  /-- Used when the recording has no identification header. -/
  defaultPreSkip : UInt16 := 312
  vendor : String := "giztoy-remux"
  /-- Without a serial one is drawn at random. -/
  serial : Option UInt32 := none
  parsePolicy : ParsePolicy := .lenient
  filterAudioTrack : Bool := true
deriving DecidableEq

/-- How much may share a page. A packet that is alone on its page is exempt from the second. -/
structure Limits where
  packets : Nat
  segments : Nat
deriving DecidableEq

/-- At least one packet, and from 1 to 255 segments. -/
def Options.limits (o : Options) : Limits :=
  ⟨max 1 o.maxPacketsPerPage, min 255 (max 1 o.maxSegmentsPerPage)⟩

@[simp]
theorem Options.limits_packets (o : Options) : o.limits.packets = max 1 o.maxPacketsPerPage := rfl

@[simp]
theorem Options.limits_segments (o : Options) :
    o.limits.segments = min 255 (max 1 o.maxSegmentsPerPage) := rfl

example : (⟨0, 0, 312, "", none, .lenient, true⟩ : Options).limits = ⟨1, 1⟩ := rfl

example : (⟨7, 256, 312, "", none, .lenient, true⟩ : Options).limits = ⟨7, 255⟩ := rfl

end Transmux
