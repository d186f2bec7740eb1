import Transmux.Options.Basic

/-! Options as fields of a data file. Every field may be left out and keeps its default then; other
fields are ignored; a field that stands twice is refused. -/

namespace Transmux

/-- How the values of a data format read as the values of options. -/
structure OptionValues (α : Type) where
  /-- A whole number below a bound. -/
  whole : (bound : Nat) → α → Option Nat
  text : α → Option String
  flag : α → Option Bool
  policy : α → Option ParsePolicy
  /-- Whether there is something in a place where nothing may be. -/
  isPresent : α → Option Bool

namespace Options

/-- The fields in the order in which a plain list gives them. -/
def fieldNames : List String :=
  ["max_packets_per_page", "max_segments_per_page", "default_pre_skip", "vendor", "serial",
    "parse_policy", "filter_audio_track"]

variable {α : Type}

/-- Sets one field. -/
def set (v : OptionValues α) (o : Options) (field : String × α) : Option Options :=
  let (name, value) := field
  if name = "max_packets_per_page" then
    (v.whole UInt64.size value).map fun n => { o with maxPacketsPerPage := n }
  else if name = "max_segments_per_page" then
    (v.whole UInt64.size value).map fun n => { o with maxSegmentsPerPage := n }
  else if name = "default_pre_skip" then
    (v.whole UInt16.size value).map fun n => { o with defaultPreSkip := UInt16.ofNat n }
  else if name = "vendor" then (v.text value).map fun s => { o with vendor := s }
  else if name = "serial" then do
    if ← v.isPresent value then
      (v.whole UInt32.size value).map fun n => { o with serial := some (UInt32.ofNat n) }
    else some { o with serial := none }
  else if name = "parse_policy" then (v.policy value).map fun p => { o with parsePolicy := p }
  else if name = "filter_audio_track" then
    (v.flag value).map fun b => { o with filterAudioTrack := b }
  else some o

def ofFields? (v : OptionValues α) (fields : List (String × α)) : Option Options :=
  let known := (fields.map Prod.fst).filter fieldNames.contains
  if known.eraseDups.length < known.length then none else fields.foldlM (set v) {}

/-- Values alone, in the order of the fields. -/
def ofList? (v : OptionValues α) (values : List α) : Option Options :=
  if fieldNames.length < values.length then none else ofFields? v (fieldNames.zip values)

end Options

end Transmux
