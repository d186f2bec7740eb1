import Transmux.Ebml.Vint

/-! The elements of a recording that matter here: their ids, their names, and which of them hold
other elements. -/

namespace Transmux

inductive Element where
  | ebml | segment | info | tracks | trackEntry | trackNumber | trackType | codecId | codecPrivate
  | audio | samplingFrequency | channels | cluster | timecode | simpleBlock | blockGroup | block
deriving DecidableEq

namespace Element

def id : Element → ElementId
  | ebml => 0x1A45DFA3
  | segment => 0x18538067
  | info => 0x1549A966
  | tracks => 0x1654AE6B
  | trackEntry => 0xAE
  | trackNumber => 0xD7
  | trackType => 0x83
  | codecId => 0x86
  | codecPrivate => 0x63A2
  | audio => 0xE1
  | samplingFrequency => 0xB5
  | channels => 0x9F
  | cluster => 0x1F43B675
  | timecode => 0xE7
  | simpleBlock => 0xA3
  | blockGroup => 0xA0
  | block => 0xA1

def name : Element → String
  | ebml => "EBML"
  | segment => "Segment"
  | info => "Info"
  | tracks => "Tracks"
  | trackEntry => "TrackEntry"
  | trackNumber => "TrackNumber"
  | trackType => "TrackType"
  | codecId => "CodecID"
  | codecPrivate => "CodecPrivate"
  | audio => "Audio"
  | samplingFrequency => "SamplingFrequency"
  | channels => "Channels"
  | cluster => "Cluster"
  | timecode => "Timecode"
  | simpleBlock => "SimpleBlock"
  | blockGroup => "BlockGroup"
  | block => "Block"

/-- Masters hold other elements. -/
def isMaster : Element → Bool
  | ebml | segment | info | tracks | trackEntry | audio | cluster | blockGroup => true
  | _ => false

def all : List Element :=
  [ebml, segment, info, tracks, trackEntry, trackNumber, trackType, codecId, codecPrivate, audio,
    samplingFrequency, channels, cluster, timecode, simpleBlock, blockGroup, block]

def ofId? (id : ElementId) : Option Element :=
  all.find? fun e => e.id == id

@[simp] theorem ofId?_id (e : Element) : ofId? e.id = some e := by
  cases e <;> rfl

theorem id_of_ofId? {id : ElementId} {e : Element} (h : ofId? id = some e) : e.id = id := by
  simpa using List.find?_some h

end Element

namespace ElementId

def name (id : ElementId) : String :=
  (Element.ofId? id).elim "Unknown" Element.name

def isMaster (id : ElementId) : Bool :=
  (Element.ofId? id).any Element.isMaster

end ElementId

end Transmux
