import Transmux.Recording.Finding
import Transmux.Options.Basic
import Transmux.Text.Quoted

/-! The log: what a conversion makes known while it runs, as facts, and how each fact reads. -/

namespace Transmux

inductive Level where
  | warn
  | debug
  | trace
deriving DecidableEq

def Level.name : Level → String
  | warn => "WARN"
  | debug => "DEBUG"
  | trace => "TRACE"

/-- Whether a log shows facts of a level. -/
def Level.isShown (verbose : Bool) : Level → Bool
  | warn => true
  | debug => verbose
  | trace => false

/-- A fact as it reads in the log. -/
structure LogEntry where
  level : Level
  message : String
  fields : List (String × String)
deriving DecidableEq

def LogEntry.line (e : LogEntry) : String :=
  e.level.name ++ " " ++ e.message
    ++ String.join (e.fields.map fun (name, value) => " " ++ name ++ "=" ++ value)

inductive Notice where
  | stopped (issue : Issue)
  | selected (number : Nat) (codec : Option String)
  | skippedBlock (track offset : Nat)
  | lacedBlock (mode : LacingMode) (offset : Nat)
  | passedThrough (length : Nat)
  | recordingRead (channels sampleRate preSkip serial frames : Nat)
  | pageWritten (sequence packets granule : Nat)
  | written (pages granule bytes : Nat)
  | converting (input output : String) (bytes : Nat) (options : Options)
  | converted (unchanged : Bool) (pages granule : Nat)
  | inspected (input : String) (pages : Nat) (remuxed : Bool)
deriving DecidableEq

namespace Notice

/-- The findings that the log tells. -/
def ofFinding? : Finding → Option Notice
  | .issue i => some (.stopped i)
  | .selected n codec => some (.selected n codec)
  | .track _ => none
  | .block place (.skipped b) => some (.skippedBlock b.track place.contentOffset)
  | .block place (.kept b) | .block place (.empty b) =>
    if b.lacing = .none then none else some (.lacedBlock b.lacing place.contentOffset)
  | .block _ .undecodable => none

def level : Notice → Level
  | stopped _ | lacedBlock _ _ => .warn
  | pageWritten _ _ _ => .trace
  | _ => .debug

def message : Notice → String
  | stopped i => "webm: " ++ i.reason.message ++ ", stopping span early"
  | selected _ _ => "webm: resolved audio track"
  | skippedBlock _ _ => "webm: skipping block of non-audio track"
  | lacedBlock _ _ => "webm: laced SimpleBlock detected, unsupported"
  | passedThrough _ => "remux: input is already Ogg, passing through"
  | recordingRead _ _ _ _ _ => "remux: parsed webm"
  | pageWritten _ _ _ => "remux: page"
  | written _ _ _ => "remux: done"
  | converting _ _ _ _ => "convert: remuxing"
  | converted _ _ _ => "convert: done"
  | inspected _ _ _ => "inspect: read"

def boolText (b : Bool) : String :=
  if b then "true" else "false"

/-- An optional value as the log shows it. -/
def optionText (value : Option String) : String :=
  value.elim "None" fun s => "Some(" ++ s ++ ")"

def policyText : ParsePolicy → String
  | .lenient => "Lenient"
  | .strict => "Strict"

def optionsText (o : Options) : String :=
  "RemuxOptions \x7b max_packets_per_page: " ++ toString o.maxPacketsPerPage
    ++ ", max_segments_per_page: " ++ toString o.maxSegmentsPerPage
    ++ ", default_pre_skip: " ++ toString o.defaultPreSkip.toNat
    ++ ", vendor: " ++ Text.quoted o.vendor
    ++ ", serial: " ++ optionText (o.serial.map fun n => toString n.toNat)
    ++ ", parse_policy: " ++ policyText o.parsePolicy
    ++ ", filter_audio_track: " ++ boolText o.filterAudioTrack ++ " \x7d"

def fields : Notice → List (String × String)
  | stopped i => [("parent", i.parent.name), ("offset", toString i.offset)]
  | selected n codec =>
    [("track", toString n), ("codec", optionText (codec.map Text.quoted))]
  | skippedBlock track offset => [("track", toString track), ("offset", toString offset)]
  | lacedBlock mode offset => [("lacing", mode.name), ("offset", toString offset)]
  | passedThrough n => [("len", toString n)]
  | recordingRead channels sampleRate preSkip serial frames =>
    [("channels", toString channels), ("sample_rate", toString sampleRate),
      ("pre_skip", toString preSkip), ("serial", toString serial), ("frames", toString frames)]
  | pageWritten sequence packets granule =>
    [("sequence", toString sequence), ("packets", toString packets), ("granule", toString granule)]
  | written pages granule bytes =>
    [("pages", toString pages), ("granule", toString granule), ("bytes", toString bytes)]
  | converting input output bytes options =>
    [("input", input), ("output", output), ("bytes", toString bytes),
      ("options", optionsText options)]
  | converted unchanged pages granule =>
    [("pass_through", boolText unchanged), ("pages", toString pages),
      ("granule", toString granule)]
  | inspected input pages remuxed =>
    [("input", input), ("pages", toString pages), ("remuxed", boolText remuxed)]

def entry (n : Notice) : LogEntry :=
  ⟨n.level, n.message, n.fields⟩

end Notice

end Transmux
