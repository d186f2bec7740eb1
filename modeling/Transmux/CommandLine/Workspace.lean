import Transmux.CommandLine.Host
import Transmux.File.Device
import Transmux.File.Path
import Transmux.Text.Utf8

/-! A host that is a value: a tree of files below a working directory, the devices of a machine, the
standard streams, each of which may fail, and the log. -/

namespace Transmux

/-- The names that lead from the working directory to a file. Two points at the front lead out of
it, a slash leads to the root. -/
abbrev Trail := List String

structure Workspace where
  files : List (Trail × Bytes) := []
  input : Bytes := []
  output : Bytes := []
  errors : Bytes := []
  /-- Why a standard stream fails, if it does. -/
  inputFailure : Option FileError := none
  outputFailure : Option FileError := none
  errorsFailure : Option FileError := none
  notices : List Notice := []
  /-- The number that is drawn when one is asked for. -/
  drawn : Except String UInt32 := .ok 0

namespace Workspace

def device? : Trail → Option Device
  | ["/", "dev", name] => Device.ofName? name
  | _ => none

def file? (w : Workspace) (t : Trail) : Option Bytes :=
  w.files.lookup t

/-- Whether something that is no directory is there. -/
def isFile (w : Workspace) (t : Trail) : Bool :=
  (device? t).isSome || (w.file? t).isSome

/-- Directories that every machine has at its root. -/
def rootDirectories : List String :=
  ["bin", "boot", "dev", "etc", "home", "lib", "media", "mnt", "opt", "root", "run", "sbin", "srv",
    "tmp", "usr", "var"]

/-- Directories are where files are, the working directory, those above it, and the root with what
it always holds. -/
def isDirectory (w : Workspace) (t : Trail) : Bool :=
  t.all (· == "..") || t == ["/"] || rootDirectories.any (fun name => t == ["/", name])
    || w.files.any fun (u, _) => t.isPrefixOf u && t.length < u.length

/-- The directory above one. The root is above itself. -/
def parent (t : Trail) : Trail :=
  if t = ["/"] then t else if t.all (· == "..") then t ++ [".."] else t.dropLast

/-- Follows one name from a directory. -/
def enter (here : Trail) (name : String) : Except FileError Trail :=
  if name = ".." then .ok (parent here)
  else if 255 < (Utf8.encode name).length then .error .nameTooLong
  else .ok (here ++ [name])

/-- Follows names from a directory, each of which has to lead to a directory. -/
def walk (w : Workspace) (here : Trail) (names : List String) : Except FileError Trail :=
  names.foldlM
    (fun here name => do
      let there ← enter here name
      if w.isDirectory there then .ok there
      else .error (if w.isFile there then .notDirectory else .notFound))
    here

/-- A path as the directory where it starts and the names in it. -/
def start (path : String) : Except FileError (Trail × List String) :=
  let pieces := FilePath.pieces path.toList
  let names := (pieces.filter FilePath.isStep).map String.ofList
  if path.toList.contains (Char.ofNat 0) then .error .zeroInName
  else if path = "" then .error .notFound
  else if 4096 ≤ (Utf8.encode path).length then .error .nameTooLong
  else .ok (if pieces.head? = some [] then ["/"] else [], names)

/-- Whether a path ends with a slash or a single point. -/
def endsAtDirectory (path : String) : Bool :=
  !(FilePath.pieces path.toList).getLast?.any FilePath.isStep

/-- All that can be read from a device. -/
def receive (w : Workspace) : Device → Except FileError Bytes
  | .input => w.inputFailure.elim (.ok w.input) .error
  | .sink | .output | .errors => .ok []
  | .spring | .full => .error .outOfMemory
  | .terminal => .error .noDevice

/-- What is read at a place that is no directory. -/
def content (w : Workspace) (t : Trail) : Except FileError Bytes :=
  match device? t with
  | some d => w.receive d
  | none => (w.file? t).elim (.error .notFound) .ok

def readFile (w : Workspace) (path : String) : Except FileError Bytes := do
  let (here, names) ← start path
  let here ← w.walk here names.dropLast
  let t ← names.getLast?.elim (.ok here) (enter here)
  if w.isDirectory t then .error .isDirectory
  else if w.isFile t && endsAtDirectory path then .error .notDirectory
  else w.content t

/-- Why a device does not take data. Nothing is more than one takes that fails. -/
def refusal? (w : Workspace) (data : Bytes) : Device → Option FileError
  | .sink | .spring | .input => none
  | .full => if data.isEmpty then none else some .noRoom
  | .terminal => some .noDevice
  | .output => if data.isEmpty then none else w.outputFailure
  | .errors => if data.isEmpty then none else w.errorsFailure

/-- The workspace after a device took data. -/
def passed (w : Workspace) (data : Bytes) : Device → Workspace
  | .output => { w with output := w.output ++ data }
  | .errors => { w with errors := w.errors ++ data }
  | _ => w

/-- Writes to a device. -/
def send (w : Workspace) (data : Bytes) (d : Device) : Except FileError Workspace :=
  (w.refusal? data d).elim (.ok (w.passed data d)) .error

/-- Whether data waits in front of the standard output: it is short and ends no line. -/
def waits (data : Bytes) : Bool :=
  data.length < 1024 && !data.contains 0x0A

/-- Puts data in place of what a file holds, or makes a new file. -/
def put (w : Workspace) (t : Trail) (data : Bytes) : Workspace :=
  if (w.file? t).isSome then
    { w with files := w.files.map fun (u, old) => if u = t then (u, data) else (u, old) }
  else { w with files := w.files ++ [(t, data)] }

/-- Writes a file, which is made if there is none. A path that ends like a directory does is one,
whatever is there; only a point at its end has to follow a directory. -/
def writeFile (w : Workspace) (path : String) (data : Bytes) : Except FileError Workspace := do
  let (here, names) ← start path
  let last := (FilePath.pieces path.toList).reverse.dropWhile (· = []) |>.head?
  if last = some ['.'] then
    let _ ← w.walk here names
    .error .isDirectory
  else
    let here ← w.walk here names.dropLast
    if endsAtDirectory path then .error .isDirectory
    else
      let t ← names.getLast?.elim (.ok here) (enter here)
      if w.isDirectory t then .error .isDirectory
      else (device? t).elim (.ok (w.put t data)) (w.send data)

instance : Host (StateM Workspace) where
  readFile path := do return (← get).readFile path
  writeFile path data := do
    match (← get).writeFile path data with
    | .ok w => set w; return .ok ()
    | .error e => return .error e
  readInput := do return (← get).receive .input
  writeOutput data := do
    match (← get).send data .output with
    | .ok w => set w; return .ok ()
    | .error e => return .error (if waits data then .unflushed e else .unwritten e)
  tell line := do
    match (← get).send (Utf8.encode (line ++ "\n")) .errors with
    | .ok w => set w; return .ok ()
    | .error e => return .error e
  note n := modify fun w => { w with notices := w.notices ++ [n] }
  drawSerial := do return (← get).drawn

end Workspace

end Transmux
