/-! File paths as text: names between slashes, and what may follow the last point of a name. -/

namespace Transmux.FilePath

/-- The pieces between slashes, of which there is at least one. -/
def pieces : List Char → List (List Char)
  | [] => [[]]
  | c :: rest =>
    if c = '/' then [] :: pieces rest
    else
      match pieces rest with
      | [] => [[c]]
      | p :: ps => (c :: p) :: ps

/-- Whether a piece says where to go: nothing and a single point do not. -/
def isStep (piece : List Char) : Bool :=
  piece != [] && piece != ['.']

/-- What a path says piece by piece: a slash if it starts at the root, a single point only at its
front, and its names. Paths that differ otherwise lead to the same place in the same way. -/
def steps (path : String) : List (List Char) :=
  match pieces path.toList with
  | [] :: p :: rest => ['/'] :: (p :: rest).filter isStep
  | ['.'] :: rest => ['.'] :: rest.filter isStep
  | ps => ps.filter isStep

/-- The last name, unless it only points to a directory. -/
def fileName? (path : String) : Option (List Char) :=
  (steps path).getLast?.filter fun s => !([['/'], ['.'], ['.', '.']].contains s)

/-- A name up to its last point, and what follows that. A point at the front does not count. -/
def splitName (name : List Char) : List Char × Option (List Char) :=
  let ending := (name.reverse.takeWhile (· ≠ '.')).reverse
  let stem := name.take (name.length - ending.length - 1)
  if ending.length = name.length ∨ stem = [] then (name, none) else (stem, some ending)

/-- What follows the last point of the last name. -/
def extension? (path : String) : Option String :=
  (fileName? path).bind fun name => (splitName name).2.map String.ofList

/-- Leaves out the slashes and single points in front of a path that is read backwards. -/
def dropEmptySteps : List Char → List Char
  | '/' :: rest => dropEmptySteps rest
  | '.' :: '/' :: rest => dropEmptySteps rest
  | rest => rest

/-- Puts another extension after the name of a path that has none, or whose last letters have been
taken away. A path without a file name stays as it is. -/
def addExtension (path extension : String) : String :=
  match fileName? path with
  | none => path
  | some name =>
    let backwards := dropEmptySteps path.toList.reverse
    let stem := (backwards.drop (name.length - (splitName name).1.length)).reverse
    String.ofList stem ++ "." ++ extension

/-- Puts another extension in place of that of the last name, or after it if it has none. The old
one goes first, and a path that has no file name without it stays like that. -/
def withExtension (path extension : String) : String :=
  let old := (extension? path).getD ""
  addExtension (String.ofList (path.toList.take (path.length - old.length))) extension

end Transmux.FilePath
