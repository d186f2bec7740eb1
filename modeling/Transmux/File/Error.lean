/-! What the machine says of files that cannot be used. -/

namespace Transmux

/-- Why a file could not be read or written. -/
inductive FileError where
  | notFound
  | notDirectory
  | isDirectory
  | nameTooLong
  | permissionDenied
  | noRoom
  | noDevice
  /-- More was read than can be held. -/
  | outOfMemory
  | zeroInName
  | other (message : String)
deriving DecidableEq

/-- What an error of the system says, and its number. -/
def FileError.systemText (what : String) (number : Nat) : String :=
  what ++ " (os error " ++ toString number ++ ")"

def FileError.message : FileError → String
  | notFound => systemText "No such file or directory" 2
  | notDirectory => systemText "Not a directory" 20
  | isDirectory => systemText "Is a directory" 21
  | nameTooLong => systemText "File name too long" 36
  | permissionDenied => systemText "Permission denied" 13
  | noRoom => systemText "No space left on device" 28
  | noDevice => systemText "No such device or address" 6
  | outOfMemory => "out of memory"
  | zeroInName => "file name contained an unexpected NUL byte"
  | other message => message

end Transmux
