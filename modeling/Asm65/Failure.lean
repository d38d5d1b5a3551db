import Asm65.Fault

namespace Asm65

/-- Why a file or a medium did not serve. -/
inductive StorageError where
  | notFound
  | noDevice
  | notPermitted
  | notDirectory
  | isDirectory
  | nameTooLong
  | noSpace
  | invalidText
  | diskFull
  | other (message : String)
deriving DecidableEq, Repr

def StorageError.message : StorageError → String
  | notFound => "No such file or directory (os error 2)"
  | noDevice => "No such device or address (os error 6)"
  | notPermitted => "Permission denied (os error 13)"
  | notDirectory => "Not a directory (os error 20)"
  | isDirectory => "Is a directory (os error 21)"
  | nameTooLong => "File name too long (os error 36)"
  | noSpace => "No space left on device (os error 28)"
  | invalidText => "stream did not contain valid UTF-8"
  | diskFull => "disk full"
  | other message => message

/-- Why a run gives no image: its source is refused, or a file does not serve. -/
inductive Failure where
  | source (error : SourceError)
  | storage (error : StorageError)
deriving DecidableEq, Repr

def Failure.message : Failure → String
  | source error => error.message
  | storage error => s!"IO error: {error.message}"

/-- The source line of a failure that has one. -/
def Failure.line? : Failure → Option Nat
  | source error => some error.line
  | storage _ => none

end Asm65
