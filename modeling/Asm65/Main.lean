import Asm65.Command.Run

namespace Asm65.Command

/-- The number of an error of the operating system, which may come negated. -/
def errorNumber (code : UInt32) : Nat :=
  min code.toNat (UInt32.size - code.toNat)

/-- The cause behind an error of the operating system. -/
def causeOf (error : IO.Error) : StorageError :=
  match error with
  | .noFileOrDirectory .. => .notFound
  | .noSuchThing _ code _ =>
      if errorNumber code = 6 then .noDevice else .other (toString error)
  | .permissionDenied _ code _ =>
      if errorNumber code = 13 then .notPermitted else .other (toString error)
  | .inappropriateType _ code _ =>
      if errorNumber code = 20 then .notDirectory else .isDirectory
  | .invalidArgument _ code _ =>
      if errorNumber code = 36 then .nameTooLong else .other (toString error)
  | .resourceExhausted _ code _ =>
      if errorNumber code = 28 then .noSpace else .other (toString error)
  | error => .other (toString error)

def attempt {α : Type} (action : IO α) : IO (Except StorageError α) := do
  try return .ok (← action)
  catch error => return .error (causeOf error)

partial def readAll (stream : IO.FS.Stream) (taken : ByteArray) : IO ByteArray := do
  let chunk ← stream.read 65536
  if chunk.isEmpty then return taken else readAll stream (taken ++ chunk)

instance : Host IO where
  readFile path := attempt do return (← IO.FS.readBinFile (String.ofList path)).data.toList
  readInput := attempt do return (← readAll (← IO.getStdin) .empty).data.toList
  writeFile path content := attempt (IO.FS.writeBinFile (String.ofList path) content.toByteArray)
  print text := do
    let output ← IO.getStdout
    output.putStr text
    output.flush
  report text := do (← IO.getStderr).putStr text

end Asm65.Command

/-- The command line. -/
def main (arguments : List String) : IO UInt32 := do
  return (← Asm65.Command.run (arguments.map String.toList) : UInt8).toUInt32
