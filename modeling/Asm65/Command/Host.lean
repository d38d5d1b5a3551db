import Asm65.Failure

namespace Asm65.Command

/-- What a command reaches of the system it runs on. -/
class Host (m : Type → Type) where
  readFile : Text → m (Except StorageError (List UInt8))
  readInput : m (Except StorageError (List UInt8))
  /-- Creates the file or replaces what it holds; a stream takes the bytes after what it has
  taken. A failure changes nothing. -/
  writeFile : Text → List UInt8 → m (Except StorageError Unit)
  /-- Prints to standard output. -/
  print : String → m Unit
  /-- Prints to standard error. -/
  report : String → m Unit

end Asm65.Command
