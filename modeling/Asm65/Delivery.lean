import Asm65.Failure

namespace Asm65

/-- A text as bytes, in UTF-8. -/
def Text.toBytes (text : Text) : List UInt8 :=
  (String.ofList text).toUTF8.data.toList

/-- The text that bytes write in UTF-8. -/
def Text.ofBytes (bytes : List UInt8) : Except StorageError Text :=
  match String.fromUTF8? bytes.toByteArray with
  | some text => .ok text.toList
  | none => .error .invalidText

/-- What a medium took of the bytes it was given. -/
structure Delivery where
  taken : List UInt8
  outcome : Except StorageError Unit

/-- Writes to a medium with room for `room` bytes, or for any number. It takes what fits, and is
full when more is left. -/
def deliver (room : Option Nat) (bytes : List UInt8) : Delivery :=
  match room with
  | none => { taken := bytes, outcome := .ok () }
  | some limit => {
      taken := bytes.take limit
      outcome := if bytes.length ≤ limit then .ok () else .error .diskFull }

end Asm65
