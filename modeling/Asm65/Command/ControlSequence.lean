import Asm65.Text.Blank

namespace Asm65.Command

/-! Text without its terminal control sequences. Colours are such sequences, and so is anything
else that begins with an escape character; characters that print nothing are dropped too. -/

/-- Where a text stands in a control sequence. -/
inductive Control where
  /-- Outside every sequence. -/
  | ground
  /-- Right after an escape character. -/
  | escape
  /-- In a short sequence, before its last character. -/
  | intermediate
  /-- After an escape character and a bracket: parameters, up to a last character. -/
  | parameters
  /-- In a system command, which a bell ends. -/
  | command
  /-- At the start of a device string. -/
  | device
  /-- In the parameters of a device string. -/
  | deviceParameters
  /-- Behind the parameters of a device string, before its body. -/
  | deviceIntermediate
  /-- In the body of a string, which a string terminator ends. -/
  | body
deriving DecidableEq, Repr

namespace Control

def inRange (c : Char) (low high : Nat) : Bool :=
  low ≤ c.toNat && c.toNat ≤ high

/-- The string terminator is the byte `9C`, wherever it stands in a character's UTF-8 form. -/
def terminates (c : Char) : Bool :=
  (String.utf8EncodeChar c).contains 0x9C

/-- Where the text stands after a character of a sequence. An escape character starts anew, and
the two cancel characters end every sequence. -/
def next (control : Control) (c : Char) : Control :=
  if c.toNat = 0x1B then escape
  else if c.toNat = 0x18 ∨ c.toNat = 0x1A then ground
  else match control with
    | ground => ground
    | escape =>
        if inRange c 0x20 0x2F then intermediate
        else if c = '[' then parameters
        else if c = ']' then command
        else if c = 'P' then device
        else if c = 'X' ∨ c = '^' ∨ c = '_' then body
        else if inRange c 0x30 0x7E then ground
        else escape
    | intermediate => if inRange c 0x30 0x7E then ground else intermediate
    | parameters => if inRange c 0x40 0x7E then ground else parameters
    | command => if c.toNat = 0x07 then ground else command
    | device =>
        if inRange c 0x20 0x2F then deviceIntermediate
        else if inRange c 0x30 0x3F then deviceParameters
        else if inRange c 0x40 0x7E then body
        else device
    | deviceParameters =>
        if inRange c 0x20 0x2F then deviceIntermediate
        else if inRange c 0x3C 0x7E then body
        else deviceParameters
    | deviceIntermediate => if inRange c 0x30 0x7E then body else deviceIntermediate
    | body => if terminates c then ground else body

/-- Sequences that a tab or the end of a line interrupts. -/
def yields : Control → Bool
  | escape | intermediate | parameters => true
  | _ => false

end Control

/-- Tab, line feed, form feed and carriage return. -/
def isSpacing (c : Char) : Bool :=
  c == '\t' || c == '\n' || c == '\x0c' || c == '\r'

/-- Characters that print something or move to another place. -/
def isVisible (c : Char) : Bool :=
  isSpacing c || Control.inRange c 0x20 0x7E || 0x80 ≤ c.toNat

/-- The state of showing a text. -/
structure Showing where
  control : Control
  /-- Whether the sequence is interrupted: what is visible is shown, and the next character that
  is not visible goes on with the sequence. -/
  interrupted : Bool

namespace Showing

def start : Showing := { control := .ground, interrupted := false }

def shows (showing : Showing) (c : Char) : Bool :=
  if showing.control = .ground ∨ showing.interrupted then isVisible c
  else showing.control.yields && isSpacing c

def after (showing : Showing) (c : Char) : Showing :=
  if showing.shows c then
    { control := if 0x80 ≤ c.toNat then .ground else showing.control, interrupted := true }
  else { control := showing.control.next c, interrupted := false }

/-- What is shown of a text. -/
def filter (showing : Showing) : Text → Text
  | [] => []
  | c :: rest =>
      if showing.shows c then c :: (showing.after c).filter rest
      else (showing.after c).filter rest

end Showing

/-- The text without control sequences. -/
def plainText (text : String) : String :=
  String.ofList (Showing.start.filter text.toList)

end Asm65.Command
