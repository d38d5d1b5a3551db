import Asm65.Text.Digit
import Asm65.Machine.Mnemonic
import Asm65.Machine.Mode

namespace Asm65

/-- Why a line of source is refused. -/
inductive Fault where
  | unknownMnemonic (text : Text)
  | unsupportedMode (mnemonic : Mnemonic) (mode : Mode)
  /-- The operand is neither a literal nor a label that is in view. -/
  | unresolvedOperand (text : Text)
  /-- The value is not below `bound`. -/
  | valueOutOfRange (value bound : Nat)
  | duplicateLabel (name : Text)
  | unreadableLine (text : Text)
  /-- A branch target lies further away than a signed byte can say. -/
  | branchOutOfRange (target : UInt16) (distance : Int)
  /-- The two passes put a label at different addresses. -/
  | labelMoved (name : Text) (first second : UInt16)
deriving DecidableEq, Repr

private def quoted (text : Text) : String :=
  "`" ++ String.ofList text ++ "`"

private def address (word : UInt16) : String :=
  String.ofList (dollarWord word)

def Fault.message : Fault → String
  | unknownMnemonic text => s!"unknown op {quoted text}"
  | unsupportedMode mnemonic mode =>
      s!"mode {mode.name} is not valid for op {String.ofList mnemonic.name}"
  | unresolvedOperand text => s!"unable to parse {quoted text} as a number or label"
  | valueOutOfRange value bound => s!"number {value} must be smaller than {bound}"
  | duplicateLabel name => s!"label {quoted name} was defined more than once"
  | unreadableLine text => s!"could not parse line {quoted text}"
  | branchOutOfRange target distance =>
      s!"branch to {address target} is {distance} bytes away; can only branch within -128..=127"
  | labelMoved name first second =>
      s!"label {quoted name} moved from {address first} to {address second} between passes"

/-- A fault with the place it was found: the line's number, counted from one, and its text. -/
structure SourceError where
  line : Nat
  text : Text
  fault : Fault
deriving DecidableEq, Repr

def SourceError.message (error : SourceError) : String :=
  s!"line {error.line}: {error.fault.message} (in {quoted error.text})"

end Asm65
