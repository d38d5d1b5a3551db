import Asm65.Machine.Opcode
import Asm65.Statement
import Asm65.Value

namespace Asm65

/-! The bytes of a single instruction. An operand in the zero page takes the short form of its
mode whenever the operation has one. -/

/-- The operation that `text` names. -/
def Mnemonic.parse (text : Text) : Except Fault Mnemonic :=
  match ofText? text with
  | some mnemonic => .ok mnemonic
  | none => .error (.unknownMnemonic text)

/-- The opcode of an operation in a mode that it supports. -/
def Mnemonic.opcode (mnemonic : Mnemonic) (mode : Mode) : Except Fault UInt8 :=
  match mnemonic.opcode? mode with
  | some opcode => .ok opcode
  | none => .error (.unsupportedMode mnemonic mode)

/-- The opcode of the one-byte form, where the operation has one and the value lies in the zero
page. -/
def Mnemonic.shortOpcode? (mnemonic : Mnemonic) (mode : Mode) (value : UInt16) :
    Option UInt8 :=
  if value.toNat < 0x100 then mode.shortForm?.bind mnemonic.opcode? else none

namespace Encoding

def lowByte (word : UInt16) : UInt8 := UInt8.ofNat word.toNat

def highByte (word : UInt16) : UInt8 := UInt8.ofNat (word.toNat / 0x100)

/-- An opcode with a two-byte operand, low byte first. -/
def withWord (opcode : UInt8) (value : UInt16) : List UInt8 :=
  [opcode, lowByte value, highByte value]

/-- An instruction that names a place directly, in its shortest form. -/
def direct (mnemonic : Mnemonic) (mode : Mode) (opcode : UInt8) (value : UInt16) : List UInt8 :=
  match mnemonic.shortOpcode? mode value with
  | some short => [short, lowByte value]
  | none => withWord opcode value

/-- How far `target` is from the byte after a branch at `here`. -/
def distance (target here : UInt16) : Int :=
  (target.toNat : Int) - (here.toNat + 2)

/-- A branch, whose operand is the distance as a signed byte. -/
def branch (opcode : UInt8) (target here : UInt16) : Except Fault (List UInt8) :=
  let away := distance target here
  if -128 ≤ away ∧ away ≤ 127 then .ok [opcode, UInt8.ofInt away]
  else .error (.branchOutOfRange target away)

end Encoding

open Encoding in
/-- The bytes of an instruction at `here`. Immediate values never come from labels. -/
def Instruction.encode (instruction : Instruction) (view : LabelView) (here : UInt16) :
    Except Fault (List UInt8) := do
  let mnemonic ← Mnemonic.parse instruction.mnemonic
  let mode := instruction.operand.mode
  let opcode ← mnemonic.opcode mode
  match instruction.operand with
  | .implied | .accumulator => return [opcode]
  | .immediate text =>
      let value ← valueOf text .byte (.complete .empty) here
      return [opcode, lowByte value]
  | .absolute text =>
      let value ← valueOf text .word view here
      if mnemonic.isBranch then branch opcode value here
      else return direct mnemonic mode opcode value
  | .indexed text _ =>
      let value ← valueOf text .word view here
      return direct mnemonic mode opcode value
  | .indirect text | .indexedIndirect text | .indirectIndexed text =>
      let value ← valueOf text .word view here
      return withWord opcode value

end Asm65
