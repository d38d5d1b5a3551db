import Asm65.LabelTable

namespace Asm65

/-! Values of operands: literals, labels, and the range that each width allows. -/

/-- How many bytes a value has to fit in. -/
inductive Width where
  | byte
  | word
deriving DecidableEq, Repr

/-- The least number that does not fit. -/
def Width.limit : Width → Nat
  | byte => 0x100
  | word => 0x10000

/-- The value as a machine word, if it fits in the width. -/
def Width.fit (width : Width) (value : Nat) : Except Fault UInt16 :=
  if value < width.limit then .ok (UInt16.ofNat value)
  else .error (.valueOutOfRange value width.limit)

/-- The greatest number a literal stands for. It fits in no width. -/
def literalLimit : Nat := UInt64.size - 1

/-- A number with one more digit, if 64 bits hold it. -/
def appendDigit? (base total : UInt64) (c : Char) : Option UInt64 :=
  if total.toNat * base.toNat + digitValue c < UInt64.size then
    some (total * base + UInt64.ofNat (digitValue c))
  else none

/-- Reads digits from left to right. A number that 64 bits do not hold counts as the limit. -/
def readDigits (base : UInt64) (digits : Text) : Nat :=
  match digits.foldlM (appendDigit? base) 0 with
  | some number => number.toNat
  | none => literalLimit

/-- The number that a literal writes: hexadecimal digits after a dollar sign, or decimal
digits. -/
def literalValue? : Text → Option Nat
  | '$' :: digits =>
      if digits ≠ [] ∧ digits.all isHexDigit then some (readDigits 16 digits) else none
  | digits => if digits ≠ [] ∧ digits.all isDecimalDigit then some (readDigits 10 digits) else none

/-- The labels an operand may name. -/
inductive LabelView where
  /-- The labels bound so far; a name without an address stands for the current address. -/
  | growing (table : LabelTable)
  /-- All labels of the program. -/
  | complete (table : LabelTable)

/-- The value of an operand's text for an instruction at `here`. Literals come before labels. -/
def valueOf (text : Text) (width : Width) (view : LabelView) (here : UInt16) :
    Except Fault UInt16 :=
  match literalValue? text, view with
  | some value, _ => width.fit value
  | none, .growing table =>
      match table.get? text with
      | some address => width.fit address.toNat
      | none => .ok here
  | none, .complete table =>
      match table.get? text with
      | some address => width.fit address.toNat
      | none => .error (.unresolvedOperand text)

end Asm65
