import Asm65.Text.Digit

namespace Asm65.Command

/-- Why a text is no address. -/
inductive AddressError where
  | empty
  | badDigit
  | tooLarge
deriving DecidableEq, Repr

def AddressError.message : AddressError → String
  | empty => "cannot parse integer from empty string"
  | badDigit => "invalid digit found in string"
  | tooLarge => "number too large to fit in target type"

/-- The number written so far, with one more digit. Whichever comes first, a character that is
no digit or a number that no address holds, decides how reading fails. -/
def appendDigit (isDigit : Char → Bool) (base total : Nat) (c : Char) : Except AddressError Nat :=
  if !isDigit c then .error .badDigit
  else if total * base + digitValue c < 0x10000 then .ok (total * base + digitValue c)
  else .error .tooLarge

/-- Digits with at most one plus sign before them. -/
def readNumber (isDigit : Char → Bool) (base : Nat) : Text → Except AddressError UInt16
  | [] => .error .empty
  | ['+'] => .error .badDigit
  | '+' :: digits => (digits.foldlM (appendDigit isDigit base) 0).map UInt16.ofNat
  | digits => (digits.foldlM (appendDigit isDigit base) 0).map UInt16.ofNat

/-- An address in an argument: hexadecimal after a dollar sign or a zero and an x, decimal
otherwise. -/
def readAddress : Text → Except AddressError UInt16
  | '$' :: digits => readNumber isHexDigit 16 digits
  | '0' :: 'x' :: digits => readNumber isHexDigit 16 digits
  | '0' :: 'X' :: digits => readNumber isHexDigit 16 digits
  | digits => readNumber isDecimalDigit 10 digits

end Asm65.Command
