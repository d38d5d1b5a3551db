import Asm65.Text.Blank

namespace Asm65

def isDecimalDigit (c : Char) : Bool :=
  '0' ≤ c && c ≤ '9'

def isHexDigit (c : Char) : Bool :=
  isDecimalDigit c || ('a' ≤ c && c ≤ 'f') || ('A' ≤ c && c ≤ 'F')

/-- What a digit stands for; a character that is no hexadecimal digit counts as zero. -/
def digitValue (c : Char) : Nat :=
  if isDecimalDigit c then c.toNat - '0'.toNat
  else if 'a' ≤ c && c ≤ 'f' then c.toNat - 'a'.toNat + 10
  else if 'A' ≤ c && c ≤ 'F' then c.toNat - 'A'.toNat + 10
  else 0

/-- The number that `digits` write in `base`, most significant digit first. -/
def positional (base : Nat) (digits : Text) : Nat :=
  digits.foldl (fun total c => total * base + digitValue c) 0

/-- The upper-case hexadecimal digit of the last four bits of `n`. -/
def hexDigit (n : Nat) : Char :=
  if n % 16 < 10 then Char.ofNat ('0'.toNat + n % 16) else Char.ofNat ('A'.toNat + (n % 16 - 10))

/-- A byte in two hexadecimal digits. -/
def hexByte (byte : UInt8) : Text :=
  [hexDigit (byte.toNat / 16), hexDigit byte.toNat]

/-- An address in four hexadecimal digits. -/
def hexWord (word : UInt16) : Text :=
  [hexDigit (word.toNat / 4096), hexDigit (word.toNat / 256), hexDigit (word.toNat / 16),
    hexDigit word.toNat]

/-- An address as messages, listings and source text write it: a dollar sign and four digits. -/
def dollarWord (word : UInt16) : Text :=
  '$' :: hexWord word

end Asm65
