namespace Asm65

/-- The addressing modes of the processor. A branch is written with an absolute target, so it
has no mode of its own. -/
inductive Mode where
  | implied
  | immediate
  | zeroPage
  | zeroPageX
  | absolute
  | absoluteX
  | absoluteY
  | indexedIndirect
  | indirectIndexed
  | accumulator
  | indirect
  | zeroPageY
deriving DecidableEq, Repr

namespace Mode

def all : List Mode :=
  [implied, immediate, zeroPage, zeroPageX, absolute, absoluteX, absoluteY, indexedIndirect,
    indirectIndexed, accumulator, indirect, zeroPageY]

def name : Mode → String
  | implied => "implied"
  | immediate => "immediate"
  | zeroPage => "zeropage"
  | zeroPageX => "zeropage,X"
  | absolute => "absolute"
  | absoluteX => "absolute,X"
  | absoluteY => "absolute,Y"
  | indexedIndirect => "indirect,X"
  | indirectIndexed => "indirect,Y"
  | accumulator => "accumulator"
  | indirect => "indirect"
  | zeroPageY => "zeropage,Y"

def ofName? (name : String) : Option Mode :=
  all.find? (·.name == name)

/-- The mode with a one-byte operand that reaches the same place when the address lies in the
zero page. -/
def shortForm? : Mode → Option Mode
  | absolute => some zeroPage
  | absoluteX => some zeroPageX
  | absoluteY => some zeroPageY
  | _ => none

end Mode

end Asm65
