import Asm65.Text.Blank

namespace Asm65

/-- The operations of the processor. -/
inductive Mnemonic where
  | adc | and | asl | bit | bpl | bmi | bvc | bvs
  | bcc | bcs | bne | beq | brk | cmp | cpx | cpy
  | dec | eor | clc | sec | cli | sei | clv | cld
  | sed | inc | jmp | jsr | lda | ldx | ldy | lsr
  | nop | ora | tax | txa | dex | inx | tay | tya
  | dey | iny | rol | ror | rti | rts | sbc | sta
  | txs | tsx | pha | pla | php | plp | stx | sty
deriving DecidableEq, Repr

namespace Mnemonic

def all : List Mnemonic :=
  [adc, and, asl, bit, bpl, bmi, bvc, bvs, bcc, bcs, bne, beq, brk, cmp, cpx, cpy, dec, eor, clc,
    sec, cli, sei, clv, cld, sed, inc, jmp, jsr, lda, ldx, ldy, lsr, nop, ora, tax, txa, dex, inx,
    tay, tya, dey, iny, rol, ror, rti, rts, sbc, sta, txs, tsx, pha, pla, php, plp, stx, sty]

/-- The upper-case name, always three letters. -/
def name : Mnemonic → Text
  | adc => ['A', 'D', 'C']
  | and => ['A', 'N', 'D']
  | asl => ['A', 'S', 'L']
  | bit => ['B', 'I', 'T']
  | bpl => ['B', 'P', 'L']
  | bmi => ['B', 'M', 'I']
  | bvc => ['B', 'V', 'C']
  | bvs => ['B', 'V', 'S']
  | bcc => ['B', 'C', 'C']
  | bcs => ['B', 'C', 'S']
  | bne => ['B', 'N', 'E']
  | beq => ['B', 'E', 'Q']
  | brk => ['B', 'R', 'K']
  | cmp => ['C', 'M', 'P']
  | cpx => ['C', 'P', 'X']
  | cpy => ['C', 'P', 'Y']
  | dec => ['D', 'E', 'C']
  | eor => ['E', 'O', 'R']
  | clc => ['C', 'L', 'C']
  | sec => ['S', 'E', 'C']
  | cli => ['C', 'L', 'I']
  | sei => ['S', 'E', 'I']
  | clv => ['C', 'L', 'V']
  | cld => ['C', 'L', 'D']
  | sed => ['S', 'E', 'D']
  | inc => ['I', 'N', 'C']
  | jmp => ['J', 'M', 'P']
  | jsr => ['J', 'S', 'R']
  | lda => ['L', 'D', 'A']
  | ldx => ['L', 'D', 'X']
  | ldy => ['L', 'D', 'Y']
  | lsr => ['L', 'S', 'R']
  | nop => ['N', 'O', 'P']
  | ora => ['O', 'R', 'A']
  | tax => ['T', 'A', 'X']
  | txa => ['T', 'X', 'A']
  | dex => ['D', 'E', 'X']
  | inx => ['I', 'N', 'X']
  | tay => ['T', 'A', 'Y']
  | tya => ['T', 'Y', 'A']
  | dey => ['D', 'E', 'Y']
  | iny => ['I', 'N', 'Y']
  | rol => ['R', 'O', 'L']
  | ror => ['R', 'O', 'R']
  | rti => ['R', 'T', 'I']
  | rts => ['R', 'T', 'S']
  | sbc => ['S', 'B', 'C']
  | sta => ['S', 'T', 'A']
  | txs => ['T', 'X', 'S']
  | tsx => ['T', 'S', 'X']
  | pha => ['P', 'H', 'A']
  | pla => ['P', 'L', 'A']
  | php => ['P', 'H', 'P']
  | plp => ['P', 'L', 'P']
  | stx => ['S', 'T', 'X']
  | sty => ['S', 'T', 'Y']

/-- The operation whose upper-case name is exactly `text`. -/
def ofName? (text : Text) : Option Mnemonic :=
  all.find? (·.name == text)

/-- The operation that `text` names, in letters of either case. -/
def ofText? (text : Text) : Option Mnemonic :=
  ofName? (text.map Char.toUpper)

/-- A conditional branch: its operand is a target, encoded as a distance. -/
def isBranch : Mnemonic → Bool
  | bpl | bmi | bvc | bvs | bcc | bcs | bne | beq => true
  | _ => false

end Mnemonic

end Asm65
