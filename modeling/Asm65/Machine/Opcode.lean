import Asm65.Machine.Mnemonic
import Asm65.Machine.Mode

namespace Asm65.Mnemonic

/-- The modes in which an operation exists, each with its opcode. Branches stand under the
absolute mode, in which their target is written. -/
def encodings : Mnemonic → List (Mode × UInt8)
  | adc => [(.immediate, 0x69), (.zeroPage, 0x65), (.zeroPageX, 0x75), (.absolute, 0x6D),
      (.absoluteX, 0x7D), (.absoluteY, 0x79), (.indexedIndirect, 0x61), (.indirectIndexed, 0x71)]
  | and => [(.immediate, 0x29), (.zeroPage, 0x25), (.zeroPageX, 0x35), (.absolute, 0x2D),
      (.absoluteX, 0x3D), (.absoluteY, 0x39), (.indexedIndirect, 0x21), (.indirectIndexed, 0x31)]
  | asl => [(.zeroPage, 0x06), (.zeroPageX, 0x16), (.absolute, 0x0E), (.absoluteX, 0x1E),
      (.accumulator, 0x0A)]
  | bit => [(.zeroPage, 0x24), (.absolute, 0x2C)]
  | bpl => [(.absolute, 0x10)]
  | bmi => [(.absolute, 0x30)]
  | bvc => [(.absolute, 0x50)]
  | bvs => [(.absolute, 0x70)]
  | bcc => [(.absolute, 0x90)]
  | bcs => [(.absolute, 0xB0)]
  | bne => [(.absolute, 0xD0)]
  | beq => [(.absolute, 0xF0)]
  | brk => [(.implied, 0x00)]
  | cmp => [(.immediate, 0xC9), (.zeroPage, 0xC5), (.zeroPageX, 0xD5), (.absolute, 0xCD),
      (.absoluteX, 0xDD), (.absoluteY, 0xD9), (.indexedIndirect, 0xC1), (.indirectIndexed, 0xD1)]
  | cpx => [(.immediate, 0xE0), (.zeroPage, 0xE4), (.absolute, 0xEC)]
  | cpy => [(.immediate, 0xC0), (.zeroPage, 0xC4), (.absolute, 0xCC)]
  | dec => [(.zeroPage, 0xC6), (.zeroPageX, 0xD6), (.absolute, 0xCE), (.absoluteX, 0xDE)]
  | eor => [(.immediate, 0x49), (.zeroPage, 0x45), (.zeroPageX, 0x55), (.absolute, 0x4D),
      (.absoluteX, 0x5D), (.absoluteY, 0x59), (.indexedIndirect, 0x41), (.indirectIndexed, 0x51)]
  | clc => [(.implied, 0x18)]
  | sec => [(.implied, 0x38)]
  | cli => [(.implied, 0x58)]
  | sei => [(.implied, 0x78)]
  | clv => [(.implied, 0xB8)]
  | cld => [(.implied, 0xD8)]
  | sed => [(.implied, 0xF8)]
  | inc => [(.zeroPage, 0xE6), (.zeroPageX, 0xF6), (.absolute, 0xEE), (.absoluteX, 0xFE)]
  | jmp => [(.absolute, 0x4C), (.indirect, 0x6C)]
  | jsr => [(.absolute, 0x20)]
  | lda => [(.immediate, 0xA9), (.zeroPage, 0xA5), (.zeroPageX, 0xB5), (.absolute, 0xAD),
      (.absoluteX, 0xBD), (.absoluteY, 0xB9), (.indexedIndirect, 0xA1), (.indirectIndexed, 0xB1)]
  | ldx => [(.immediate, 0xA2), (.zeroPage, 0xA6), (.absolute, 0xAE), (.absoluteY, 0xBE),
      (.zeroPageY, 0xB6)]
  | ldy => [(.immediate, 0xA0), (.zeroPage, 0xA4), (.zeroPageX, 0xB4), (.absolute, 0xAC),
      (.absoluteX, 0xBC)]
  | lsr => [(.zeroPage, 0x46), (.zeroPageX, 0x56), (.absolute, 0x4E), (.absoluteX, 0x5E),
      (.accumulator, 0x4A)]
  | nop => [(.implied, 0xEA)]
  | ora => [(.immediate, 0x09), (.zeroPage, 0x05), (.zeroPageX, 0x15), (.absolute, 0x0D),
      (.absoluteX, 0x1D), (.absoluteY, 0x19), (.indexedIndirect, 0x01), (.indirectIndexed, 0x11)]
  | tax => [(.implied, 0xAA)]
  | txa => [(.implied, 0x8A)]
  | dex => [(.implied, 0xCA)]
  | inx => [(.implied, 0xE8)]
  | tay => [(.implied, 0xA8)]
  | tya => [(.implied, 0x98)]
  | dey => [(.implied, 0x88)]
  | iny => [(.implied, 0xC8)]
  | rol => [(.zeroPage, 0x26), (.zeroPageX, 0x36), (.absolute, 0x2E), (.absoluteX, 0x3E),
      (.accumulator, 0x2A)]
  | ror => [(.zeroPage, 0x66), (.zeroPageX, 0x76), (.absolute, 0x6E), (.absoluteX, 0x7E),
      (.accumulator, 0x6A)]
  | rti => [(.implied, 0x40)]
  | rts => [(.implied, 0x60)]
  | sbc => [(.immediate, 0xE9), (.zeroPage, 0xE5), (.zeroPageX, 0xF5), (.absolute, 0xED),
      (.absoluteX, 0xFD), (.absoluteY, 0xF9), (.indexedIndirect, 0xE1), (.indirectIndexed, 0xF1)]
  | sta => [(.zeroPage, 0x85), (.zeroPageX, 0x95), (.absolute, 0x8D), (.absoluteX, 0x9D),
      (.absoluteY, 0x99), (.indexedIndirect, 0x81), (.indirectIndexed, 0x91)]
  | txs => [(.implied, 0x9A)]
  | tsx => [(.implied, 0xBA)]
  | pha => [(.implied, 0x48)]
  | pla => [(.implied, 0x68)]
  | php => [(.implied, 0x08)]
  | plp => [(.implied, 0x28)]
  | stx => [(.zeroPage, 0x86), (.absolute, 0x8E), (.zeroPageY, 0x96)]
  | sty => [(.zeroPage, 0x84), (.zeroPageX, 0x94), (.absolute, 0x8C)]

def opcode? (mnemonic : Mnemonic) (mode : Mode) : Option UInt8 :=
  mnemonic.encodings.lookup mode

end Asm65.Mnemonic
