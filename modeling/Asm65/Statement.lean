import Asm65.Token
import Asm65.Fault

namespace Asm65

/-! What a line of source can say. `Statement.parse` reads a line; what it accepts depends only
on the line's tokens, and the texts it keeps are pieces of the line. -/

/-- The registers that can index an operand. -/
inductive Index where
  | x
  | y
deriving DecidableEq, Repr

/-- An operand as it is written. The text inside is a literal or a name. -/
inductive Operand where
  | implied
  | accumulator
  | immediate (text : Text)
  | absolute (text : Text)
  | indexed (text : Text) (index : Index)
  | indirect (text : Text)
  /-- Indexed by X inside the parentheses. -/
  | indexedIndirect (text : Text)
  /-- Indexed by Y after the parentheses. -/
  | indirectIndexed (text : Text)
deriving DecidableEq, Repr

/-- An instruction as it is written, not yet looked up in the opcode table. -/
structure Instruction where
  mnemonic : Text
  operand : Operand
  /-- The whole instruction, without a label before it. -/
  text : Text
deriving DecidableEq, Repr

/-- What a line says. -/
inductive Statement where
  | origin (value : Text)
  | label (name : Text)
  | instruction (label : Option Text) (body : Instruction)
deriving DecidableEq, Repr

def Index.ofToken? : Token → Option Index
  | .word ['x'] | .word ['X'] => some x
  | .word ['y'] | .word ['Y'] => some y
  | _ => none

namespace Operand

/-- The mode that an operand's form stands for. -/
def mode : Operand → Mode
  | implied => .implied
  | accumulator => .accumulator
  | immediate _ => .immediate
  | absolute _ => .absolute
  | indexed _ .x => .absoluteX
  | indexed _ .y => .absoluteY
  | indirect _ => .indirect
  | indexedIndirect _ => .indexedIndirect
  | indirectIndexed _ => .indirectIndexed

/-- The tokens without a blank run in front. -/
def skipSpace : List Token → List Token
  | .space :: rest => rest
  | tokens => tokens

/-- An immediate value is a literal, never a name. -/
def literal? : Token → Option Text
  | .hex digits => some ('$' :: digits)
  | .word text => if text.all isDecimalDigit then some text else none
  | _ => none

/-- The operand whose opening parenthesis and value have been read. -/
def ofParenthesised? (value : Text) : List Token → Option Operand
  | [.rightParen] => some (indirect value)
  | .rightParen :: .comma :: rest =>
      match skipSpace rest with
      | [index] => if Index.ofToken? index = some .y then some (indirectIndexed value) else none
      | _ => none
  | .comma :: rest =>
      match skipSpace rest with
      | [index, .rightParen] =>
          if Index.ofToken? index = some .x then some (indexedIndirect value) else none
      | _ => none
  | _ => none

/-- The operand that the tokens after a mnemonic and its blanks write. -/
def ofTokens? : List Token → Option Operand
  | [.word ['a']] | [.word ['A']] => some accumulator
  | [.hash, value] => (literal? value).map immediate
  | [value] => value.operand?.map absolute
  | .leftParen :: value :: rest => value.operand?.bind (ofParenthesised? · rest)
  | value :: .comma :: rest =>
      match skipSpace rest with
      | [index] => value.operand?.bind fun text => (Index.ofToken? index).map (indexed text)
      | _ => none
  | _ => none

end Operand

/-- Reads an instruction: a word of three characters, alone or followed by blanks and an
operand. -/
def Instruction.parse (text : Text) : Except Fault Instruction :=
  match Token.scan text with
  | .word mnemonic :: rest =>
      if mnemonic.length = 3 then
        match rest with
        | [] => .ok { mnemonic, operand := .implied, text }
        | .space :: tokens =>
            match Operand.ofTokens? tokens with
            | some operand => .ok { mnemonic, operand, text }
            | none => .error (.unreadableLine text)
        | _ => .error (.unreadableLine text)
      else .error (.unreadableLine text)
  | _ => .error (.unreadableLine text)

namespace Statement

/-- The value of an origin directive: a star, an equals sign and a hexadecimal numeral, with or
without the dollar sign, and blanks between them if any. -/
def originValue? : List Token → Option Text
  | .star :: rest =>
      match Operand.skipSpace rest with
      | .equals :: rest =>
          match Operand.skipSpace rest with
          | [.hex digits] => some ('$' :: digits)
          | [.word text] => if text.all isHexDigit then some text else none
          | _ => none
      | _ => none
  | _ => none

/-- The name at the start of a line and what follows its colon, without blanks in front. -/
def splitLabel? (line : Text) : Option (Text × Text) :=
  match Token.scan line with
  | .word name :: .colon :: _ => some (name, Text.trimStart (line.drop (name.length + 1)))
  | _ => none

/-- Reads a line. A line with nothing but blanks and a comment says nothing. -/
def parse (line : Text) : Except Fault (Option Statement) :=
  match codeOf line with
  | [] => .ok none
  | line =>
      match originValue? (Token.scan line) with
      | some value => .ok (some (.origin value))
      | none =>
          match splitLabel? line with
          | some (name, []) => .ok (some (.label name))
          | some (name, rest) => (Instruction.parse rest).map (some <| .instruction (some name) ·)
          | none => (Instruction.parse line).map (some <| .instruction none ·)

end Statement

end Asm65
