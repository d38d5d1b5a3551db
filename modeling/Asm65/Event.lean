import Asm65.Text.Column
import Asm65.Text.Digit

namespace Asm65

/-- How severe an event is, most severe first. -/
inductive Level where
  | error
  | warn
  | info
  | debug
  | trace
deriving DecidableEq, Repr

namespace Level

def all : List Level := [error, warn, info, debug, trace]

def name : Level → Text
  | error => ['E', 'R', 'R', 'O', 'R']
  | warn => ['W', 'A', 'R', 'N']
  | info => ['I', 'N', 'F', 'O']
  | debug => ['D', 'E', 'B', 'U', 'G']
  | trace => ['T', 'R', 'A', 'C', 'E']

/-- Place in the order of severity, counted from one. -/
def rank : Level → Nat
  | error => 1
  | warn => 2
  | info => 3
  | debug => 4
  | trace => 5

/-- Whether a log kept at `limit` shows events of this level. -/
def shownAt (level limit : Level) : Bool :=
  level.rank ≤ limit.rank

end Level

/-- What a run tells its log. -/
inductive Event where
  | passStarted (number : Nat)
  | firstPassDone (labels : Nat)
  | secondPassDone (bytes : Nat)
  | originSet (address : UInt16)
  | labelBound (name : Text) (address : UInt16)
  | encoded (address : UInt16) (text : Text) (bytes : List UInt8)
  /-- An instruction took its final place; told only when tracing is on. -/
  | placed (address : UInt16) (text : Text) (bytes : List UInt8)
  | listingWritten (path : Text)
deriving DecidableEq, Repr

namespace Event

def level : Event → Level
  | encoded .. => .trace
  | placed .. => .info
  | _ => .debug

/-- The part of the program that tells the event. -/
def target : Event → Text
  | placed .. => "asm6502::trace".toList
  | listingWritten _ => "asm6502".toList
  | _ => "asm6502_lite::assembler".toList

/-- Bytes in brackets, separated by commas. -/
def byteList (bytes : List UInt8) : Text :=
  ['['] ++ List.intercalate [',', ' '] (bytes.map hexByte) ++ [']']

def decimal (n : Nat) : Text :=
  (toString n).toList

def message : Event → Text
  | passStarted number => "starting pass ".toList ++ decimal number
  | firstPassDone labels => "pass 1 done labels=".toList ++ decimal labels
  | secondPassDone bytes => "pass 2 done bytes=".toList ++ decimal bytes
  | originSet address => "set program counter to ".toList ++ dollarWord address
  | labelBound name address => "label ".toList ++ name ++ " = ".toList ++ dollarWord address
  | encoded address text bytes =>
      dollarWord address ++ " ".toList ++ text ++ " => ".toList ++ byteList bytes
  | placed address text bytes =>
      dollarWord address ++ "  ".toList ++ Text.padRight 14 text ++ "   => ".toList ++
        byteList bytes
  | listingWritten path => "listing written to ".toList ++ path

/-- The event in one line: level, target and message. -/
def render (event : Event) : Text :=
  event.level.name ++ " ".toList ++ event.target ++ ": ".toList ++ event.message

/-- Terminal control characters are spelled out, so that a logged name cannot steer the
terminal. -/
def spellControl (c : Char) : Text :=
  match c.toNat with
  | 0x07 => "\\x07".toList
  | 0x08 => "\\x08".toList
  | 0x0C => "\\x0c".toList
  | 0x1B => "\\x1b".toList
  | 0x7F => "\\x7f".toList
  | n => if 0x80 ≤ n ∧ n ≤ 0x9F then "\\u\x7b".toList ++ Nat.toDigits 16 n ++ "\x7d".toList
      else [c]

/-- The event as a terminal shows it, with the levels in a column. -/
def terminalLine (event : Event) : Text :=
  Text.padLeft 5 event.level.name ++ " ".toList ++ event.target ++ ": ".toList ++
    event.message.flatMap spellControl

end Event

end Asm65
