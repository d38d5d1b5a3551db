namespace Asm65

/-- Source text, names and paths are lists of characters, so that reading them is recursion
on the list. -/
abbrev Text := List Char

/-- Code points of the Unicode property `White_Space`, as closed ranges in ascending order. -/
def blankRanges : List (Nat × Nat) :=
  [(0x0009, 0x000D), (0x0020, 0x0020), (0x0085, 0x0085), (0x00A0, 0x00A0), (0x1680, 0x1680),
    (0x2000, 0x200A), (0x2028, 0x2029), (0x202F, 0x202F), (0x205F, 0x205F), (0x3000, 0x3000)]

/-- A blank separates tokens and is trimmed from the ends of a line. -/
def isBlank (c : Char) : Bool :=
  blankRanges.any fun (low, high) => low ≤ c.toNat && c.toNat ≤ high

namespace Text

def trimStart (text : Text) : Text :=
  text.dropWhile isBlank

def trimEnd (text : Text) : Text :=
  (text.reverse.dropWhile isBlank).reverse

/-- Drops the blanks at both ends. -/
def trim (text : Text) : Text :=
  text.trimStart.trimEnd

/-- The pieces of a text that begins with `c`, from the pieces of what follows. -/
def pushChar (separator c : Char) (pieces : List Text) : List Text :=
  if c = separator then [] :: pieces
  else match pieces with
    | [] => [[c]]
    | piece :: rest => (c :: piece) :: rest

/-- The lines of a text: each line feed ends one, and what follows the last line feed is a line
only if it is not empty. A carriage return before a line feed stays in its line as a blank. -/
def lines (text : Text) : List Text :=
  text.foldr (pushChar '\n') []

end Text

end Asm65
