import Asm65.Text.Digit

namespace Asm65

/-! Tokens of a line, and how a line is cut into them. `Token.scan` works from the end of the
text to its start, one character at a time, so each run of blanks or word characters is whole. -/

/-- A lexical unit of a line. Blanks count as a token, because operands allow them in some
places only. -/
inductive Token where
  /-- A run of letters, digits and underscores. -/
  | word (text : Text)
  /-- A dollar sign with at least one hexadecimal digit after it. -/
  | hex (digits : Text)
  /-- A run of blanks. -/
  | space
  | hash
  | comma
  | colon
  | star
  | equals
  | leftParen
  | rightParen
  | other (c : Char)
deriving DecidableEq, Repr

/-- Letters, digits and underscores of ASCII. -/
def isNameChar (c : Char) : Bool :=
  c.isAlphanum || c == '_'

namespace Token

/-- The text of a token that can stand as an operand. -/
def operand? : Token → Option Text
  | word text => some text
  | hex digits => some ('$' :: digits)
  | _ => none

def ofMark : Char → Token
  | '#' => hash
  | ',' => comma
  | ':' => colon
  | '*' => star
  | '=' => equals
  | '(' => leftParen
  | ')' => rightParen
  | c => other c

/-- The tokens after a dollar sign, from the tokens of the text that follows it: the hexadecimal
digits at its start belong to the dollar sign, and the rest of their word stands by itself. -/
def pushDollar : List Token → List Token
  | word text :: rest =>
      match text.takeWhile isHexDigit, text.dropWhile isHexDigit with
      | [], _ => other '$' :: word text :: rest
      | digits, [] => hex digits :: rest
      | digits, remainder => hex digits :: word remainder :: rest
  | tokens => other '$' :: tokens

/-- The tokens of a text that begins with `c`, from the tokens of what follows. A run of blanks
or of word characters grows by `c`, so a run is never cut in two. -/
def push (c : Char) (tokens : List Token) : List Token :=
  if isBlank c then
    match tokens with
    | space :: _ => tokens
    | _ => space :: tokens
  else if isNameChar c then
    match tokens with
    | word text :: rest => word (c :: text) :: rest
    | _ => word [c] :: tokens
  else if c = '$' then pushDollar tokens
  else ofMark c :: tokens

/-- Cuts a text into tokens, each as long as it can be. -/
def scan (text : Text) : List Token :=
  text.foldr push []

end Token

/-- A line without its comment, which starts at the first semicolon, and without the blanks
around what is left. -/
def codeOf (line : Text) : Text :=
  Text.trim (line.takeWhile (· != ';'))

end Asm65
