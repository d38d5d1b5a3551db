namespace Asm65.Command

/-- How the terminal shows a piece of text. -/
inductive Style where
  | red
  | green
  | yellow
  | blue
  | bold
  | underline

namespace Style

/-- The code that turns a style on. -/
def on : Style → String
  | red => "\x1b[31m"
  | green => "\x1b[32m"
  | yellow => "\x1b[33m"
  | blue => "\x1b[34m"
  | bold => "\x1b[1m"
  | underline => "\x1b[4m"

/-- The code that turns a style off. -/
def off : Style → String
  | red | green | yellow | blue => "\x1b[39m"
  | bold => "\x1b[22m"
  | underline => "\x1b[24m"

def paint (styles : List Style) (text : String) : String :=
  String.join (styles.map on) ++ text ++ String.join (styles.map off)

end Style

end Asm65.Command
