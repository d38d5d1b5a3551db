import Asm65.Text.Blank

namespace Asm65.Text

/-- Fills `text` with spaces on the right up to `width` characters; a longer text is kept. -/
def padRight (width : Nat) (text : Text) : Text :=
  text ++ List.replicate (width - text.length) ' '

/-- Fills `text` with spaces on the left up to `width` characters; a longer text is kept. -/
def padLeft (width : Nat) (text : Text) : Text :=
  List.replicate (width - text.length) ' ' ++ text

end Asm65.Text
