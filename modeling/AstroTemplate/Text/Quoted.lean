set_option autoImplicit false

/-! # Quoted texts

A text is shown between double quotes on one line. Quotes, backslashes and control characters are
written as escapes, so that what stands between the quotes shows where the text ends.
-/

namespace AstroTemplate

/-- Whether a character is a control character. -/
def isControl (c : Char) : Bool := c.toNat < 0x20 || c.toNat == 0x7f

/-- How a character is written in quotes. Control characters without an escape of their own are
written by their number. -/
def quotedChar (c : Char) : List Char :=
  match c with
  | '"' => ['\\', '"']
  | '\\' => ['\\', '\\']
  | '\n' => ['\\', 'n']
  | '\r' => ['\\', 'r']
  | '\t' => ['\\', 't']
  | '\x00' => ['\\', '0']
  | c =>
    if isControl c then ['\\', 'u', '\x7b'] ++ Nat.toDigits 16 c.toNat ++ ['\x7d'] else [c]

/-- A text in quotes. -/
def quoted (s : List Char) : List Char := '"' :: s.flatMap quotedChar ++ ['"']

@[simp] theorem quoted_nil : quoted [] = ['"', '"'] := rfl

end AstroTemplate
