import AstroTemplate.Text.Search

set_option autoImplicit false

/-! # Numbers written in digits

Reading numbers in a base, and the characters that have a number for their code.
-/

namespace AstroTemplate

/-- The value of a hexadecimal digit of either case. -/
def hexDigit? (c : Char) : Option Nat :=
  if '0' ≤ c && c ≤ '9' then some (c.toNat - '0'.toNat)
  else if 'a' ≤ c && c ≤ 'f' then some (c.toNat - 'a'.toNat + 10)
  else if 'A' ≤ c && c ≤ 'F' then some (c.toNat - 'A'.toNat + 10)
  else none

/-- The value of a decimal digit. -/
def decimalDigit? (c : Char) : Option Nat :=
  if '0' ≤ c && c ≤ '9' then some (c.toNat - '0'.toNat) else none

/-- The number spelled by `digits`, read on from `value`. -/
def readDigits? (base : Nat) (digit? : Char → Option Nat) (value : Nat) :
    List Char → Option Nat
  | [] => some value
  | c :: cs => (digit? c).bind fun d => readDigits? base digit? (value * base + d) cs

/-- An unsigned number: at least one digit, with a plus sign allowed in front. -/
def readNumber? (base : Nat) (digit? : Char → Option Nat) (s : List Char) : Option Nat :=
  let digits := (afterPrefix? ['+'] s).getD s
  if digits.isEmpty then none else readDigits? base digit? 0 digits

/-- The character with a given code, if the code is a character's. -/
def charOfCode? (n : Nat) : Option Char :=
  if n.isValidChar then some (Char.ofNat n) else none

end AstroTemplate
