import AstroTemplate.Text.Digit

set_option autoImplicit false

/-! # Reading JSON

`JsonValue.read?` reads a text that is one JSON value. It is strict: no comments, no commas at the
end, no text after the value. Numbers are checked and not kept, since no setting is a number. A
string may spell half of a surrogate pair, and then it is no text, though it is well formed.
-/

namespace AstroTemplate

/-- A JSON value. -/
inductive JsonValue where
  | null
  | bool (value : Bool)
  | number
  | string (text : Option (List Char))
  | array (items : List JsonValue)
  | object (fields : List (Option (List Char) × JsonValue))
  deriving Repr

namespace JsonValue

/-- White space between the tokens of JSON. -/
def isSpace (c : Char) : Bool := c == ' ' || c == '\n' || c == '\t' || c == '\r'

def skipSpace (s : List Char) : List Char := s.dropWhile isSpace

/-! ## Strings

The content of a string is first read as code units: one for each character that stands for
itself, and one for each escape. Two escapes can make up one character. -/

/-- The code unit that a one-letter escape stands for. -/
def shortEscape? : Char → Option Nat
  | '"' => some 0x22
  | '\\' => some 0x5c
  | '/' => some 0x2f
  | 'b' => some 0x08
  | 'f' => some 0x0c
  | 'n' => some 0x0a
  | 'r' => some 0x0d
  | 't' => some 0x09
  | _ => none

/-- The code unit spelled by four hexadecimal digits. -/
def longEscape? (a b c d : Char) : Option Nat := readDigits? 16 hexDigit? 0 [a, b, c, d]

/-- The code units up to the closing quote, and the text after it. -/
def readUnits? : List Char → Option (List Nat × List Char)
  | [] => none
  | '"' :: s => some ([], s)
  | '\\' :: 'u' :: a :: b :: c :: d :: s =>
    (longEscape? a b c d).bind fun unit =>
      (readUnits? s).map fun (units, rest) => (unit :: units, rest)
  | '\\' :: e :: s =>
    (shortEscape? e).bind fun unit =>
      (readUnits? s).map fun (units, rest) => (unit :: units, rest)
  | c :: s =>
    if c.toNat < 0x20 || c == '\\' then none
    else (readUnits? s).map fun (units, rest) => (c.toNat :: units, rest)

/-- The text that code units spell. The two halves of a surrogate pair have to stand together. -/
def textOfUnits? : List Nat → Option (List Char)
  | [] => some []
  | [unit] => (charOfCode? unit).map ([·])
  | first :: second :: units =>
    if 0xd800 ≤ first && first ≤ 0xdbff then
      if 0xdc00 ≤ second && second ≤ 0xdfff then
        let code := 0x10000 + (first - 0xd800) * 0x400 + (second - 0xdc00)
        (charOfCode? code).bind fun c => (textOfUnits? units).map (c :: ·)
      else none
    else (charOfCode? first).bind fun c => (textOfUnits? (second :: units)).map (c :: ·)

/-! ## Numbers -/

/-- The text after at least one digit. -/
def skipDigits? : List Char → Option (List Char)
  | [] => none
  | c :: s => if c.isDigit then some (s.dropWhile Char.isDigit) else none

/-- The text after a fraction, if there is one. -/
def skipFraction? : List Char → Option (List Char)
  | '.' :: s => skipDigits? s
  | s => some s

/-- The text after an exponent, if there is one. -/
def skipExponent? : List Char → Option (List Char)
  | 'e' :: '+' :: s | 'e' :: '-' :: s | 'E' :: '+' :: s | 'E' :: '-' :: s => skipDigits? s
  | 'e' :: s | 'E' :: s => skipDigits? s
  | s => some s

/-- The text after a whole number, which has no zero in front. -/
def skipInteger? : List Char → Option (List Char)
  | '0' :: c :: s => if c.isDigit then none else some (c :: s)
  | s => skipDigits? s

/-- The text after a number. -/
def skipNumber? (s : List Char) : Option (List Char) :=
  let unsigned := (afterPrefix? ['-'] s).getD s
  ((skipInteger? unsigned).bind skipFraction?).bind skipExponent?

/-! ## Values -/

mutual

/-- The value at the beginning of `s`, and the text after it. `depth` bounds how far the values
inside it are away, where the next member of a list is one step further than the one before. -/
def readValue? (depth : Nat) (s : List Char) : Option (JsonValue × List Char) :=
  match depth with
  | 0 => none
  | depth + 1 =>
    match skipSpace s with
    | '"' :: t => (readUnits? t).map fun (units, rest) => (.string (textOfUnits? units), rest)
    | '[' :: t =>
      match skipSpace t with
      | ']' :: rest => some (.array [], rest)
      | t => (readItems? depth t).map fun (items, rest) => (.array items, rest)
    | '\x7b' :: t =>
      match skipSpace t with
      | '\x7d' :: rest => some (.object [], rest)
      | t => (readFields? depth t).map fun (fields, rest) => (.object fields, rest)
    | 'n' :: 'u' :: 'l' :: 'l' :: rest => some (.null, rest)
    | 't' :: 'r' :: 'u' :: 'e' :: rest => some (.bool true, rest)
    | 'f' :: 'a' :: 'l' :: 's' :: 'e' :: rest => some (.bool false, rest)
    | t => (skipNumber? t).map fun rest => (.number, rest)

/-- The members of an array up to its end. -/
def readItems? (depth : Nat) (s : List Char) : Option (List JsonValue × List Char) :=
  match depth with
  | 0 => none
  | depth + 1 =>
    (readValue? depth s).bind fun (item, rest) =>
      match skipSpace rest with
      | ']' :: rest => some ([item], rest)
      | ',' :: rest => (readItems? depth rest).map fun (items, rest) => (item :: items, rest)
      | _ => none

/-- The members of an object up to its end. -/
def readFields? (depth : Nat) (s : List Char) :
    Option (List (Option (List Char) × JsonValue) × List Char) :=
  match depth with
  | 0 => none
  | depth + 1 =>
    match skipSpace s with
    | '"' :: t =>
      (readUnits? t).bind fun (key, rest) =>
        match skipSpace rest with
        | ':' :: rest =>
          (readValue? depth rest).bind fun (value, rest) =>
            let field := (textOfUnits? key, value)
            match skipSpace rest with
            | '\x7d' :: rest => some ([field], rest)
            | ',' :: rest =>
              (readFields? depth rest).map fun (fields, rest) => (field :: fields, rest)
            | _ => none
        | _ => none
    | _ => none

end

/-- The value that a text spells. On the way to any value inside it, each opening bracket counts
twice and each comma once, so twice the length of the text is enough. -/
def read? (s : List Char) : Option JsonValue :=
  match readValue? (2 * s.length + 1) s with
  | some (value, rest) => if (skipSpace rest).isEmpty then some value else none
  | none => none

/-! ## Looking at values -/

/-- The text of a string. -/
def text? : JsonValue → Option (List Char)
  | string text => text
  | _ => none

/-- The texts of an array of strings. -/
def texts? : JsonValue → Option (List (List Char))
  | array items => items.mapM text?
  | _ => none

/-- A truth value that may be left open. -/
def optionalBool? : JsonValue → Option (Option Bool)
  | null => some none
  | bool value => some (some value)
  | _ => none

end JsonValue

end AstroTemplate
