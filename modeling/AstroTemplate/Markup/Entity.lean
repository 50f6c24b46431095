import AstroTemplate.Text.Digit

set_option autoImplicit false

/-! # Character references

Attribute values may spell a character by name (`&amp;`), by its decimal number (`&#38;`) or by
its hexadecimal number (`&#x26;`). `decodeEntities` replaces each reference by its character. A
reference runs from `&` to the next `;`; one that names no character is left as it stands.
-/

namespace AstroTemplate

/-- The characters that have a name. -/
def namedCharacters : List (List Char × Char) :=
  [("amp".toList, '&'), ("lt".toList, '<'), ("gt".toList, '>'), ("quot".toList, '"'),
    ("apos".toList, '\''), ("nbsp".toList, '\u00a0')]

/-- The character that the text between `&` and `;` refers to. -/
def referenced? : List Char → Option Char
  | '#' :: 'x' :: hex => (readNumber? 16 hexDigit? hex).bind charOfCode?
  | '#' :: 'X' :: hex => (readNumber? 16 hexDigit? hex).bind charOfCode?
  | '#' :: decimal => (readNumber? 10 decimalDigit? decimal).bind charOfCode?
  | name => namedCharacters.lookup name

/-- A character of a reference. Names and numbers are made of letters and digits, with a number
sign in front of a number and perhaps a plus sign after that. -/
def isReferenceChar (c : Char) : Bool := c.isAlphanum || c == '#' || c == '+'

/-- A reference whose `&` has been read: its character and the text after its `;`. -/
def reference? (s : List Char) : Option (Char × List Char) :=
  match s.dropWhile isReferenceChar with
  | ';' :: rest => (referenced? (s.takeWhile isReferenceChar)).map fun c => (c, rest)
  | _ => none

theorem reference?_rest_lt {s rest : List Char} {c : Char}
    (h : reference? s = some (c, rest)) : rest.length < s.length := by
  unfold reference? at h
  split at h
  · rename_i after heq
    obtain ⟨d, _, he⟩ := Option.map_eq_some_iff.1 h
    obtain ⟨rfl, rfl⟩ := Prod.mk.inj he
    have := (List.dropWhile_suffix (l := s) isReferenceChar).length_le
    rw [heq, List.length_cons] at this
    exact this
  · simp at h

/-- The text that `s` spells. -/
def decodeEntities : List Char → List Char
  | [] => []
  | c :: cs =>
    if c = '&' then
      match h : reference? cs with
      | some (decoded, rest) =>
        have : rest.length < cs.length := reference?_rest_lt h
        decoded :: decodeEntities rest
      | none => '&' :: decodeEntities cs
    else c :: decodeEntities cs
termination_by s => s.length

end AstroTemplate
