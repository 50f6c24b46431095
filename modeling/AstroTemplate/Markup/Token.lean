import AstroTemplate.Text.Blank
import AstroTemplate.Text.Span

set_option autoImplicit false

/-! # Tokens of markup

Markup is cut into tokens: tag delimiters, quotes, mustache delimiters, identifiers, white space
and everything else. `firstToken?` takes the longest token at the beginning of a text; a run that
is both an identifier and plain text counts as an identifier. `tokens` cuts a whole text.

The token at the beginning of a text depends on that text alone, so the tokens from any token
boundary on are the tokens of the text from there.
-/

namespace AstroTemplate

/-- What a token is. -/
inductive TokenKind where
  | commentOpen
  | closingTagOpen
  | tagOpen
  | selfClose
  | tagClose
  | slash
  | equals
  | doubleQuote
  | singleQuote
  | mustacheOpen
  | mustacheClose
  | identifier
  | whitespace
  | text
  | endOfFile
  deriving DecidableEq, Repr

namespace TokenKind

/-- How an error message names a token of this kind. -/
def name : TokenKind → String
  | commentOpen => "'<!--'"
  | closingTagOpen => "'</'"
  | tagOpen => "'<'"
  | selfClose => "'/>'"
  | tagClose => "'>'"
  | slash => "'/'"
  | equals => "'='"
  | doubleQuote => "'\"'"
  | singleQuote => "'''"
  | mustacheOpen => "'\x7b\x7b'"
  | mustacheClose => "'\x7d\x7d'"
  | identifier => "identifier"
  | whitespace => "whitespace"
  | text => "text"
  | endOfFile => "end of file"

/-- Whether a token of this kind ends a start tag. -/
def endsStartTag : TokenKind → Bool
  | tagClose | selfClose => true
  | _ => false

end TokenKind

/-- A character that can begin an identifier. -/
def isIdentifierStart (c : Char) : Bool := c.isAlpha || c == '_'

/-- A character that can continue an identifier. -/
def isIdentifierChar (c : Char) : Bool := c.isAlphanum || c == '_' || c == '-'

/-- An ASCII letter or underscore followed by letters, digits, underscores and hyphens. -/
def isIdentifier : List Char → Bool
  | [] => false
  | c :: cs => isIdentifierStart c && cs.all isIdentifierChar

/-- A character without a meaning of its own in markup. -/
def isTextChar (c : Char) : Bool :=
  !(c == '<' || c == '>' || c == '=' || c == '/' || c == '"' || c == '\''
    || c == '\x7b' || c == '\x7d' || isTagSpace c)

/-- The first token of a text: its kind, its characters, and the text after it. -/
def firstToken? : List Char → Option (TokenKind × List Char × List Char)
  | [] => none
  | '<' :: '!' :: '-' :: '-' :: rest => some (.commentOpen, ['<', '!', '-', '-'], rest)
  | '<' :: '/' :: rest => some (.closingTagOpen, ['<', '/'], rest)
  | '<' :: rest => some (.tagOpen, ['<'], rest)
  | '/' :: '>' :: rest => some (.selfClose, ['/', '>'], rest)
  | '/' :: rest => some (.slash, ['/'], rest)
  | '>' :: rest => some (.tagClose, ['>'], rest)
  | '=' :: rest => some (.equals, ['='], rest)
  | '"' :: rest => some (.doubleQuote, ['"'], rest)
  | '\'' :: rest => some (.singleQuote, ['\''], rest)
  | '\x7b' :: '\x7b' :: rest => some (.mustacheOpen, ['\x7b', '\x7b'], rest)
  | '\x7b' :: rest => some (.text, ['\x7b'], rest)
  | '\x7d' :: '\x7d' :: rest => some (.mustacheClose, ['\x7d', '\x7d'], rest)
  | '\x7d' :: rest => some (.text, ['\x7d'], rest)
  | c :: rest =>
    if isTagSpace c then
      some (.whitespace, c :: rest.takeWhile isTagSpace, rest.dropWhile isTagSpace)
    else
      let word := c :: rest.takeWhile isTextChar
      some (if isIdentifier word then .identifier else .text, word, rest.dropWhile isTextChar)

/-- A token is a non-empty beginning of the text, and what follows it is the rest. -/
theorem firstToken?_eq_some {s : List Char} {k : TokenKind} {t r : List Char}
    (h : firstToken? s = some (k, t, r)) : s = t ++ r ∧ t ≠ [] := by
  unfold firstToken? at h
  split at h
  · cases h
  all_goals try (cases h; simp)
  split at h <;> (cases h; simp [List.takeWhile_append_dropWhile])

theorem firstToken?_eq_none {s : List Char} : firstToken? s = none ↔ s = [] := by
  constructor
  · intro h
    cases s with
    | nil => rfl
    | cons c s =>
      unfold firstToken? at h
      split at h
      · contradiction
      all_goals try (simp at h; done)
      split at h <;> simp at h
  · rintro rfl
    rfl

/-- What is left after a token is shorter. -/
theorem firstToken?_rest_lt {s : List Char} {k : TokenKind} {t r : List Char}
    (h : firstToken? s = some (k, t, r)) : r.length < s.length := by
  obtain ⟨rfl, ht⟩ := firstToken?_eq_some h
  have := List.length_pos_iff.2 ht
  simp
  omega

/-- A token with the place it has in the source. -/
structure Token where
  kind : TokenKind
  span : Span
  text : List Char
  deriving DecidableEq, Repr

/-- The tokens of `rest`, which begins at `offset`; the last one is the end of the file. -/
def tokensFrom (offset : Nat) (rest : List Char) : List Token :=
  match h : firstToken? rest with
  | none => [⟨.endOfFile, .ofOffsets offset offset, []⟩]
  | some (kind, text, after) =>
    have : after.length < rest.length := firstToken?_rest_lt h
    let next := offset + byteLength text
    ⟨kind, .ofOffsets offset next, text⟩ :: tokensFrom next after
termination_by rest.length

/-- The tokens of `source` from an offset on. From an offset that is past the end or inside a
character there is only the end of the file. -/
def tokensAt (source : List Char) (offset : Nat) : List Token :=
  match dropBytes? offset source with
  | some rest => tokensFrom offset rest
  | none => tokensFrom (byteLength source) []

/-- The tokens of `source`. -/
def tokens (source : List Char) : List Token := tokensAt source 0

end AstroTemplate
