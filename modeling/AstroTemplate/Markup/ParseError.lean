import AstroTemplate.Markup.Token

set_option autoImplicit false

/-! # Errors in markup

Reading a template never fails; what is wrong with it is reported as a list of `ParseError`s.
-/

namespace AstroTemplate

/-- What can be wrong with an attribute. -/
inductive AttributeProblem where
  | missingName
  | missingValue
  | unterminatedValue
  deriving DecidableEq, Repr

/-- What can be wrong with markup. -/
inductive ParseErrorKind where
  | strayClosingTag (found : List Char)
  | mismatchedClosingTag (expected found : List Char)
  | unclosedTag (name : List Char)
  | unfinishedStartTag (found : TokenKind)
  | endInsideTag
  | unterminatedInterpolation
  | unterminatedComment
  | invalidAttribute (problem : AttributeProblem)
  deriving DecidableEq, Repr

/-- An error and the part of the source it is about. -/
structure ParseError where
  kind : ParseErrorKind
  span : Span
  deriving DecidableEq, Repr

namespace AttributeProblem

def message : AttributeProblem → String
  | missingName => "expected attribute name before '='"
  | missingValue => "missing attribute value"
  | unterminatedValue => "unterminated attribute value"

end AttributeProblem

namespace ParseErrorKind

/-- The text of an error. -/
def message : ParseErrorKind → String
  | strayClosingTag found =>
    "unexpected token: expected element or text, found </" ++ String.ofList found ++ ">"
  | mismatchedClosingTag expected found =>
    "mismatched closing tag: expected </" ++ String.ofList expected ++ ">, found </"
      ++ String.ofList found ++ ">"
  | unclosedTag name => "unclosed tag: <" ++ String.ofList name ++ ">"
  | unfinishedStartTag found => "unexpected token: expected '>', found " ++ found.name
  | endInsideTag => "unexpected end of file: expected '>'"
  | unterminatedInterpolation => "interpolation is missing its closing `\x7d\x7d`"
  | unterminatedComment => "comment is missing its closing `-->`"
  | invalidAttribute problem => "invalid attribute: " ++ problem.message

end ParseErrorKind

end AstroTemplate
