import AstroTemplate.Text.Search

set_option autoImplicit false

/-! # Attribute values and template literals

How text is written into generated markup: inside a quoted attribute value, or inside a template
literal of the expression language.
-/

namespace AstroTemplate

/-- A character inside a double-quoted attribute value. -/
def escapeAttrChar : Char → List Char
  | '&' => "&amp;".toList
  | '"' => "&quot;".toList
  | c => [c]

/-- A text inside a double-quoted attribute value. -/
def escapeAttr (s : List Char) : List Char := s.flatMap escapeAttrChar

/-- A text with each backtick behind a backslash. -/
def escapeBackticks (s : List Char) : List Char :=
  s.flatMap fun c => if c = '`' then ['\\', '`'] else [c]

/-- Whether a text has a placeholder, so that it is written as a template literal. -/
def hasPlaceholder (s : List Char) : Bool := occurs ['$', '\x7b'] s

/-- The text between the backticks of a text that is a template literal as a whole. -/
def insideBackticks? (s : List Char) : Option (List Char) :=
  (afterPrefix? ['`'] s).bind (beforeSuffix? ['`'])

/-- A text as a template literal. -/
def templateLiteral (s : List Char) : List Char :=
  '`' :: escapeBackticks ((insideBackticks? s).getD s) ++ ['`']

end AstroTemplate
