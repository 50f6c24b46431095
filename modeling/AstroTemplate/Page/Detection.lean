import AstroTemplate.Text.Blank
import AstroTemplate.Text.Search
import AstroTemplate.Text.Word

set_option autoImplicit false

/-! # Recognising a template to convert

Most pages have nothing to convert. `needsConversion` looks for signs of template syntax in the
text of a template, without reading it as markup: an interpolation, a directive by one of its
usual names, or a shorthand.
-/

namespace AstroTemplate

/-- Whether `p` holds of the text from some place on. -/
def anywhere (p : List Char → Bool) : List Char → Bool
  | [] => p []
  | c :: cs => p (c :: cs) || anywhere p cs

/-- How much of an interpolation stands directly before a place. -/
inductive InterpolationState where
  | nothing
  /-- One opening brace. -/
  | oneBrace
  /-- Two opening braces and nothing after them. -/
  | twoBraces
  /-- Two opening braces and some text after them. -/
  | content
  deriving DecidableEq, Repr

/-- The state after a character that is no closing brace. -/
def InterpolationState.next (state : InterpolationState) (c : Char) : InterpolationState :=
  match state with
  | nothing => if c = '\x7b' then oneBrace else nothing
  | oneBrace => if c = '\x7b' then twoBraces else nothing
  | twoBraces | content => content

/-- Whether an interpolation is completed from a state on: two opening braces, some text without
a closing brace, and two closing braces. -/
def showsInterpolationFrom (state : InterpolationState) : List Char → Bool
  | [] => false
  | c :: s =>
    if c = '\x7d' then
      (state = .content && s.head? = some '\x7d') || showsInterpolationFrom .nothing s
    else showsInterpolationFrom (state.next c) s

/-- Whether there is an interpolation in a text. -/
def showsInterpolation (s : List Char) : Bool := showsInterpolationFrom .nothing s

/-- The directives that are looked for by name. -/
def detectedDirectives : List (List Char) :=
  ["if", "else-if", "else", "for", "show", "model", "bind", "on", "slot", "html", "text"].map
    String.toList

/-- Whether a word that ends here is complete. -/
def endsWord (s : List Char) : Bool := !s.head?.any isWordChar

/-- A directive: a blank, `v-`, and one of the known names as a whole word. -/
def showsDirective : List Char → Bool
  | [] => false
  | c :: s =>
    isBlank c &&
      match afterPrefix? ['v', '-'] s with
      | none => false
      | some t => detectedDirectives.any fun name => (afterPrefix? name t).any endsWord

/-- A shorthand: a blank or `<`, then `:` or `@`, then a letter. -/
def showsShorthand : List Char → Bool
  | a :: b :: c :: _ => (isBlank a || a == '<') && (b == ':' || b == '@') && c.isAlpha
  | _ => false

/-- Whether a template shows any sign of syntax to convert. -/
def needsConversion (body : List Char) : Bool :=
  showsInterpolation body || anywhere showsDirective body
    || anywhere showsShorthand body

end AstroTemplate
