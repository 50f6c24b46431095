import AstroTemplate.Astro.Note
import AstroTemplate.Markup.Template
import AstroTemplate.Page.Detection
import AstroTemplate.Page.Frontmatter

set_option autoImplicit false

/-! # Converting a page

`convert?` converts the template of a page and leaves its frontmatter as it is. A text that is no
page, or whose template has nothing to convert, is left alone. Pages are known by the extension
of their module id, which may carry a query behind a question mark.
-/

namespace AstroTemplate

/-- The result of a conversion. -/
structure Conversion where
  /-- The frontmatter, the generated template, and a line break after each. -/
  code : List Char
  /-- What is wrong with the template; spans count from the beginning of the template. -/
  errors : List ParseError
  /-- The offset of the template in the page. -/
  bodyOffset : Nat
  /-- The notes on generation. -/
  notes : List Note
  deriving DecidableEq, Repr

/-- Converts a page. -/
def convert? (mode : WhitespaceMode) (code : List Char) : Option Conversion :=
  (Page.split? code).bind fun page =>
    if needsConversion page.body then
      let template := Template.read mode page.body
      some ⟨page.block ++ '\n' :: trimEnd (generate template.nodes) ++ ['\n'], template.errors,
        page.bodyOffset, generationNotes template.nodes⟩
    else none

/-- The extension of pages. -/
def pageExtension : List Char := ".astro".toList

/-- Whether `s` ends with `p`. -/
def endsWith (p s : List Char) : Bool := (beforeSuffix? p s).isSome

/-- A module id without its query. -/
def stripQuery (id : List Char) : List Char := id.takeWhile (· != '?')

/-- Whether a module id is that of a page. -/
def isPageId (id : List Char) : Bool := endsWith pageExtension (stripQuery id)

/-- Converts a module if it is a page. -/
def convertModule? (code id : List Char) : Option Conversion :=
  if isPageId id then convert? .condense code else none

end AstroTemplate
