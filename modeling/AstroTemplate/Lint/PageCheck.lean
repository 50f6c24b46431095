import AstroTemplate.Lint.Check
import AstroTemplate.Markup.Template
import AstroTemplate.Page.Frontmatter

set_option autoImplicit false

/-! # Checking a page

The diagnostics on the template of a page, the errors in its markup included, in the order of
their places and with the places counted from the beginning of the page.
-/

namespace AstroTemplate

/-- The diagnostics on a page. -/
def pageDiagnostics (source : List Char) : List Diagnostic :=
  match Page.split? source with
  | none => []
  | some page =>
    let template := Template.read .condense page.body
    let diagnostics := template.errors.map .ofParseError ++ checkNodes {} template.nodes
    (Diagnostic.sortByPlace diagnostics).map (·.shift page.bodyOffset)

/-- The notes on checking a page. -/
def pageCheckNotes (source : List Char) : List Note :=
  match Page.split? source with
  | none => []
  | some page => structureNotes (Template.read .condense page.body).nodes

end AstroTemplate
