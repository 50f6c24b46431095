import AstroTemplate.Lint.Meaning
import AstroTemplate.Lint.Structure

set_option autoImplicit false

/-! # Checking a template

All checks of a template, in the order of their places.
-/

namespace AstroTemplate

/-- Which checks to do. -/
structure CheckOptions where
  structural : Bool := true
  meaning : Bool := true
  deriving DecidableEq, Repr

/-- The diagnostics on the nodes of a template. -/
def checkNodes (options : CheckOptions) (nodes : List Node) : List Diagnostic :=
  Diagnostic.sortByPlace
    ((if options.structural then checkStructure nodes else [])
      ++ (if options.meaning then checkMeaning nodes else []))

end AstroTemplate
