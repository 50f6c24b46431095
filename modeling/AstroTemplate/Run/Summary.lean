set_option autoImplicit false

/-! # Summary of a run

What a run over a workspace came to, and whether the run has failed.
-/

namespace AstroTemplate

/-- The counts of a run, and what makes it fail besides errors. -/
structure Summary where
  files : Nat := 0
  converted : Nat := 0
  written : Nat := 0
  errors : Nat := 0
  warnings : Nat := 0
  /-- Whether warnings make the run fail. -/
  failOnWarnings : Bool := false
  /-- Whether files to convert make the run fail. -/
  check : Bool := false
  deriving DecidableEq, Repr

/-- A number of things, with the word for one of them. -/
def countOf (n : Nat) (word : String) : String :=
  toString n ++ " " ++ word ++ (if n = 1 then "" else "s")

namespace Summary

/-- Whether the run has failed. -/
def failed (s : Summary) : Bool :=
  decide (0 < s.errors) || (s.failOnWarnings && decide (0 < s.warnings))
    || (s.check && decide (0 < s.converted))

/-- The summary for a reader. -/
def text (s : Summary) : String :=
  "====================================\nvuecast scanned " ++ countOf s.files "file"
    ++ " (" ++ toString s.converted ++ (if s.check then " to convert" else " converted")
    ++ (if 0 < s.written then ", " ++ toString s.written ++ " written" else "")
    ++ ") and found " ++ countOf s.errors "error" ++ " and " ++ countOf s.warnings "warning"

end Summary

end AstroTemplate
