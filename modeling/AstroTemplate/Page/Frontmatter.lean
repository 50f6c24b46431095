import AstroTemplate.Text.Bytes
import AstroTemplate.Markup.Whitespace

set_option autoImplicit false

/-! # Frontmatter

A page begins with a block of code between two fences of three dashes; the template follows it.
The block ends with the first fence at the beginning of a line. One line break after it belongs
to neither part.
-/

namespace AstroTemplate

/-- The fence around the frontmatter. -/
def fence : List Char := "---".toList

/-- A page in its two parts. -/
structure Page where
  /-- The frontmatter with both fences. -/
  block : List Char
  /-- The template. -/
  body : List Char
  /-- The offset of the template in the page. -/
  bodyOffset : Nat
  deriving DecidableEq, Repr

/-- The parts of a page; a text without a closed frontmatter is no page. -/
def Page.split? (code : List Char) : Option Page :=
  (afterPrefix? fence code).bind fun afterFence =>
    (cutAt? ('\n' :: fence) afterFence).map fun (inside, after) =>
      let block := fence ++ inside ++ '\n' :: fence
      ⟨block, dropBreak after, byteLength code - byteLength (dropBreak after)⟩

end AstroTemplate
