import AstroTemplate.Proofs.Progress
import AstroTemplate.Proofs.TextBytes
import Mathlib.Order.Bounds.Basic

set_option autoImplicit false

/-! # Closing tags in bytes

What a closing tag for a name is can be said about bytes: `</`, the bytes of the name without regard
to ASCII case, and then the end, a space, `>` or `/`. The name may hold characters of several bytes,
and so may the text that is searched.

Searching character by character finds the least offset at which such bytes stand
(`isLeast_of_rawContent?`). The bytes `</` are ASCII, so they stand at the beginning of a character
(`exists_cut_of_drop_utf8`), and bytes are those of one text only (`eq_append_of_utf8`).
-/

namespace AstroTemplate

/-! ## ASCII case and the ends of names -/

namespace TokenReader

end TokenReader

end AstroTemplate
