import AstroTemplate.Proofs.LoopSplit

set_option autoImplicit false

/-! # The aliases of a loop

An alias that has no keyword among its words, the first one apart, is what a loop is split off with,
whatever the source is (`Loop.split?_of_words`). If it is a list in parentheses, its entries are
told apart by the commas outside of brackets (`Loop.splitTopLevel_joinWith`): the first is the item,
the second the index, and the others have no counterpart.
-/

namespace AstroTemplate

/-! ## Words -/

/-- The words of a text, which are what stands between blanks. -/
def words (s : List Char) : List (List Char) := (s.splitOnP isBlank).filter (! ·.isEmpty)

namespace Loop

/-- How many more brackets are opened than closed. -/
def netDepth (p : List Char) : Int :=
  (p.countP fun c => c == '(' || c == '[' || c == '\x7b')
    - (p.countP fun c => c == ')' || c == ']' || c == '\x7d')

/-- The depth after `p`, as it is counted: with 32 bits. -/
def countedDepth (p : List Char) : Int32 := .ofInt (netDepth p)

/-- An entry of a list: it closes as many brackets as it opens, and before each of its commas it
does not. Brackets are counted with 32 bits. -/
def IsEntry (p : List Char) : Prop :=
  countedDepth p = 0 ∧ ∀ n < p.length, p[n]? = some ',' → countedDepth (p.take n) ≠ 0

instance instDecidableIsEntry (p : List Char) : Decidable (IsEntry p) :=
  inferInstanceAs (Decidable (countedDepth p = 0 ∧
    ∀ n < p.length, p[n]? = some ',' → countedDepth (p.take n) ≠ 0))

end Loop

end AstroTemplate
