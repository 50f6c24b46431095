import AstroTemplate.Text.Bytes
import AstroTemplate.Text.Search

set_option autoImplicit false

/-! # Lines and columns

A `LineIndex` knows where each line of a text begins. Lines end after a line feed, lines and
columns count from one, and columns count bytes. `sourceLines` splits a text for display: a
carriage return before the line feed belongs to the line end, and nothing follows a last line
feed.
-/

namespace AstroTemplate

/-- A position for a reader: line and column, both counted from one. -/
structure LineCol where
  line : Nat
  column : Nat
  deriving DecidableEq, Repr

/-- The offsets at which the lines of a text begin, and the length of the text in bytes. -/
structure LineIndex where
  starts : List Nat
  length : Nat
  deriving DecidableEq, Repr

/-- The offsets just past each line feed of a text that begins at `offset`. -/
def startsAfterBreaks (offset : Nat) : List Char → List Nat
  | [] => []
  | c :: cs =>
    let next := offset + c.utf8Size
    if c = '\n' then next :: startsAfterBreaks next cs else startsAfterBreaks next cs

theorem lt_of_mem_startsAfterBreaks {offset start : Nat} {s : List Char}
    (h : start ∈ startsAfterBreaks offset s) : offset < start := by
  induction s generalizing offset with
  | nil => cases h
  | cons c s ih =>
    have hpos := c.utf8Size_pos
    rw [startsAfterBreaks] at h
    split at h
    · rcases List.mem_cons.1 h with rfl | h
      · omega
      · have := ih h
        omega
    · have := ih h
      omega

theorem pairwise_startsAfterBreaks (offset : Nat) (s : List Char) :
    (startsAfterBreaks offset s).Pairwise (· < ·) := by
  induction s generalizing offset with
  | nil => exact .nil
  | cons c s ih =>
    rw [startsAfterBreaks]
    split
    · exact .cons (fun _ => lt_of_mem_startsAfterBreaks) (ih _)
    · exact ih _

namespace LineIndex

def ofText (text : List Char) : LineIndex :=
  ⟨0 :: startsAfterBreaks 0 text, byteLength text⟩

/-- The number of lines, the empty one after a last line feed included. -/
def lineCount (index : LineIndex) : Nat := index.starts.length

/-- The line and column of an offset; an offset past the end of the text has none. -/
def lineCol? (index : LineIndex) (offset : Nat) : Option LineCol :=
  if offset > index.length then none
  else
    let upTo := index.starts.takeWhile (· ≤ offset)
    some ⟨upTo.length, offset - upTo.getLastD 0 + 1⟩

/-- The lines of a text begin one after another. -/
theorem pairwise_starts (text : List Char) : (ofText text).starts.Pairwise (· < ·) :=
  .cons (fun _ => lt_of_mem_startsAfterBreaks) (pairwise_startsAfterBreaks 0 text)

/-- The starts up to an offset are the first ones, so that they may be searched for in any order. -/
theorem filter_starts (text : List Char) (offset : Nat) :
    (ofText text).starts.filter (· ≤ offset) = (ofText text).starts.takeWhile (· ≤ offset) := by
  have hstarts := pairwise_starts text
  generalize (ofText text).starts = starts at hstarts ⊢
  induction starts with
  | nil => rfl
  | cons start starts ih =>
    obtain ⟨hlt, hrest⟩ := List.pairwise_cons.1 hstarts
    by_cases hle : start ≤ offset
    · rw [List.filter_cons_of_pos (by simpa using hle), ih hrest,
        List.takeWhile_cons_of_pos (by simpa using hle)]
    · have hnone : ∀ later ∈ start :: starts, ¬ decide (later ≤ offset) = true := by
        intro later hlater
        rcases List.mem_cons.1 hlater with rfl | hlater
        · simpa using hle
        · have := hlt later hlater
          simp
          omega
      rw [List.filter_eq_nil_iff.2 hnone, List.takeWhile_cons_of_neg (by simpa using hle)]

/-- The offset at which a line begins. -/
def lineStart? (index : LineIndex) : Nat → Option Nat
  | 0 => none
  | line + 1 => index.starts[line]?

end LineIndex

/-- The text `line` without the carriage return at its end. -/
def dropCarriageReturn (line : List Char) : List Char :=
  if line.getLast? = some '\r' then line.dropLast else line

/-- The lines of a text as they are shown, without their line ends. -/
def sourceLines (text : List Char) : List (List Char) :=
  let pieces := splitAtChar '\n' text
  let last := pieces.getLastD []
  pieces.dropLast.map dropCarriageReturn ++ (if last.isEmpty then [] else [last])

end AstroTemplate
