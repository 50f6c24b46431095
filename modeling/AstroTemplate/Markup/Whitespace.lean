import AstroTemplate.Markup.Node

set_option autoImplicit false

/-! # White space between nodes

In a list of siblings most white space only lays out the source. `condense` removes blank text
at either end of the list, around comments, and between two elements when it breaks the line; it
shrinks all other blank text to one space, and each run of white space inside other text to one
space. Inside `pre` text is kept, but for one line break directly after the start tag, which
`dropLeadingBreak` removes.
-/

namespace AstroTemplate

/-- What becomes of white space. -/
inductive WhitespaceMode where
  | condense
  | preserve
  deriving DecidableEq, Repr

/-- The sort of a node, which is all that its neighbours look at. -/
inductive NodeSort where
  | text
  | interpolation
  | comment
  | element
  deriving DecidableEq, Repr

def Node.sort : Node → NodeSort
  | .text .. => .text
  | .interpolation .. => .interpolation
  | .comment .. => .comment
  | .element .. => .element

/-- The text `s` with each run of white space replaced by one space; `inRun` says that a run has
begun before `s`. -/
def collapseSpaceFrom (inRun : Bool) : List Char → List Char
  | [] => []
  | c :: cs =>
    if isTagSpace c then
      if inRun then collapseSpaceFrom true cs else ' ' :: collapseSpaceFrom true cs
    else c :: collapseSpaceFrom false cs

/-- The text `s` with each run of white space replaced by one space. -/
def collapseSpace (s : List Char) : List Char := collapseSpaceFrom false s

/-- Whether blank text between two neighbours is removed. -/
def dropsBlank (previous next : Option NodeSort) (data : List Char) : Bool :=
  match previous, next with
  | none, _ => true
  | _, none => true
  | some .comment, some .comment => true
  | some .comment, some .element => true
  | some .element, some .comment => true
  | some .element, some .element => data.any fun c => c == '\n' || c == '\r'
  | _, _ => false

/-- What `condense` does for the siblings that follow a node of sort `previous`. -/
def condenseAfter (previous : Option NodeSort) : List Node → List Node
  | [] => []
  | .text span data blank :: rest =>
    let condensed := condenseAfter (some (Node.text span data blank).sort) rest
    if isTagBlank data then
      if dropsBlank previous (rest.head?.map Node.sort) data then condensed
      else .text span [' '] true :: condensed
    else .text span (collapseSpace data) false :: condensed
  | node :: rest => node :: condenseAfter (some node.sort) rest

/-- A list of siblings without the white space that only lays out the source. -/
def condense (nodes : List Node) : List Node := condenseAfter none nodes

/-- A text without the line break it begins with. -/
def dropBreak : List Char → List Char
  | '\r' :: '\n' :: s => s
  | '\n' :: s => s
  | s => s

/-- The text begins with a line break. -/
def StartsWithBreak (t : List Char) : Prop := ['\n'] <+: t ∨ ['\r', '\n'] <+: t

theorem dropBreak_eq_self {t : List Char} (h : ¬ StartsWithBreak t) : dropBreak t = t := by
  unfold dropBreak
  split
  · rename_i s
    exact absurd (.inr (List.prefix_append ['\r', '\n'] s)) h
  · rename_i s
    exact absurd (.inl (List.prefix_append ['\n'] s)) h
  · rfl

/-- What is dropped is the line break that the text begins with. -/
theorem eq_append_dropBreak {t : List Char} (h : StartsWithBreak t) :
    t = ['\n'] ++ dropBreak t ∨ t = ['\r', '\n'] ++ dropBreak t := by
  rcases h with ⟨s, rfl⟩ | ⟨s, rfl⟩
  · exact .inl rfl
  · exact .inr rfl

theorem dropBreak_eq_self_iff {t : List Char} : dropBreak t = t ↔ ¬ StartsWithBreak t := by
  refine ⟨fun heq hbreak => ?_, dropBreak_eq_self⟩
  rcases eq_append_dropBreak hbreak with ht | ht
  all_goals
    have hlength := congrArg List.length (heq.trans ht)
    simp only [List.length_append, List.length_cons, List.length_nil] at hlength
    omega

/-- A list of siblings without the line break it begins with. -/
def dropLeadingBreak : List Node → List Node
  | .text span data blank :: rest =>
    if (dropBreak data).isEmpty then rest else .text span (dropBreak data) blank :: rest
  | nodes => nodes

end AstroTemplate
