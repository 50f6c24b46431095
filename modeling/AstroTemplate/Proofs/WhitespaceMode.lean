import AstroTemplate.Proofs.Steps

set_option autoImplicit false

/-! # White space is condensed after reading

What becomes of white space is decided while elements are closed. It could as well be decided
afterwards: the template read with condensed white space is the template read with all of its white
space, condensed from the innermost elements out (`Template.read_condense`). Nothing else depends
on the mode, the errors least of all.

A reader that keeps white space is turned into one that condenses it by condensing the elements it
has already closed (`Reader.condensed`). This commutes with each step, and so with a whole run.
-/

namespace AstroTemplate

/-! ## Condensing a tree -/

mutual

/-- The node with white space condensed in all of its elements. Raw text is kept, and so is all that
stands in a preformatted element. -/
def Node.condensed : Node → Node
  | .text span data blank => .text span data blank
  | .interpolation span inner expression => .interpolation span inner expression
  | .comment span data => .comment span data
  | .element tag children =>
    .element tag
      (if isRawTextElement tag.name || isPreformatted tag.name then children
        else condense (Node.allCondensed children))

/-- Siblings with white space condensed in all of their elements. -/
def Node.allCondensed : List Node → List Node
  | [] => []
  | node :: rest => node.condensed :: Node.allCondensed rest

end

theorem Node.allCondensed_eq_map (nodes : List Node) :
    Node.allCondensed nodes = nodes.map Node.condensed := by
  induction nodes with
  | nil => rfl
  | cons node nodes ih => rw [Node.allCondensed, ih, List.map_cons]

/-- Nothing changes in an element without children. -/
theorem Node.condensed_childless (tag : Tag) :
    (Node.element tag []).condensed = .element tag [] := by
  rw [Node.condensed, Node.allCondensed]
  split <;> rfl

theorem Node.condensed_rawText {tag : Tag} (h : isRawTextElement tag.name = true)
    (children : List Node) : (Node.element tag children).condensed = .element tag children := by
  rw [Node.condensed, h]
  rfl

/-! ## Condensing what is being read -/

/-- Whether a preformatted element is open. -/
def inPreformatted (outer : List OpenElement) : Bool := outer.any fun e => isPreformatted e.name

/-- Siblings in the innermost of the open elements, with white space condensed in their elements. -/
def condensedIn (outer : List OpenElement) (nodes : List Node) : List Node :=
  if inPreformatted outer then nodes else nodes.map Node.condensed

def condensedStack : List OpenElement → List OpenElement
  | [] => []
  | e :: outer => { e with before := condensedIn outer e.before } :: condensedStack outer

/-- The reader that has read the same and condenses white space. -/
def Reader.condensed (r : Reader) : Reader :=
  { r with nodes := condensedIn r.stack r.nodes, stack := condensedStack r.stack }

theorem condensedIn_nil (outer : List OpenElement) : condensedIn outer [] = [] := by
  unfold condensedIn
  split <;> rfl

theorem condensedIn_cons {node : Node} (h : node.condensed = node) (outer : List OpenElement)
    (nodes : List Node) : condensedIn outer (node :: nodes) = node :: condensedIn outer nodes := by
  unfold condensedIn
  split
  · rfl
  · rw [List.map_cons, h]

theorem condensedIn_text (outer : List OpenElement) (span : Span) (data : List Char) (blank : Bool)
    (nodes : List Node) :
    condensedIn outer (.text span data blank :: nodes)
      = .text span data blank :: condensedIn outer nodes :=
  condensedIn_cons rfl outer nodes

/-- Nodes stay of their sort. -/
theorem sort_head_condensedIn (outer : List OpenElement) (nodes : List Node) :
    (condensedIn outer nodes).head?.map Node.sort = nodes.head?.map Node.sort := by
  unfold condensedIn
  split
  · rfl
  · rcases nodes with - | ⟨node, nodes⟩
    · rfl
    · cases node <;> rfl

/-- The elements that are open have the same names. -/
theorem any_condensedStack (p : List Char → Bool) (stack : List OpenElement) :
    ((condensedStack stack).any fun e => p e.name) = stack.any fun e => p e.name := by
  induction stack with
  | nil => rfl
  | cons e outer ih => rw [condensedStack, List.any_cons, List.any_cons, ih]

theorem finishSiblings_condensedStack (outer : List OpenElement) (nodes : List Node) :
    finishSiblings .condense (condensedStack outer) nodes
      = if inPreformatted outer then nodes else condense nodes := by
  have hall : (condensedStack outer).all (fun e => !isPreformatted e.name)
      = !inPreformatted outer := by
    rw [← List.not_any_eq_all_not, any_condensedStack]
    rfl
  rw [finishSiblings, hall]
  cases inPreformatted outer <;> rfl

/-- To condense white space when an element is closed is to condense it in the closed element. -/
theorem condensedIn_close {e : OpenElement} (h : isRawTextElement e.name = false)
    (outer : List OpenElement) (stop : Nat) (nodes : List Node) :
    condensedIn outer (e.close stop (e.finishChildren .preserve outer nodes.reverse) :: e.before)
      = e.close stop (e.finishChildren .condense (condensedStack outer)
          (condensedIn (e :: outer) nodes).reverse) :: condensedIn outer e.before := by
  have hin : inPreformatted (e :: outer) = (isPreformatted e.name || inPreformatted outer) := rfl
  have hpreserve : finishSiblings .preserve outer nodes.reverse = nodes.reverse := if_neg (by simp)
  unfold OpenElement.finishChildren condensedIn
  rw [hin, hpreserve, finishSiblings_condensedStack]
  -- by whether the element is preformatted, and whether it stands in one that is
  cases hpre : isPreformatted e.name with
  | true =>
      cases inPreformatted outer
      · simp [OpenElement.close, Node.condensed, hpre]
      · simp
  | false =>
      cases inPreformatted outer
      · simp [OpenElement.close, Node.condensed, hpre, h, Node.allCondensed_eq_map]
      · simp

namespace Reader

variable {r : Reader}

@[simp] theorem condensed_cursor (r : Reader) : r.condensed.cursor = r.cursor := rfl

theorem condensed_stack_cons {e : OpenElement} {outer : List OpenElement}
    (hstack : r.stack = e :: outer) :
    r.condensed.stack
      = { e with before := condensedIn outer e.before } :: condensedStack outer := by
  rw [condensed, hstack]
  rfl

theorem condensed_push {node : Node} (h : node.condensed = node) (next : Cursor) :
    (r.push node next).condensed = r.condensed.push node next := by
  simp only [condensed, push, condensedIn_cons h]

theorem condensed_pushText (r : Reader) (data : List Char) (next : Cursor) :
    (r.pushText data next).condensed = r.condensed.pushText data next := by
  -- a text before it is the same in both readers, since condensing changes elements only
  by_cases htext : r.nodes.head?.map Node.sort = some .text
  · obtain ⟨cursor, nodes, stack, errors⟩ := r
    rcases nodes with - | ⟨node, older⟩
    · cases htext
    · cases node with
      | text before old blank =>
          simp only [condensed, condensedIn_text, pushText, push]
          split <;> simp only [condensedIn_text]
      | interpolation => cases htext
      | comment => cases htext
      | element => cases htext
  · have htext' : r.condensed.nodes.head?.map Node.sort ≠ some .text := by
      rw [condensed, sort_head_condensedIn]
      exact htext
    rw [pushText_eq_push htext, pushText_eq_push htext', condensed_push rfl]
    rfl

/-- No element of raw text is open: these are read in one go. -/
def OpensNoRawText (r : Reader) : Prop := ∀ e ∈ r.stack, isRawTextElement e.name = false

theorem OpensNoRawText.step {mode : WhitespaceMode} (h : r.OpensNoRawText) :
    (r.step mode).OpensNoRawText := by
  apply step_cases (P := OpensNoRawText)
  case done =>
    intro _ _
    exact h
  case text =>
    intro _
    rw [OpensNoRawText, readText, pushText_stack]
    exact h
  case comment =>
    intro _
    unfold OpensNoRawText readComment
    simp only
    split <;> exact h
  case interpolation =>
    intro _
    unfold OpensNoRawText readInterpolation
    simp only
    split
    · exact h
    · rw [pushText_stack]
      exact h
  case element =>
    intro _ _
    unfold OpensNoRawText readElement
    simp only
    split
    · exact h
    · split
      · exact h
      · -- the one case in which an element is opened
        rename_i hraw
        intro e he
        rcases List.mem_cons.1 he with rfl | he
        · simpa using hraw
        · exact h e he
  case skip =>
    intro _ _
    exact h
  case close =>
    intro _ e outer hstack _ f hf
    exact h f (hstack ▸ List.mem_cons_of_mem e hf)
  case abandon =>
    intro e outer hstack _ f hf
    exact h f (hstack ▸ List.mem_cons_of_mem e hf)

theorem condensed_closeElement {e : OpenElement} {outer : List OpenElement}
    (h : isRawTextElement e.name = false) (hstack : r.stack = e :: outer) :
    (r.closeElement .preserve e outer).condensed
      = r.condensed.closeElement .condense { e with before := condensedIn outer e.before }
          (condensedStack outer) := by
  have hclose := condensedIn_close h outer r.cursor.readClosingTag.next.offset r.nodes
  simp only [closeElement, condensed, report, hstack, hclose]
  rfl

theorem condensed_abandonElement {e : OpenElement} {outer : List OpenElement}
    (h : isRawTextElement e.name = false) (hstack : r.stack = e :: outer) :
    (r.abandonElement .preserve e outer).condensed
      = r.condensed.abandonElement .condense { e with before := condensedIn outer e.before }
          (condensedStack outer) := by
  have hclose := condensedIn_close h outer r.cursor.offset r.nodes
  simp only [abandonElement, condensed, report, hstack, hclose]
  rfl

theorem condensed_readElement (r : Reader) : r.readElement.condensed = r.condensed.readElement := by
  show r.readElement.condensed
    = { r with nodes := condensedIn r.stack r.nodes, stack := condensedStack r.stack }.readElement
  unfold readElement
  simp only [report_cursor]
  split
  · exact condensed_push (Node.condensed_childless _) _
  · split
    · rename_i hraw
      exact condensed_push (Node.condensed_rawText hraw _) _
    · simp only [condensed, condensedIn_nil]
      rfl

theorem condensed_skipClosingTag (r : Reader) :
    r.skipClosingTag.condensed = r.condensed.skipClosingTag := by
  obtain ⟨cursor, nodes, stack, errors⟩ := r
  cases stack <;> rfl

theorem condensed_readClosing (h : r.OpensNoRawText) :
    (r.readClosing .preserve).condensed = r.condensed.readClosing .condense := by
  have hskip := condensed_skipClosingTag r
  unfold readClosing
  cases hstack : r.stack with
  | nil =>
      have hnil : r.condensed.stack = [] := by rw [condensed, hstack]; rfl
      rw [hnil]
      exact hskip
  | cons e outer =>
      have hraw := h e (hstack ▸ List.mem_cons_self)
      have hany := any_condensedStack (sameName · r.cursor.closingName) outer
      rw [condensed_stack_cons hstack]
      by_cases hsame : sameName e.name r.cursor.closingName = true
      · simp only [if_pos hsame]
        exact (condensed_closeElement hraw hstack).trans (if_pos hsame).symm
      · simp only [if_neg hsame]
        refine Eq.trans ?_ (if_neg hsame).symm
        by_cases houter : outer.any (sameName ·.name r.cursor.closingName) = true
        · rw [if_pos houter]
          exact (condensed_abandonElement hraw hstack).trans (if_pos (hany.trans houter)).symm
        · rw [if_neg houter]
          exact hskip.trans (if_neg (hany ▸ houter)).symm

/-- A step of a reader that condenses white space. -/
theorem condensed_step (h : r.OpensNoRawText) :
    (r.step .preserve).condensed = r.condensed.step .condense := by
  have htext := condensed_pushText r
  unfold step
  rw [condensed_cursor]
  cases r.cursor.kind
  case endOfFile =>
    cases hstack : r.stack with
    | nil =>
        have hnil : r.condensed.stack = [] := by rw [condensed, hstack]; rfl
        rw [hnil]
    | cons e outer =>
        have hraw := h e (hstack ▸ List.mem_cons_self)
        rw [condensed_stack_cons hstack]
        exact condensed_abandonElement hraw hstack
  case closingTagOpen => exact condensed_readClosing h
  case commentOpen =>
    simp only [readComment, condensed_cursor]
    split
    · exact condensed_push rfl _
    · exact condensed_push rfl _
  case mustacheOpen =>
    simp only [readInterpolation, condensed_cursor]
    split
    · exact condensed_push rfl _
    · exact condensed_pushText _ _ _
  case tagOpen =>
    simp only
    split
    · exact condensed_readElement r
    · exact htext _ _
  all_goals exact htext _ _

theorem isDone_condensed (r : Reader) : r.condensed.isDone = r.isDone := by
  obtain ⟨cursor, nodes, stack, errors⟩ := r
  cases stack <;> rfl

/-- A whole run of a reader that condenses white space. -/
theorem condensed_run (h : r.OpensNoRawText) :
    (r.run .preserve).condensed = r.condensed.run .condense := by
  fun_induction run .preserve r with
  | case1 r hdone =>
      rw [run_of_isDone]
      rw [isDone_condensed, hdone]
  | case2 r hdone _ ih =>
      calc ((r.step .preserve).run .preserve).condensed
        _ = (r.step .preserve).condensed.run .condense := ih h.step
        _ = (r.condensed.step .condense).run .condense := by rw [condensed_step h]
        _ = r.condensed.run .condense := run_step .condense r.condensed

end Reader

/-! ## The whole source -/

/-- **What becomes of white space is decided after reading.** The two modes find the same errors.
With condensed white space one gets what one gets without, condensed from the innermost elements
out; raw text and all that stands in preformatted elements stays as it is. -/
theorem Template.read_condense (source : List Char) :
    (Template.read .condense source).errors = (Template.read .preserve source).errors ∧
      (Template.read .condense source).nodes
        = condense (Node.allCondensed (Template.read .preserve source).nodes) ∧
      (Template.read .condense source).span = (Template.read .preserve source).span := by
  have hstart : (Reader.ofSource source).condensed = .ofSource source := by
    rw [Reader.condensed]
    rfl
  have hrun : ((Reader.ofSource source).run .preserve).condensed
      = (Reader.ofSource source).run .condense := by
    have := Reader.condensed_run (r := .ofSource source) (by rintro e ⟨⟩)
    rwa [hstart] at this
  obtain ⟨-, hstack⟩ := Reader.isDone_iff.1 (Reader.run_isDone .preserve (.ofSource source))
  have hnodes : ((Reader.ofSource source).run .condense).nodes
      = ((Reader.ofSource source).run .preserve).nodes.map Node.condensed := by
    rw [← hrun, Reader.condensed, hstack]
    rfl
  refine ⟨?_, ?_, rfl⟩
  · rw [Template.read, Template.read, ← hrun]
    rfl
  · rw [Template.read, Template.read, hnodes, Node.allCondensed_eq_map, ← List.map_reverse]
    rfl

end AstroTemplate
