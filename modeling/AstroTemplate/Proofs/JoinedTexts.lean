import AstroTemplate.Proofs.CondensedSiblings
import AstroTemplate.Proofs.LiteralText

set_option autoImplicit false

/-! # Texts are joined where nothing lies between them

A text that the reader adds is joined to the text before it if the two touch. They fail to touch
only if a closing tag between them was skipped, which is reported. So in a template without such
reports no two texts stand next to each other, in any list of siblings and either white space mode:
the lists that are condensed have what `condense` asks for.

The invariant is that the last text read ends at the cursor (`Reader.Joined`). Every step keeps it,
except for the one that skips a closing tag.
-/

namespace AstroTemplate

/-- Whether the error is about a closing tag that belongs to no open element and was skipped. -/
def ParseError.isSkippedTag (e : ParseError) : Bool :=
  match e.kind with
  | .strayClosingTag _ | .mismatchedClosingTag _ _ => true
  | _ => false

/-! ## Finished siblings -/

theorem TextsApart.reverse {nodes : List Node} (h : TextsApart nodes) :
    TextsApart nodes.reverse :=
  List.isChain_reverse.2 (h.imp fun _ _ hapart hlater hearlier => hapart hearlier hlater)

theorem TextsApart.dropLeadingBreak {nodes : List Node} (h : TextsApart nodes) :
    TextsApart (dropLeadingBreak nodes) := by
  unfold AstroTemplate.dropLeadingBreak
  split
  · split
    · exact h.tail
    · obtain ⟨hfirst, hrest⟩ := List.isChain_cons.1 h
      exact List.isChain_cons.2 ⟨fun next hnext _ => hfirst next hnext rfl, hrest⟩
  · exact h

theorem TextsApart.finishSiblings {nodes : List Node} (h : TextsApart nodes)
    (mode : WhitespaceMode) (outer : List OpenElement) :
    TextsApart (finishSiblings mode outer nodes) := by
  unfold AstroTemplate.finishSiblings
  split
  · exact h.condenseAfter none
  · exact h

theorem TextsApart.finishChildren {nodes : List Node} (h : TextsApart nodes)
    (mode : WhitespaceMode) (e : OpenElement) (outer : List OpenElement) :
    TextsApart (e.finishChildren mode outer nodes) := by
  unfold OpenElement.finishChildren
  split
  · exact h.dropLeadingBreak
  · exact h.finishSiblings mode outer

/-- No two texts stand next to each other directly inside the node. -/
def Node.ApartInside : Node → Prop
  | .element _ children => TextsApart children
  | _ => True

theorem Node.apartInside_leaf {node : Node} (h : node.sort ≠ .element) :
    ∀ n ∈ node.family, n.ApartInside := by
  intro n hn
  cases node with
  | element => exact absurd rfl h
  | text => rw [List.mem_singleton.1 hn]; trivial
  | interpolation => rw [List.mem_singleton.1 hn]; trivial
  | comment => rw [List.mem_singleton.1 hn]; trivial

/-! ## While a template is read -/

/-- No two texts that have been read stand next to each other, and the last node, if it is a text,
ends at the cursor. -/
structure Reader.Joined (r : Reader) : Prop where
  inside : ∀ n ∈ Node.all r.siblings, n.ApartInside
  nodes : TextsApart r.nodes
  before : ∀ e ∈ r.stack, TextsApart e.before
  touches : ∀ n ∈ r.nodes.head?, n.sort = .text → n.span.stop = min r.cursor.offset maxOffset

namespace Reader

variable {mode : WhitespaceMode} {r : Reader} {next : Cursor}

/-- One more node that is no text. -/
theorem Joined.add {node : Node} (errors : List ParseError) (next : Cursor) (h : r.Joined)
    (hsort : node.sort ≠ .text) (hinside : ∀ n ∈ node.family, n.ApartInside) :
    ((r.report errors).push node next).Joined where
  inside := Node.forall_all_cons.2 ⟨hinside, h.inside⟩
  nodes := List.isChain_cons.2 ⟨fun _ _ htext => absurd htext hsort, h.nodes⟩
  before := h.before
  touches := by
    intro n hn htext
    obtain rfl := Option.some.inj hn
    exact absurd htext hsort

/-- Text is joined to the text before it, which it touches. -/
theorem Joined.pushText {data : List Char} (errors : List ParseError) (h : r.Joined)
    (hreach : r.cursor.Reaches next) : ((r.report errors).pushText data next).Joined := by
  have hle := hreach.offset_le
  have hcursor := (r.report errors).pushText_cursor data next
  have hstack := (r.report errors).pushText_stack data next
  have hstart : (r.cursor.spanTo next).start = min r.cursor.offset maxOffset := rfl
  have hstop : (r.cursor.spanTo next).stop = min next.offset maxOffset := rfl
  rcases (r.report errors).pushText_nodes data next with
    ⟨hnew, hapart⟩ | ⟨before, old, blank, older, hold, htouch, hnew⟩
  · refine ⟨?_, ?_, hstack ▸ h.before, ?_⟩
    · rw [siblings, hnew, hstack]
      exact Node.forall_all_cons.2 ⟨Node.forall_family_text trivial, h.inside⟩
    · rw [hnew]
      refine List.isChain_cons.2 ⟨fun earlier hearlier _ hsort => ?_, h.nodes⟩
      exact hapart earlier hearlier hsort (h.touches earlier hearlier hsort)
    · rw [hnew, hcursor]
      intro n hn _
      obtain rfl := Option.some.inj hn
      exact hstop
  · have hinside := h.inside
    have hnodes := h.nodes
    rw [siblings, show r.nodes = .text before old blank :: older from hold] at hinside
    rw [show r.nodes = .text before old blank :: older from hold] at hnodes
    obtain ⟨hfirst, hrest⟩ := List.isChain_cons.1 hnodes
    refine ⟨?_, ?_, hstack ▸ h.before, ?_⟩
    · rw [siblings, hnew, hstack]
      exact Node.forall_all_cons.2
        ⟨Node.forall_family_text trivial, (Node.forall_all_cons.1 hinside).2⟩
    · rw [hnew]
      exact List.isChain_cons.2 ⟨fun earlier hearlier _ => hfirst earlier hearlier rfl, hrest⟩
    · rw [hnew, hcursor]
      intro n hn _
      obtain rfl := Option.some.inj hn
      show max before.stop (r.cursor.spanTo next).stop = min next.offset maxOffset
      rw [htouch, report_cursor, hstart, hstop]
      omega

theorem Joined.readComment (h : r.Joined) : r.readComment.Joined := by
  have hcomment : ∀ span data, ∀ n ∈ (Node.comment span data).family, n.ApartInside :=
    fun _ _ => Node.apartInside_leaf (by simp [Node.sort])
  unfold Reader.readComment
  simp only
  split
  · exact h.add [] _ (by simp [Node.sort]) (hcomment _ _)
  · exact h.add _ _ (by simp [Node.sort]) (hcomment _ _)

theorem Joined.readInterpolation (h : r.Joined) : r.readInterpolation.Joined := by
  unfold Reader.readInterpolation
  simp only
  split
  · exact h.add [] _ (by simp [Node.sort]) (Node.apartInside_leaf (by simp [Node.sort]))
  · exact h.pushText _ (r.cursor.over_drop 2).reaches

theorem Joined.readElement (h : r.Joined) : r.readElement.Joined := by
  unfold Reader.readElement
  simp only [report_cursor]
  -- an element without content, one of raw text, or one that is opened and read further
  split
  · exact h.add _ _ (by simp [Node.sort])
      (Node.forall_family_element List.isChain_nil (List.forall_mem_nil _))
  · split
    · obtain ⟨content, last, -, hvalue, -⟩ := (readStartTag r.cursor).next.readRawText_cases
        (readStartTag r.cursor).value.name (r.cursor.spanTo (readStartTag r.cursor).next)
      rw [report_report, hvalue, Cursor.rawNodes]
      refine h.add _ _ (by simp [Node.sort]) ?_
      split
      · exact Node.forall_family_element List.isChain_nil (List.forall_mem_nil _)
      · exact Node.forall_family_element (List.isChain_singleton _) (Node.forall_all_cons.2
          ⟨Node.forall_family_text trivial, List.forall_mem_nil _⟩)
    · exact ⟨h.inside, List.isChain_nil, List.forall_mem_cons.2 ⟨h.nodes, h.before⟩, by simp⟩

/-- To close the innermost open element makes a node of what was read. -/
theorem Joined.close {e : OpenElement} {outer : List OpenElement} (errors : List ParseError)
    (next : Cursor) (h : r.Joined) (hstack : r.stack = e :: outer) :
    Reader.Joined
      { r.report errors with
        cursor := next
        nodes := e.close next.offset (e.finishChildren mode outer r.nodes.reverse) :: e.before
        stack := outer } := by
  have hsiblings : r.siblings = r.nodes ++ (e.before ++ outer.flatMap OpenElement.before) := by
    rw [siblings, hstack, List.flatMap_cons]
  have hinside : ∀ n ∈ Node.all r.nodes.reverse, n.ApartInside := fun n hn =>
    h.inside n (Node.all_subset
      (hsiblings ▸ List.reverse_subset.2 (List.subset_append_left _ _)) hn)
  have houtside : ∀ n ∈ Node.all (e.before ++ outer.flatMap OpenElement.before), n.ApartInside :=
    fun n hn => h.inside n (Node.all_subset (hsiblings ▸ List.subset_append_right _ _) hn)
  have hchildren := h.nodes.reverse.finishChildren mode e outer
  obtain ⟨hbefore, houter⟩ := List.forall_mem_cons.1 (hstack ▸ h.before)
  refine ⟨Node.forall_all_cons.2 ⟨?_, houtside⟩, ?_, houter, ?_⟩
  · exact Node.forall_family_element hchildren
      (forall_all_finishChildren (fun _ _ _ => trivial) mode e outer hinside)
  · refine List.isChain_cons.2 ⟨fun _ _ htext => ?_, hbefore⟩
    cases htext
  · intro n hn htext
    obtain rfl := Option.some.inj hn
    cases htext

/-- A closing tag that belongs to no open element has been skipped. -/
def HasSkipped (r : Reader) : Prop := ∃ e ∈ r.errors, e.isSkippedTag = true

theorem HasSkipped.of_subset {r' : Reader} (h : r.HasSkipped) (hsub : r.errors ⊆ r'.errors) :
    r'.HasSkipped := by
  obtain ⟨e, he, hskipped⟩ := h
  exact ⟨e, hsub he, hskipped⟩

theorem hasSkipped_skipClosingTag (r : Reader) : r.skipClosingTag.HasSkipped := by
  refine ⟨_, List.mem_append_left _ (List.mem_reverse.2 List.mem_cons_self), ?_⟩
  unfold ParseError.isSkippedTag
  cases r.stack with
  | nil => rfl
  | cons e outer => rfl

/-- No report is ever taken back. -/
theorem errors_subset_step (mode : WhitespaceMode) (r : Reader) :
    r.errors ⊆ (r.step mode).errors := by
  have hreport : ∀ errors, r.errors ⊆ (r.report errors).errors :=
    fun errors => List.subset_append_right _ _
  apply step_cases (P := fun next => r.errors ⊆ next.errors)
  case done => exact fun _ _ => List.Subset.refl _
  case text => exact fun _ => by rw [Reader.readText, pushText_errors]; exact List.Subset.refl _
  case comment =>
    intro _
    unfold Reader.readComment
    simp only
    split
    · exact List.Subset.refl _
    · exact hreport _
  case interpolation =>
    intro _
    unfold Reader.readInterpolation
    simp only
    split
    · exact List.Subset.refl _
    · rw [pushText_errors]
      exact hreport _
  case element =>
    intro _ _
    unfold Reader.readElement
    simp only
    split
    · exact hreport _
    · split
      · rw [report_report]
        exact hreport _
      · exact hreport _
  case skip => exact fun _ _ => hreport _
  case close => exact fun _ e outer _ _ => hreport _
  case abandon => exact fun e outer _ _ => hreport _

/-- A step joins texts, or it skips a closing tag. -/
theorem Joined.step (h : r.Joined) : (r.step mode).HasSkipped ∨ (r.step mode).Joined := by
  apply step_cases (P := fun next => next.HasSkipped ∨ next.Joined)
  case done => exact fun _ _ => .inr h
  case text => exact fun _ => .inr (h.pushText [] r.cursor.over_text.reaches)
  case comment => exact fun _ => .inr h.readComment
  case interpolation => exact fun _ => .inr h.readInterpolation
  case element => exact fun _ _ => .inr h.readElement
  case skip => exact fun _ _ => .inl r.hasSkipped_skipClosingTag
  case close => exact fun _ e outer hstack _ => .inr (h.close _ _ hstack)
  case abandon => exact fun e outer hstack _ => .inr (h.close _ r.cursor hstack)

theorem joined_run (mode : WhitespaceMode) (source : List Char) :
    ((ofSource source).run mode).HasSkipped ∨ ((ofSource source).run mode).Joined := by
  refine run_induction (P := fun r => r.HasSkipped ∨ r.Joined) (fun r _ h => ?_) _ (.inr ?_)
  · rcases h with hskipped | hjoined
    · exact .inl (hskipped.of_subset (r.errors_subset_step mode))
    · exact hjoined.step
  · exact ⟨List.forall_mem_nil _, List.isChain_nil, List.forall_mem_nil _, by simp [ofSource]⟩

end Reader

/-! ## Templates -/

/-- Where no closing tag was skipped, no two texts stand next to each other. -/
theorem Template.textsApart_of_hasSiblings {mode : WhitespaceMode} {source : List Char}
    (herrors : ∀ e ∈ (Template.read mode source).errors, e.isSkippedTag = false)
    {parent : Option Tag} {siblings : List Node}
    (h : (Template.read mode source).HasSiblings parent siblings) : TextsApart siblings := by
  have hjoined : ((Reader.ofSource source).run mode).Joined := by
    refine (Reader.joined_run mode source).resolve_left ?_
    rintro ⟨e, he, hskipped⟩
    rw [herrors e (List.mem_reverse.2 he)] at hskipped
    cases hskipped
  cases parent with
  | none =>
      obtain rfl : siblings = _ := h
      exact hjoined.nodes.reverse.finishSiblings mode []
  | some tag =>
      have hinside : ∀ n ∈ Node.all (Template.read mode source).nodes, n.ApartInside :=
        forall_all_finishSiblings (fun _ _ _ => trivial) mode [] fun n hn =>
          hjoined.inside n
            (Node.all_subset (List.reverse_subset.2 (List.subset_append_left _ _)) hn)
      exact hinside _ h

/-- **Condensing loses only white space.** Let no two of some siblings be texts next to each other.
To condense them twice is to condense them once. What is no text stays, in its order, and so do the
characters of the texts that are no white space. Neither the first nor the last of the condensed
siblings is blank, and the white space in their texts is single spaces. A blank text becomes one
space if something stands on both sides of it, unless that is two comments, a comment and an
element, or two elements between which the text breaks the line; otherwise it goes. Either way what
stands before it and after it is condensed as if on its own.

The siblings of a template are such siblings, unless it was reported that a closing tag was
skipped. -/
theorem condense_loses_only_space :
    (∀ nodes : List Node, TextsApart nodes →
      condense (condense nodes) = condense nodes ∧
      (condense nodes).filter (·.sort ≠ .text) = nodes.filter (·.sort ≠ .text) ∧
      (condense nodes).filterMap Node.ink? = nodes.filterMap Node.ink? ∧
      (∀ n ∈ (condense nodes).head?, n.isBlankText = false) ∧
      (∀ n ∈ (condense nodes).getLast?, n.isBlankText = false) ∧
      (∀ n ∈ condense nodes, n.IsTidy) ∧
      ∀ before span data blank after, nodes = before ++ .text span data blank :: after →
        isTagBlank data = true →
        (KeepsSpace before.getLast? after.head? data →
          condense nodes = condense before ++ .text span [' '] true :: condense after) ∧
        (¬ KeepsSpace before.getLast? after.head? data →
          condense nodes = condense before ++ condense after)) ∧
    ∀ mode source, (∀ e ∈ (Template.read mode source).errors, e.isSkippedTag = false) →
      ∀ parent siblings, (Template.read mode source).HasSiblings parent siblings →
        TextsApart siblings := by
  refine ⟨fun nodes h => ⟨condenseAfter_condenseAfter h none, filter_condense nodes,
    filterMap_condenseAfter Node.filterMap_ink?_remaining none nodes,
    not_isBlankText_head?_condense h, not_isBlankText_getLast?_condense h,
    fun n hn => isTidy_of_mem_condense hn, ?_⟩,
    fun mode source herrors parent siblings hsiblings =>
      Template.textsApart_of_hasSiblings herrors hsiblings⟩
  rintro before span data blank after rfl hblank
  have hparts := condense_append_text (show (Node.text span data blank).sort = .text from rfl) h
  rw [Node.remaining, if_pos hblank] at hparts
  constructor
  · intro hkeeps
    rw [hparts, dropsBlank_eq_false_iff.2 hkeeps, if_neg Bool.false_ne_true, List.singleton_append]
  · intro hdrops
    rw [hparts, if_pos (Bool.not_eq_false _ ▸ mt dropsBlank_eq_false_iff.1 hdrops),
      List.nil_append]

/-- Two elements with a space between them, a line break before a comment, and a broken text. -/
def inlineNodes : List Node :=
  (Template.read .preserve "<b>x</b> <i>y</i>\n<!--c-->\n\t z".toList).nodes

theorem condense_loses_only_space_inline :
    TextsApart inlineNodes ∧ condense (condense inlineNodes) = condense inlineNodes ∧
      condense inlineNodes
        = condense (inlineNodes.take 1)
          ++ .text ⟨8, 9⟩ [' '] true :: condense (inlineNodes.drop 2) := by
  have hapart : TextsApart inlineNodes :=
    condense_loses_only_space.2 .preserve "<b>x</b> <i>y</i>\n<!--c-->\n\t z".toList
      (by decide +kernel) none inlineNodes rfl
  have hkeeps : KeepsSpace (inlineNodes.take 1).getLast? (inlineNodes.drop 2).head? [' '] :=
    dropsBlank_eq_false_iff.1 (by decide +kernel)
  obtain ⟨hagain, -, -, -, -, -, hspace⟩ := condense_loses_only_space.1 inlineNodes hapart
  exact ⟨hapart, hagain, (hspace (inlineNodes.take 1) ⟨8, 9⟩ [' '] true (inlineNodes.drop 2)
    (by decide +kernel) rfl).1 hkeeps⟩

end AstroTemplate
