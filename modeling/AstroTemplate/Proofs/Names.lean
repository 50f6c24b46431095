import AstroTemplate.Proofs.Origins

set_option autoImplicit false

/-! # Names have no white space

White space separates the parts of a tag, so it is in no name: not in the name of a tag, not in that
of an attribute or a directive or in a part of it, and not in a name that an error mentions
(`Template.read_named`, `Template.errors_named`). This holds for sources of any length and in either
mode.
-/

namespace AstroTemplate

/-- A text without white space in the sense of markup. -/
def Unspaced (s : List Char) : Prop := ∀ c ∈ s, isTagSpace c = false

theorem Unspaced.mono {s t : List Char} (h : Unspaced t) (hsub : s ⊆ t) : Unspaced s :=
  fun c hc => h c (hsub hc)

theorem unspaced_takeWhile {p : Char → Bool} (hp : ∀ c, p c = true → isTagSpace c = false)
    (s : List Char) : Unspaced (s.takeWhile p) := fun c hc =>
  hp c (List.all_eq_true.1 List.all_takeWhile c hc)

/-! ## Names that are read -/

theorem unspaced_tagName (c : Cursor) : Unspaced (readStartTag c).value.name := by
  have hname : (readStartTag c).value.name = ((c.drop 1).takeWhile isTagNameChar).1 := by
    unfold readStartTag
    simp only
    split <;> rfl
  rw [hname]
  refine unspaced_takeWhile (fun x hx => ?_) _
  simp only [isTagNameChar, Bool.and_eq_true, Bool.not_eq_true'] at hx
  exact hx.1.1

theorem unspaced_closingName (c : Cursor) : Unspaced c.closingName := by
  refine unspaced_takeWhile (fun x hx => ?_) _
  simp only [endsClosingName, Bool.not_eq_true', Bool.or_eq_false_iff] at hx
  exact hx.1.1

theorem unspaced_propName (c : Cursor) : Unspaced (c.takeWhile isPropNameChar).1 := by
  refine unspaced_takeWhile (fun x hx => ?_) _
  simp only [isPropNameChar, Bool.and_eq_true, Bool.not_eq_true'] at hx
  exact hx.1.1.1

/-- The names of an attribute or a directive: its own, and that of a static argument. -/
def TagProp.names : TagProp → List (List Char)
  | plain a => [a.name]
  | directive d => d.rawName :: d.staticArgument?.toList

theorem unspaced_of_ofName {span : Span} {offset : Nat} {name : List Char} {value : Option Value}
    (hname : Unspaced name) : ∀ s ∈ (TagProp.ofName span offset name value).names, Unspaced s := by
  intro s hs
  cases hprop : TagProp.ofName span offset name value with
  | plain a =>
      rw [hprop] at hs
      unfold TagProp.ofName at hprop
      split at hprop
      · obtain rfl := TagProp.plain.inj hprop
        rwa [List.mem_singleton.1 hs]
      · cases hprop
  | directive d =>
      obtain ⟨parts, argument, hparts, rfl, hsame⟩ := TagProp.exists_of_ofName_eq_directive hprop
      rw [hprop] at hs
      rcases List.mem_cons.1 hs with rfl | hs
      · exact hname
      · -- a static argument is a part of the name
        obtain ⟨a, ha, rfl⟩ := Option.map_eq_some_iff.1 (Option.mem_toList.1 hs)
        have hargument : argument = some a := (Option.filter_eq_some_iff.1 ha).1
        rw [hargument, Option.map_some] at hsame
        obtain ⟨b, hb, hcontent⟩ := Option.map_eq_some_iff.1 hsame.symm
        obtain ⟨before, after, hbefore, -⟩ := DirectiveName.exists_of_read? hparts hb
        refine hname.mono fun c hc => ?_
        rw [hbefore, (Prod.mk.inj hcontent).1]
        exact List.mem_append_right _ (List.mem_append_left _ hc)

theorem TagProp.ReadFrom.unspaced {source : List Char} {prop : TagProp} (h : prop.ReadFrom source) :
    ∀ s ∈ prop.names, Unspaced s := by
  obtain ⟨-, c, -, -, rfl⟩ := h
  obtain ⟨span, value, hprop⟩ := readProp_ofName c
  rw [hprop]
  exact unspaced_of_ofName (unspaced_propName c)

/-! ## While a template is read -/

/-- The names that an error mentions. -/
def ParseErrorKind.names : ParseErrorKind → List (List Char)
  | strayClosingTag found => [found]
  | mismatchedClosingTag expected found => [expected, found]
  | unclosedTag name => [name]
  | _ => []

def ParseError.Named (e : ParseError) : Prop := ∀ name ∈ e.kind.names, Unspaced name

/-- The tag of an element has a name without white space. -/
def Node.Named (node : Node) : Prop := ∀ tag ∈ node.tag?, Unspaced tag.name

theorem ParseError.named_of_isInTag {e : ParseError} (h : e.isInTag = true) : e.Named := by
  obtain ⟨kind, span⟩ := e
  cases kind with
  | strayClosingTag => cases h
  | mismatchedClosingTag => cases h
  | unclosedTag => cases h
  | _ => exact List.forall_mem_nil _

theorem ParseError.named_unclosedTag {name : List Char} (span : Span) (h : Unspaced name) :
    ParseError.Named ⟨.unclosedTag name, span⟩ := by
  intro other hother
  rwa [List.mem_singleton.1 hother]

theorem Node.named_of_tag? {node : Node} (h : node.tag? = none) : node.Named := by
  intro tag htag
  rw [h] at htag
  cases htag

theorem Node.named_text (span : Span) (data : List Char) (blank : Bool) :
    (Node.text span data blank).Named := Node.named_of_tag? rfl

theorem Node.named_element {tag : Tag} {children : List Node} (h : Unspaced tag.name) :
    (Node.element tag children).Named := by
  intro other hother
  obtain rfl := Option.some.inj hother
  exact h

/-- All names that have been read are without white space. -/
structure Reader.Named (r : Reader) : Prop where
  nodes : ∀ n ∈ Node.all r.siblings, n.Named
  stack : ∀ e ∈ r.stack, Unspaced e.name
  errors : ∀ e ∈ r.errors, e.Named

namespace Reader

section

variable {mode : WhitespaceMode} {r : Reader}

theorem Named.move (errors : List ParseError) (next : Cursor) (h : r.Named)
    (herrors : ∀ e ∈ errors, e.Named) :
    Reader.Named { r.report errors with cursor := next } where
  nodes := h.nodes
  stack := h.stack
  errors := by
    intro e he
    rcases List.mem_append.1 he with he | he
    · exact herrors e (List.mem_reverse.1 he)
    · exact h.errors e he

theorem Named.add {node : Node} (h : r.Named) (hnode : ∀ n ∈ node.family, n.Named) :
    Reader.Named { r with nodes := node :: r.nodes } :=
  ⟨Node.forall_all_cons.2 ⟨hnode, h.nodes⟩, h.stack, h.errors⟩

theorem Named.pushText (data : List Char) (next : Cursor) (h : r.Named) :
    (r.pushText data next).Named := by
  refine ⟨?_, r.pushText_stack data next ▸ h.stack, r.pushText_errors data next ▸ h.errors⟩
  have htext := fun span data blank => Node.forall_family_text (Node.named_text span data blank)
  -- a new text, or a text in the place of the last one
  rw [siblings, r.pushText_stack data next]
  rcases r.pushText_nodes data next with ⟨hnew, -⟩ | ⟨before, old, blank, older, hold, -, hnew⟩
  · rw [hnew]
    exact Node.forall_all_cons.2 ⟨htext _ _ _, h.nodes⟩
  · have hrest := h.nodes
    rw [siblings, hold] at hrest
    rw [hnew]
    exact Node.forall_all_cons.2 ⟨htext _ _ _, (Node.forall_all_cons.1 hrest).2⟩

theorem Named.readComment (h : r.Named) : r.readComment.Named := by
  have hcomment : ∀ (span : Span) (data : List Char),
      ∀ n ∈ (Node.comment span data).family, n.Named := by
    intro span data n hn
    rw [Node.family, List.mem_singleton] at hn
    subst hn
    exact Node.named_of_tag? rfl
  unfold Reader.readComment
  simp only
  split
  · exact (h.move [] _ (List.forall_mem_nil _)).add (hcomment _ _)
  · refine (h.move _ _ ?_).add (hcomment _ _)
    exact List.forall_mem_singleton.2 (List.forall_mem_nil _)

theorem Named.readInterpolation (h : r.Named) : r.readInterpolation.Named := by
  unfold Reader.readInterpolation
  simp only
  split
  · refine (h.move [] _ (List.forall_mem_nil _)).add ?_
    intro n hn
    rw [Node.family, List.mem_singleton] at hn
    subst hn
    exact Node.named_of_tag? rfl
  · refine Named.pushText _ _ (h.move _ r.cursor ?_)
    exact List.forall_mem_singleton.2 (List.forall_mem_nil _)

theorem Named.readElement (h : r.Named) : r.readElement.Named := by
  have hname := unspaced_tagName r.cursor
  have hmoved := h.move _ (readStartTag r.cursor).next fun e he =>
    ParseError.named_of_isInTag (readStartTag_isInTag r.cursor e he)
  unfold Reader.readElement
  simp only [report_cursor]
  -- an element without content, one of raw text, or one that is opened and read further
  split
  · exact hmoved.add (Node.forall_family_element (Node.named_element hname) (List.forall_mem_nil _))
  · split
    · obtain ⟨content, last, -, hvalue, hend⟩ := (readStartTag r.cursor).next.readRawText_cases
        (readStartTag r.cursor).value.name (r.cursor.spanTo (readStartTag r.cursor).next)
      refine (hmoved.move _ _ ?_).add
        (Node.forall_family_element (Node.named_element hname) ?_)
      · rcases hend with ⟨-, herrors, -⟩ | ⟨-, herrors, -⟩
        · rw [herrors]
          exact fun e he => ParseError.named_of_isInTag (last.readClosingTag_isInTag e he)
        · rw [herrors]
          exact List.forall_mem_singleton.2 (ParseError.named_unclosedTag _ hname)
      · rw [hvalue, Cursor.rawNodes]
        split
        · exact List.forall_mem_nil _
        · exact Node.forall_all_cons.2
            ⟨Node.forall_family_text (Node.named_text _ _ _), List.forall_mem_nil _⟩
    · exact ⟨hmoved.nodes, List.forall_mem_cons.2 ⟨hname, h.stack⟩, hmoved.errors⟩

theorem Named.skipClosingTag (h : r.Named) : r.skipClosingTag.Named := by
  have hfound := unspaced_closingName r.cursor
  refine h.move _ _ (List.forall_mem_singleton.2 ?_)
  intro name hname
  cases hstack : r.stack with
  | nil =>
      rw [hstack] at hname
      rwa [List.mem_singleton.1 hname]
  | cons e outer =>
      rw [hstack] at hname
      rcases List.mem_cons.1 hname with rfl | hname
      · exact h.stack e (hstack ▸ List.mem_cons_self)
      · rwa [List.mem_singleton.1 hname]

/-- To close the innermost open element makes a node of what was read. -/
theorem Named.close {e : OpenElement} {outer : List OpenElement} (errors : List ParseError)
    (next : Cursor) (h : r.Named) (hstack : r.stack = e :: outer)
    (herrors : ∀ x ∈ errors, x.Named) :
    Reader.Named
      { r.report errors with
        cursor := next
        nodes := e.close next.offset (e.finishChildren mode outer r.nodes.reverse) :: e.before
        stack := outer } := by
  have hmoved := h.move errors next herrors
  have hsiblings : r.siblings = r.nodes ++ (e.before ++ outer.flatMap OpenElement.before) := by
    rw [siblings, hstack, List.flatMap_cons]
  have hinside : ∀ n ∈ Node.all r.nodes.reverse, n.Named := fun n hn =>
    h.nodes n (Node.all_subset
      (hsiblings ▸ List.reverse_subset.2 (List.subset_append_left _ _)) hn)
  have houtside : ∀ n ∈ Node.all (e.before ++ outer.flatMap OpenElement.before), n.Named :=
    fun n hn => h.nodes n (Node.all_subset (hsiblings ▸ List.subset_append_right _ _) hn)
  have hnames := List.forall_mem_cons.1 (hstack ▸ h.stack)
  refine ⟨Node.forall_all_cons.2 ⟨?_, houtside⟩, hnames.2, hmoved.errors⟩
  exact Node.forall_family_element (Node.named_element hnames.1)
    (forall_all_finishChildren Node.named_text mode e outer hinside)

theorem Named.step (h : r.Named) : (r.step mode).Named := by
  apply step_cases
  case done => exact fun _ _ => h
  case text => exact fun _ => h.pushText _ _
  case comment => exact fun _ => h.readComment
  case interpolation => exact fun _ => h.readInterpolation
  case element => exact fun _ _ => h.readElement
  case skip => exact fun _ _ => h.skipClosingTag
  case close =>
    intro _ e outer hstack _
    refine h.close _ _ hstack fun x hx => ?_
    exact ParseError.named_of_isInTag (r.cursor.readClosingTag_isInTag x hx)
  case abandon =>
    intro e outer hstack _
    have hname := h.stack e (hstack ▸ List.mem_cons_self)
    exact h.close _ r.cursor hstack
      (List.forall_mem_singleton.2 (ParseError.named_unclosedTag _ hname))

theorem named_run (mode : WhitespaceMode) (source : List Char) :
    ((ofSource source).run mode).Named := by
  refine run_induction (fun _ _ h => h.step) _ ?_
  exact ⟨List.forall_mem_nil _, List.forall_mem_nil _, List.forall_mem_nil _⟩

end

end Reader

/-! ## Templates -/

theorem Template.read_named (mode : WhitespaceMode) (source : List Char) :
    ∀ n ∈ Node.all (Template.read mode source).nodes, n.Named := by
  have hnamed := Reader.named_run mode source
  refine forall_all_finishSiblings Node.named_text mode [] fun n hn => ?_
  refine hnamed.nodes n (Node.all_subset ?_ hn)
  exact List.reverse_subset.2 (List.subset_append_left _ _)

theorem Template.errors_named (mode : WhitespaceMode) (source : List Char) :
    ∀ e ∈ (Template.read mode source).errors, e.Named := fun e he =>
  (Reader.named_run mode source).errors e (List.mem_reverse.1 he)

end AstroTemplate
