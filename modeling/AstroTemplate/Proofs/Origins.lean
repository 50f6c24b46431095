import AstroTemplate.Proofs.SpanText

set_option autoImplicit false

/-! # Where the parts of a tree were read

Every attribute, directive and interpolation of a tree, at any depth, was read at some place of the
source (`Node.ReadFrom`), and every error is about a span between two places (`Span.Between`). What
the reading functions do at a place can thus be said of whole templates, in either mode and for
sources of any length (`Template.read_readFrom`, `Template.errors_between`).

An attribute begins after white space, after a slash or an equals sign that belongs to nothing, or
after the quote that ends the value before it. It never follows a tag name, an attribute name or a
value without quotes directly, because these would have gone on (`Cursor.Separated`).
-/

namespace AstroTemplate

/-! ## Spans between places -/

/-- The span runs from one place of the source to another one further on. -/
def Span.Between (source : List Char) (span : Span) : Prop :=
  ∃ c d : Cursor, c.LiesIn source ∧ c.Reaches d ∧ span = c.spanTo d

section

variable {source : List Char} {c : Cursor}

theorem Cursor.LiesIn.between_spanTo {d : Cursor} (hc : c.LiesIn source) (hd : c.Reaches d) :
    (c.spanTo d).Between source := ⟨c, d, hc, hd, rfl⟩

/-- A token lies between two places. -/
theorem Cursor.LiesIn.between_tokenSpan (hc : c.LiesIn source) : c.tokenSpan.Between source := by
  unfold Cursor.tokenSpan
  split
  · rename_i kind text rest htoken
    have hover : c.Over text ⟨c.offset + byteLength text, rest⟩ :=
      ⟨(firstToken?_eq_some htoken).1, rfl⟩
    exact hc.between_spanTo hover.reaches
  · exact hc.between_spanTo (Cursor.Reaches.refl c)

theorem readValue_errors_between (hc : c.LiesIn source) :
    ∀ e ∈ (readValue c).errors, e.span.Between source := by
  have htoken := hc.between_tokenSpan
  unfold readValue
  split
  · simpa using htoken
  · split
    · split
      · simp
      · simpa using htoken
    · split
      · simpa using htoken
      · simp

theorem readProp_errors_between (hc : c.LiesIn source) :
    ∀ e ∈ (readProp c).errors, e.span.Between source := by
  unfold readProp
  simp only
  split
  · refine readValue_errors_between (hc.reaches ?_)
    exact (c.over_takeWhile isPropNameChar).reaches.trans
      ((Cursor.over_skipSpace _).reaches.trans
        ((Cursor.over_drop _ 1).reaches.trans (Cursor.over_skipSpace _).reaches))
  · simp

theorem readProps_errors_between (c : Cursor) (hc : c.LiesIn source) :
    ∀ e ∈ (readProps c).errors, e.span.Between source := by
  refine readProps_induction (motive := fun c read => c.LiesIn source →
    ∀ e ∈ read.errors, e.span.Between source) ?_ ?_ c hc
  · intro c _ _ e he
    cases he
  · intro c one more hone ih hc e he
    have hspace : c.skipSpace.LiesIn source := hc.reaches c.over_skipSpace.reaches
    rcases List.mem_append.1 he with he | he
    · obtain ⟨-, -, -, ⟨-, -, hnone | hmissing⟩ | ⟨-, -, hprop, -⟩⟩ := propTurn?_cases hone
      · rw [hnone] at he
        cases he
      · rw [hmissing, List.mem_singleton] at he
        rw [he]
        exact hspace.between_tokenSpan
      · rw [hprop] at he
        exact readProp_errors_between hspace e he
    · exact ih (hc.reaches (reaches_propTurn? hone)) e he

theorem readStartTag_errors_between (hc : c.LiesIn source) :
    ∀ e ∈ (readStartTag c).errors, e.span.Between source := by
  have hatProps := hc.reaches c.reaches_atProps
  have hprops := readProps_errors_between c.atProps hatProps
  have hlast := (hatProps.reaches (reaches_readProps c.atProps)).between_tokenSpan
  unfold readStartTag
  simp only
  split
  · exact hprops
  · exact hprops
  all_goals
    intro e he
    rcases List.mem_append.1 he with he | he
    · exact hprops e he
    · rw [List.mem_singleton.1 he]
      exact hlast

theorem Cursor.readClosingTag_errors_between (hc : c.LiesIn source) :
    ∀ e ∈ c.readClosingTag.errors, e.span.Between source := by
  have htoken := hc.between_tokenSpan
  unfold readClosingTag
  simp only
  split
  · simp
  · simpa using htoken

theorem Cursor.readRawText_errors_between (name : List Char) {startTag : Span}
    (hc : c.LiesIn source) (hstart : startTag.Between source) :
    ∀ e ∈ (c.readRawText name startTag).errors, e.span.Between source := by
  obtain ⟨content, last, hover, -, ⟨-, herrors, -⟩ | ⟨-, herrors, -⟩⟩ :=
    c.readRawText_cases name startTag
  · rw [herrors]
    exact readClosingTag_errors_between (hc.reaches hover.reaches)
  · simpa [herrors] using hstart

/-! ## What stands before an attribute -/

/-- A character after which an attribute may begin. -/
def isPropSeparator (x : Char) : Bool :=
  isTagSpace x || x == '/' || x == '=' || x == '"' || x == '\''

/-- The cursor stands at a place of the source directly after the character `x`. -/
def Cursor.Follows (source : List Char) (x : Char) (c : Cursor) : Prop :=
  ∃ d : Cursor, d.LiesIn source ∧ d.Over [x] c

theorem Cursor.Follows.liesIn {x : Char} (h : c.Follows source x) : c.LiesIn source := by
  obtain ⟨d, hd, hover⟩ := h
  exact hd.reaches hover.reaches

/-- The cursor stands where an attribute may begin, or no attribute begins here. -/
def Cursor.Separated (source : List Char) (c : Cursor) : Prop :=
  (∃ x, isPropSeparator x = true ∧ c.Follows source x) ∨
    c.rest.head?.any isPropNameChar = false

/-- Where a run of other characters ends, no attribute begins. -/
theorem Cursor.separated_takeWhile (c : Cursor) {p : Char → Bool}
    (hp : ∀ x, isPropNameChar x = true → p x = true) :
    (c.takeWhile p).2.Separated source := by
  refine .inr ?_
  have hhead := head?_dropWhile_any p c.rest
  show (c.rest.dropWhile p).head?.any isPropNameChar = false
  cases h : (c.rest.dropWhile p).head? with
  | none => rfl
  | some x =>
      rw [h] at hhead
      cases hx : isPropNameChar x with
      | false => exact hx
      | true =>
          rw [Option.any_some, hp x hx] at hhead
          cases hhead

theorem isUnquotedChar_of_isPropNameChar (x : Char) (h : isPropNameChar x = true) :
    isUnquotedChar x = true := by
  simp only [isPropNameChar, Bool.and_eq_true] at h
  simp only [isUnquotedChar, Bool.and_eq_true]
  exact ⟨h.1.1.1, h.1.2⟩

theorem isTagNameChar_of_isPropNameChar (x : Char) (h : isPropNameChar x = true) :
    isTagNameChar x = true := by
  simp only [isPropNameChar, Bool.and_eq_true] at h
  simp only [isTagNameChar, Bool.and_eq_true]
  exact h.1

/-- After a value an attribute begins only if a quote ends the value. -/
theorem separated_readValue (hc : c.LiesIn source) : (readValue c).next.Separated source := by
  unfold readValue
  split
  · rename_i hrest
    exact .inr (by rw [hrest]; rfl)
  · rename_i first rest hrest
    split
    · rename_i hquote
      split
      · rename_i raw next hcut
        obtain ⟨last, hraw, hlast⟩ := Cursor.exists_over_of_cutAt? hcut
        have hlies := (hc.reaches (c.over_drop 1).reaches).reaches hraw.reaches
        refine .inl ⟨first, ?_, last, hlies, hlast⟩
        rcases hquote with rfl | rfl <;> rfl
      · exact .inr rfl
    · split
      · rename_i hclose
        refine .inr ?_
        rw [hrest, hclose]
        rfl
      · exact c.separated_takeWhile isUnquotedChar_of_isPropNameChar

/-- After an attribute another one begins only if a quote ends the value of the first. -/
theorem separated_readProp (hc : c.LiesIn source) : (readProp c).next.Separated source := by
  have hname := (c.over_takeWhile isPropNameChar).reaches
  unfold readProp
  simp only
  split
  · refine separated_readValue (hc.reaches (hname.trans ?_))
    exact (Cursor.over_skipSpace _).reaches.trans
      ((Cursor.over_drop _ 1).reaches.trans (Cursor.over_skipSpace _).reaches)
  · exact c.separated_takeWhile fun _ h => h

/-- Space is skipped up to a place that is separated if the one before it is. -/
theorem Cursor.Separated.skipSpace (hc : c.LiesIn source) (h : c.Separated source) :
    c.skipSpace.Separated source := by
  have hover := c.over_skipSpace
  rcases List.eq_nil_or_concat (c.rest.takeWhile isTagSpace) with hnil | ⟨before, x, hspace⟩
  · have hsame : c.skipSpace = c := by
      rw [hnil] at hover
      exact hover.eq (Cursor.Over.refl c)
    rw [hsame]
    exact h
  · -- the last of the spaces stands directly before the place
    rw [List.concat_eq_append] at hspace
    have hx : isTagSpace x = true := by
      refine List.all_eq_true.1 (List.all_takeWhile (l := c.rest) (p := isTagSpace)) x ?_
      rw [hspace]
      simp
    rw [hspace] at hover
    obtain ⟨d, hd, hlast⟩ := hover.exists_of_append
    refine .inl ⟨x, ?_, d, hc.reaches hd.reaches, hlast⟩
    simp [isPropSeparator, hx]

/-- A turn that reads no attribute goes over an equals sign or a slash. -/
theorem propTurn?_skipped {turn : Reading (List TagProp)} (h : propTurn? c = some turn) :
    turn.value ≠ [] ∨ c.skipSpace.Over ['='] turn.next ∨ c.skipSpace.Over ['/'] turn.next := by
  unfold propTurn? at h
  split at h
  · cases h
  · rename_i first rest hrest
    have hover : c.skipSpace.Over [first] (c.skipSpace.drop 1) := Cursor.over_drop_length hrest
    split at h
    · rename_i hfirst
      obtain rfl := Option.some.inj h
      subst hfirst
      exact .inr (.inl hover)
    · split at h
      · rename_i hfirst
        obtain rfl := Option.some.inj h
        obtain ⟨rfl, -⟩ := hfirst
        exact .inr (.inr hover)
      · split at h
        · obtain rfl := Option.some.inj h
          exact .inl (by simp)
        · cases h

/-- The attribute or directive was read at a place of the source after a separator. -/
def TagProp.ReadFrom (source : List Char) (prop : TagProp) : Prop :=
  ∃ x c, isPropSeparator x = true ∧ Cursor.Follows source x c ∧ prop = (readProp c).value

/-- What is read at a place is made of the name there. -/
theorem readProp_ofName (c : Cursor) : ∃ span value,
    (readProp c).value = .ofName span c.offset (c.takeWhile isPropNameChar).1 value := by
  unfold readProp
  dsimp only
  split
  · exact ⟨_, _, rfl⟩
  · exact ⟨_, _, rfl⟩

/-- A directive has the parts of its name. -/
theorem TagProp.exists_of_ofName_eq_directive {span : Span} {offset : Nat} {name : List Char}
    {value : Option Value} {d : Directive} (h : ofName span offset name value = .directive d) :
    ∃ parts argument, DirectiveName.read? name = some parts ∧
      d = ⟨span, name, parts.name, argument, parts.modifiers, value⟩ ∧
      argument.map (fun a => (a.content, a.isStatic))
        = parts.argument.map fun a => (a.content, a.isStatic) := by
  unfold ofName at h
  split at h
  · cases h
  · rename_i parts hparts
    refine ⟨parts, _, hparts, (TagProp.directive.inj h).symm, ?_⟩
    rw [Option.map_map]
    rfl

/-- The attributes from a separated place on are read after separators. -/
theorem readProps_readFrom (c : Cursor) (hc : c.LiesIn source) (hsep : c.Separated source) :
    ∀ p ∈ (readProps c).value, p.ReadFrom source := by
  refine readProps_induction (motive := fun c read => c.LiesIn source → c.Separated source →
    ∀ p ∈ read.value, p.ReadFrom source) ?_ ?_ c hc hsep
  · intro c _ _ _ p hp
    cases hp
  · intro c one more hone ih hc hsep p hp
    have hspace : c.skipSpace.LiesIn source := hc.reaches c.over_skipSpace.reaches
    have hnext := hc.reaches (reaches_propTurn? hone)
    obtain ⟨first, rest, hrest, ⟨hnone, -, -⟩ | ⟨hname, hprop, -, hread⟩⟩ := propTurn?_cases hone
    · rw [hnone] at hp
      refine ih hnext ?_ p hp
      rcases propTurn?_skipped hone with hne | hequals | hslash
      · exact absurd hnone hne
      · exact .inl ⟨'=', rfl, c.skipSpace, hspace, hequals⟩
      · exact .inl ⟨'/', rfl, c.skipSpace, hspace, hslash⟩
    · rw [hprop] at hp
      rcases List.mem_append.1 hp with hp | hp
      · obtain rfl := List.mem_singleton.1 hp
        rcases hsep.skipSpace hc with ⟨x, hx, hfollows⟩ | hnone
        · exact ⟨x, c.skipSpace, hx, hfollows, rfl⟩
        · rw [hrest, List.head?_cons, Option.any_some, hname] at hnone
          cases hnone
      · exact ih hnext (hread ▸ separated_readProp hspace) p hp

/-- The attributes of a start tag are read after separators. -/
theorem readStartTag_readFrom (hc : c.LiesIn source) :
    ∀ p ∈ (readStartTag c).value.props, p.ReadFrom source := by
  rw [readStartTag_props]
  exact readProps_readFrom c.atProps (hc.reaches c.reaches_atProps)
    ((c.drop 1).separated_takeWhile isTagNameChar_of_isPropNameChar)

end

/-! ## What holds of all nodes

To finish a list of siblings changes and removes texts only. So what holds of every text and of all
nodes of the list still holds of all nodes when the list is finished. -/

section

variable {P : Node → Prop} {nodes : List Node}

theorem Node.forall_all_cons {node : Node} :
    (∀ n ∈ Node.all (node :: nodes), P n) ↔
      (∀ n ∈ node.family, P n) ∧ ∀ n ∈ Node.all nodes, P n := by
  rw [Node.all]
  exact List.forall_mem_append

/-- A node that is no element has nothing inside it. -/
theorem Node.forall_family_leaf {node : Node} (hsort : node.sort ≠ .element) (h : P node) :
    ∀ n ∈ node.family, P n := by
  intro n hn
  cases node with
  | element => exact absurd rfl hsort
  | text => rwa [List.mem_singleton.1 hn]
  | interpolation => rwa [List.mem_singleton.1 hn]
  | comment => rwa [List.mem_singleton.1 hn]

theorem Node.forall_family_text {span : Span} {data : List Char} {blank : Bool}
    (h : P (.text span data blank)) : ∀ n ∈ (Node.text span data blank).family, P n :=
  Node.forall_family_leaf (by simp [Node.sort]) h

theorem Node.forall_family_element {tag : Tag} (htag : P (.element tag nodes))
    (h : ∀ n ∈ Node.all nodes, P n) : ∀ n ∈ (Node.element tag nodes).family, P n := by
  intro n hn
  rcases Node.mem_family_element.1 hn with rfl | hn
  · exact htag
  · exact h n hn

theorem forall_all_condenseAfter (htext : ∀ span data blank, P (.text span data blank))
    (previous : Option NodeSort) (h : ∀ n ∈ Node.all nodes, P n) :
    ∀ n ∈ Node.all (condenseAfter previous nodes), P n := by
  fun_induction condenseAfter previous nodes with
  | case1 => exact h
  | case2 previous span data blank rest condensed hblank hdrops ih =>
      exact ih (Node.forall_all_cons.1 h).2
  | case3 previous span data blank rest condensed hblank hkept ih =>
      exact Node.forall_all_cons.2
        ⟨Node.forall_family_text (htext _ _ _), ih (Node.forall_all_cons.1 h).2⟩
  | case4 previous span data blank rest condensed hword ih =>
      exact Node.forall_all_cons.2
        ⟨Node.forall_family_text (htext _ _ _), ih (Node.forall_all_cons.1 h).2⟩
  | case5 previous node rest hnode ih =>
      exact Node.forall_all_cons.2 ⟨(Node.forall_all_cons.1 h).1, ih (Node.forall_all_cons.1 h).2⟩

theorem forall_all_dropLeadingBreak (htext : ∀ span data blank, P (.text span data blank))
    (h : ∀ n ∈ Node.all nodes, P n) : ∀ n ∈ Node.all (dropLeadingBreak nodes), P n := by
  unfold dropLeadingBreak
  split
  · have hrest := (Node.forall_all_cons.1 h).2
    split
    · exact hrest
    · exact Node.forall_all_cons.2 ⟨Node.forall_family_text (htext _ _ _), hrest⟩
  · exact h

theorem forall_all_finishSiblings (htext : ∀ span data blank, P (.text span data blank))
    (mode : WhitespaceMode) (outer : List OpenElement) (h : ∀ n ∈ Node.all nodes, P n) :
    ∀ n ∈ Node.all (finishSiblings mode outer nodes), P n := by
  unfold finishSiblings
  split
  · exact forall_all_condenseAfter htext none h
  · exact h

theorem forall_all_finishChildren (htext : ∀ span data blank, P (.text span data blank))
    (mode : WhitespaceMode) (e : OpenElement) (outer : List OpenElement)
    (h : ∀ n ∈ Node.all nodes, P n) : ∀ n ∈ Node.all (e.finishChildren mode outer nodes), P n := by
  unfold OpenElement.finishChildren
  split
  · exact forall_all_dropLeadingBreak htext h
  · exact forall_all_finishSiblings htext mode outer h

end

/-! ## Nodes -/

/-- An interpolation of `expression` stands at the cursor and covers `span`, with `raw` between its
braces. -/
def Cursor.HoldsInterpolation (c : Cursor) (raw : List Char) (span : Span)
    (expression : List Char) : Prop :=
  ∃ next : Cursor, c.Over ['\x7b', '\x7b'] (c.drop 2) ∧
    (c.drop 2).cutAt? ['\x7d', '\x7d'] = some (raw, next) ∧ span = c.spanTo next ∧
    expression = trim raw

/-- The interpolation or the tag was read at a place of the source. -/
def Node.ReadFrom (source : List Char) : Node → Prop
  | .interpolation span _ expression =>
    ∃ (c : Cursor) (raw : List Char), c.LiesIn source ∧ c.HoldsInterpolation raw span expression
  | .element tag _ => ∀ p ∈ tag.props, p.ReadFrom source
  | _ => True

/-- Everything among the nodes and inside them was read at places of the source. -/
def AllReadFrom (source : List Char) (nodes : List Node) : Prop :=
  ∀ n ∈ Node.all nodes, n.ReadFrom source

theorem allReadFrom_nil {source : List Char} : AllReadFrom source [] := by
  intro n hn
  cases hn

/-! ## While a template is read -/

/-- Everything that has been read comes from places of the source, and all errors are about spans
between places. -/
structure Reader.Placed (source : List Char) (r : Reader) : Prop where
  lies : r.cursor.LiesIn source
  nodes : AllReadFrom source r.siblings
  props : ∀ e ∈ r.stack, ∀ p ∈ e.props, p.ReadFrom source
  startTags : ∀ e ∈ r.stack, e.startTagSpan.Between source
  errors : ∀ e ∈ r.errors, e.span.Between source

namespace Reader

section

variable {mode : WhitespaceMode} {source : List Char} {r : Reader} {next : Cursor}

theorem Placed.move (errors : List ParseError) (h : r.Placed source)
    (hreach : r.cursor.Reaches next) (herrors : ∀ e ∈ errors, e.span.Between source) :
    Reader.Placed source { r.report errors with cursor := next } where
  lies := h.lies.reaches hreach
  nodes := h.nodes
  props := h.props
  startTags := h.startTags
  errors := by
    intro e he
    rcases List.mem_append.1 he with he | he
    · exact herrors e (List.mem_reverse.1 he)
    · exact h.errors e he

theorem Placed.add {node : Node} (h : r.Placed source)
    (hnode : ∀ n ∈ node.family, n.ReadFrom source) :
    Reader.Placed source { r with nodes := node :: r.nodes } :=
  ⟨h.lies, Node.forall_all_cons.2 ⟨hnode, h.nodes⟩, h.props, h.startTags, h.errors⟩

theorem Placed.pushText {data : List Char} (errors : List ParseError) (h : r.Placed source)
    (hreach : r.cursor.Reaches next) (herrors : ∀ e ∈ errors, e.span.Between source) :
    ((r.report errors).pushText data next).Placed source := by
  have hmoved := h.move errors hreach herrors
  have hcursor := (r.report errors).pushText_cursor data next
  have hstack := (r.report errors).pushText_stack data next
  have hsame := (r.report errors).pushText_errors data next
  refine ⟨?_, ?_, hstack ▸ h.props, hstack ▸ h.startTags, hsame ▸ hmoved.errors⟩
  · rw [hcursor]
    exact hmoved.lies
  -- a new text, or a text in the place of the last one
  rw [siblings, hstack, report_stack]
  rcases (r.report errors).pushText_nodes data next with
    ⟨hnew, -⟩ | ⟨before, old, blank, older, hold, -, hnew⟩
  · rw [hnew]
    exact Node.forall_all_cons.2 ⟨Node.forall_family_text trivial, h.nodes⟩
  · have hrest := h.nodes
    rw [siblings, show r.nodes = .text before old blank :: older from hold] at hrest
    rw [hnew]
    exact Node.forall_all_cons.2 ⟨Node.forall_family_text trivial, (Node.forall_all_cons.1 hrest).2⟩

theorem Placed.readComment (h : r.Placed source) : r.readComment.Placed source := by
  have hbody := (r.cursor.over_drop 4).reaches
  have hcomment : ∀ (span : Span) (data : List Char),
      ∀ n ∈ (Node.comment span data).family, n.ReadFrom source := by
    intro span data n hn
    rw [Node.family, List.mem_singleton] at hn
    subst hn
    exact trivial
  unfold Reader.readComment
  simp only
  split
  · rename_i data next hcut
    exact (h.move [] (hbody.trans (Cursor.over_of_cutAt? hcut).reaches) (by simp)).add
      (hcomment _ _)
  · refine (h.move _ (hbody.trans (r.cursor.drop 4).over_toEnd.reaches) ?_).add (hcomment _ _)
    simpa using h.lies.between_tokenSpan

/-- An interpolation is read up to its closing braces. -/
theorem Placed.readInterpolation (h : r.Placed source) (hkind : r.cursor.kind = .mustacheOpen) :
    r.readInterpolation.Placed source := by
  obtain ⟨after, hrest⟩ := Cursor.rest_of_kind hkind rfl
  have hopen : r.cursor.Over ['\x7b', '\x7b'] (r.cursor.drop 2) := Cursor.over_drop_length hrest
  unfold Reader.readInterpolation
  simp only
  split
  · rename_i raw next hcut
    have hover := hopen.trans (Cursor.over_of_cutAt? hcut)
    refine (h.move [] hover.reaches (by simp)).add ?_
    intro n hn
    rw [Node.family, List.mem_singleton] at hn
    subst hn
    exact ⟨r.cursor, raw, h.lies, next, hopen, hcut, rfl, rfl⟩
  · refine h.pushText _ hopen.reaches ?_
    simpa using h.lies.between_tokenSpan

theorem Placed.readElement (h : r.Placed source) : r.readElement.Placed source := by
  have hnext := reaches_readStartTag r.cursor
  have hprops := readStartTag_readFrom h.lies
  have hspan := h.lies.between_spanTo hnext
  have hmoved := h.move (readStartTag r.cursor).errors hnext
    (readStartTag_errors_between h.lies)
  unfold Reader.readElement
  simp only [report_cursor]
  -- an element without content, one of raw text, or one that is opened and read further
  split
  · exact hmoved.add (Node.forall_family_element hprops allReadFrom_nil)
  · split
    · have hreach := (readStartTag r.cursor).next.reaches_readRawText
        (readStartTag r.cursor).value.name (r.cursor.spanTo (readStartTag r.cursor).next)
      have herrors := Cursor.readRawText_errors_between (readStartTag r.cursor).value.name
        hmoved.lies hspan
      obtain ⟨content, last, -, hvalue, -⟩ := (readStartTag r.cursor).next.readRawText_cases
        (readStartTag r.cursor).value.name (r.cursor.spanTo (readStartTag r.cursor).next)
      refine (hmoved.move _ hreach herrors).add (Node.forall_family_element hprops ?_)
      rw [hvalue, Cursor.rawNodes]
      split
      · exact allReadFrom_nil
      · exact Node.forall_all_cons.2 ⟨Node.forall_family_text trivial, allReadFrom_nil⟩
    · refine ⟨hmoved.lies, hmoved.nodes, ?_, ?_, hmoved.errors⟩
      · exact List.forall_mem_cons.2 ⟨hprops, h.props⟩
      · exact List.forall_mem_cons.2 ⟨hspan, h.startTags⟩

theorem Placed.skipClosingTag (h : r.Placed source) : r.skipClosingTag.Placed source := by
  refine h.move _ r.cursor.reaches_pastTag ?_
  simpa using h.lies.between_spanTo r.cursor.reaches_pastTag

/-- To close the innermost open element makes a node of what was read. -/
theorem Placed.close {e : OpenElement} {outer : List OpenElement} (errors : List ParseError)
    (h : r.Placed source) (hstack : r.stack = e :: outer)
    (herrors : ∀ x ∈ errors, x.span.Between source) (hreach : r.cursor.Reaches next) :
    Reader.Placed source
      { r.report errors with
        cursor := next
        nodes := e.close next.offset (e.finishChildren mode outer r.nodes.reverse) :: e.before
        stack := outer } := by
  have hmoved := h.move errors hreach herrors
  have hsiblings : r.siblings = r.nodes ++ (e.before ++ outer.flatMap OpenElement.before) := by
    rw [siblings, hstack, List.flatMap_cons]
  have hinside : AllReadFrom source r.nodes.reverse := fun n hn =>
    h.nodes n (Node.all_subset
      (hsiblings ▸ List.reverse_subset.2 (List.subset_append_left _ _)) hn)
  have houtside : AllReadFrom source (e.before ++ outer.flatMap OpenElement.before) :=
    fun n hn => h.nodes n (Node.all_subset (hsiblings ▸ List.subset_append_right _ _) hn)
  have hprops := List.forall_mem_cons.1 (hstack ▸ h.props)
  have hstarts := List.forall_mem_cons.1 (hstack ▸ h.startTags)
  refine ⟨hmoved.lies, Node.forall_all_cons.2 ⟨?_, houtside⟩, hprops.2, hstarts.2, hmoved.errors⟩
  exact Node.forall_family_element hprops.1
    (forall_all_finishChildren (fun _ _ _ => trivial) mode e outer hinside)

theorem Placed.step (h : r.Placed source) : (r.step mode).Placed source := by
  apply step_cases
  case done => exact fun _ _ => h
  case text => exact fun _ => h.pushText [] r.cursor.over_text.reaches (by simp)
  case comment => exact fun _ => h.readComment
  case interpolation => exact fun hkind => h.readInterpolation hkind
  case element => exact fun _ _ => h.readElement
  case skip => exact fun _ _ => h.skipClosingTag
  case close =>
    intro _ e outer hstack _
    exact h.close _ hstack (Cursor.readClosingTag_errors_between h.lies) r.cursor.reaches_pastTag
  case abandon =>
    intro e outer hstack _
    refine h.close _ hstack ?_ (Cursor.Reaches.refl r.cursor)
    simpa using h.startTags e (hstack ▸ List.mem_cons_self)

theorem placed_run (mode : WhitespaceMode) (source : List Char) :
    ((ofSource source).run mode).Placed source := by
  refine run_induction (fun _ _ h => h.step) _ ?_
  exact ⟨Cursor.liesIn_ofSource source, allReadFrom_nil, by simp [ofSource], by simp [ofSource],
    by simp [ofSource]⟩

end

end Reader

/-! ## Templates -/

theorem Template.read_readFrom (mode : WhitespaceMode) (source : List Char) :
    AllReadFrom source (Template.read mode source).nodes := by
  have hplaced := Reader.placed_run mode source
  refine forall_all_finishSiblings (fun _ _ _ => trivial) mode [] fun n hn => ?_
  refine hplaced.nodes n (Node.all_subset ?_ hn)
  exact List.reverse_subset.2 (List.subset_append_left _ _)

theorem Template.errors_between (mode : WhitespaceMode) (source : List Char) :
    ∀ e ∈ (Template.read mode source).errors, e.span.Between source := fun e he =>
  (Reader.placed_run mode source).errors e (List.mem_reverse.1 he)

end AstroTemplate
