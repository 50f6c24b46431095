import AstroTemplate.Proofs.Descendants
import AstroTemplate.Proofs.Steps
import AstroTemplate.Proofs.Tiling

set_option autoImplicit false

/-! # The layout of an element

An element lies in the source (`LaidOut`) as its start tag, its content and its closing tag. The
attributes follow each other inside the start tag. The content is tiled by the children and by the
closing tags that were reported as mismatched; the one thing that may be missing is the line break
at the beginning of preformatted content. Whatever is cut short was reported, so in a template
without errors every element is complete (`LaidOut.of_no_errors`).

Elements without content and raw text elements are read in one go, and are laid out as soon as they
are read. For the others the reader keeps an invariant of its own.
-/

namespace AstroTemplate

/-! ## Closing tags -/

/-- A closing tag for `name`: the name, in letters of any case, stands after `</`, and the text
ends with the first `>`. -/
def IsClosingTag (name text : List Char) : Prop :=
  ∃ found more, text = ['<', '/'] ++ (found ++ (more ++ ['>'])) ∧ sameName name found = true ∧
    '>' ∉ found ++ more ∧ more.head?.all endsClosingName = true

/-- Going past a tag goes over a closing tag, or to the end of the source. -/
theorem Cursor.over_closingTag {c : Cursor} {name : List Char} (found more : List Char)
    (hrest : c.rest = ['<', '/'] ++ (found ++ more)) (hname : sameName name found = true)
    (hfound : '>' ∉ found) (hmore : more.head?.all endsClosingName = true) :
    ∃ text, c.Over text c.pastTag ∧ (IsClosingTag name text ∨
      c.pastTag.rest = [] ∧ c.readClosingTag.errors = [⟨.endInsideTag, c.tokenSpan⟩]) := by
  cases hcut : c.cutAt? ['>'] with
  | none =>
      have hpast : c.pastTag = c.toEnd := by rw [pastTag, hcut]
      refine ⟨c.rest, ?_, .inr ⟨?_, ?_⟩⟩
      · rw [hpast]
        exact c.over_toEnd
      · rw [hpast]
        rfl
      · rw [readClosingTag, hcut]
        rfl
  | some found' =>
      obtain ⟨before, next⟩ := found'
      have hpast : c.pastTag = next := by rw [pastTag, hcut]
      refine ⟨before ++ ['>'], ?_, .inl ?_⟩
      · rw [hpast]
        exact over_of_cutAt? hcut
      · obtain ⟨⟨b, a⟩, hb, he⟩ := Option.map_eq_some_iff.1 hcut
        obtain ⟨rfl, -⟩ := Prod.mk.inj he
        -- the name has no `>`, so the first one stands after it
        have hopen : '>' ∉ ['<', '/'] ++ found := by simpa using hfound
        rw [hrest, ← List.append_assoc, cutAt?_append_of_not_mem hopen] at hb
        obtain ⟨⟨tail, after⟩, htail, he⟩ := Option.map_eq_some_iff.1 hb
        obtain ⟨rfl, rfl⟩ := Prod.mk.inj he
        have hgt : '>' ∉ found ++ tail := by
          simpa [hfound] using not_mem_of_cutAt? htail
        refine ⟨found, tail, by simp, hname, hgt, ?_⟩
        cases tail with
        | nil => rfl
        | cons x tail =>
            rw [eq_append_of_cutAt? htail] at hmore
            exact hmore

/-- The closing tag of an element is a closing tag for its name. -/
theorem Cursor.over_ownClosingTag {c : Cursor} {name : List Char}
    (hkind : c.kind = .closingTagOpen) (hname : sameName name c.closingName = true) :
    ∃ text, c.Over text c.pastTag ∧ (IsClosingTag name text ∨
      c.pastTag.rest = [] ∧ c.readClosingTag.errors = [⟨.endInsideTag, c.tokenSpan⟩]) := by
  obtain ⟨after, hrest⟩ := rest_of_kind hkind rfl
  have hfound : c.closingName = after.takeWhile fun ch => !endsClosingName ch := by
    rw [closingName, hrest]
    rfl
  refine over_closingTag _ (after.dropWhile fun ch => !endsClosingName ch) ?_ hname ?_ ?_
  · rw [hrest, hfound, List.takeWhile_append_dropWhile]
  · intro hmem
    rw [hfound] at hmem
    have := List.all_eq_true.1 List.all_takeWhile _ hmem
    exact absurd this (by decide)
  · cases hmore : (after.dropWhile fun ch => !endsClosingName ch).head? with
    | none => rfl
    | some x =>
        have := List.head?_dropWhile_not (fun ch => !endsClosingName ch) after
        rw [hmore] at this
        simpa using this

/-- The closing tag that raw content ends at is a closing tag for the name of the element. -/
theorem Cursor.over_rawClosingTag {c : Cursor} {name : List Char} (hname : '>' ∉ name)
    (hcloses : closesHere name c.rest = true) :
    ∃ text, c.Over text c.pastTag ∧ (IsClosingTag name text ∨
      c.pastTag.rest = [] ∧ c.readClosingTag.errors = [⟨.endInsideTag, c.tokenSpan⟩]) := by
  obtain ⟨found, more, hrest, hsame, hmore⟩ := eq_append_of_closesHere hcloses
  refine over_closingTag found more hrest (by rw [sameName_comm]; exact hsame) ?_ hmore
  intro hmem
  exact hname (mem_of_sameName (by decide) (by decide) hsame hmem)

/-! ## Attributes follow each other in the start tag -/

@[simp] theorem TagProp.span_ofName (span : Span) (offset : Nat) (name : List Char)
    (value : Option Value) : (TagProp.ofName span offset name value).span = span := by
  unfold TagProp.ofName
  split <;> rfl

theorem readProp_span (c : Cursor) : (readProp c).value.span = c.spanTo (readProp c).next := by
  unfold readProp
  simp only
  split <;> simp

theorem readProps_inOrder {source : List Char} (hs : byteLength source ≤ maxOffset) (c : Cursor)
    (hc : c.LiesIn source) :
    InOrder c.offset (readProps c).next.offset ((readProps c).value.map TagProp.span) := by
  refine readProps_induction (motive := fun c read => c.LiesIn source →
    InOrder c.offset read.next.offset (read.value.map TagProp.span)) ?_ ?_ c hc
  · intro c _ _
    exact c.over_skipSpace.reaches.offset_le
  · intro c one more hone ih hc
    have hnext : one.next.LiesIn source := hc.reaches (reaches_propTurn? hone)
    obtain ⟨first, rest, hrest, hturn⟩ := propTurn?_cases hone
    rcases hturn with ⟨hvalue, -, -⟩ | ⟨hname, hvalue, -, hread⟩
    · -- a character was passed over
      rw [hvalue]
      exact (ih hnext).widen (reaches_propTurn? hone).offset_le (Nat.le_refl _)
    · have hspace : c.skipSpace.LiesIn source := hc.reaches c.over_skipSpace.reaches
      have hspan : (readProp c.skipSpace).value.span
          = ⟨c.skipSpace.offset, one.next.offset⟩ := by
        rw [readProp_span, hread, Cursor.spanTo_eq hs hspace (hread ▸ hnext)]
      rw [hvalue, List.singleton_append, List.map_cons, hspan]
      refine ⟨c.over_skipSpace.reaches.offset_le, ?_, ih hnext⟩
      rw [hread]
      exact (reaches_readProp c.skipSpace).offset_lt (readProp_rest_lt hrest hname)

theorem readStartTag_props (c : Cursor) :
    (readStartTag c).value.props = (readProps c.atProps).value := by
  unfold readStartTag
  simp only
  split <;> rfl

/-- The attributes of a start tag follow each other inside it. -/
theorem readStartTag_inOrder {source : List Char} (hs : byteLength source ≤ maxOffset)
    {c : Cursor} (hc : c.LiesIn source) :
    InOrder c.offset (readStartTag c).next.offset
      ((readStartTag c).value.props.map TagProp.span) := by
  rw [readStartTag_props]
  exact (readProps_inOrder hs c.atProps (hc.reaches c.reaches_atProps)).widen
    c.reaches_atProps.offset_le (readProps_reaches_readStartTag c).offset_le

/-! ## The layout of an element -/

/-- What may be missing at the beginning of the content of an element: nothing, or the line break
after the start tag of a preformatted one. -/
def MissingBreak (source : List Char) (tag : Tag) (missing : List Span) : Prop :=
  missing = [] ∨ isPreformatted tag.name = true ∧ ∃ span, missing = [span] ∧
    (span.slice source = ['\n'] ∨ span.slice source = ['\r', '\n'])

/-- Between `start` and `stop` lie the children in order, and closing tags reported as mismatched
with the element. -/
def Content (source : List Char) (errors : List ParseError) (tag : Tag) (children : List Node)
    (start stop : Nat) : Prop :=
  ∃ (missing : List Span) (skipped : List ParseError),
    MissingBreak source tag missing ∧ skipped.Sublist errors ∧
    (∀ e ∈ skipped, ∃ found, e.kind = .mismatchedClosingTag tag.name found) ∧
    Tiled start stop (missing ++ children.map Node.span) (skipped.map ParseError.span)

/-- How an element ends whose content lies between `body` and `tail`: it has none, or a closing
tag follows, or it was reported as unclosed. A closing tag that the end of the source cuts short
was reported, too. -/
inductive Ending (errors : List ParseError) (tag : Tag) (children : List Node)
    (start body tail stop : Cursor) : Prop
  | childless (htag : tag.selfClosing = true ∨ isVoidElement tag.name = true)
      (hchildren : children = []) (hbody : body = tail) (hstop : tail = stop)
  | closed (text : List Char) (hover : tail.Over text stop) (htext : IsClosingTag tag.name text)
  | cutShort (hstop : stop.rest = []) (herror : ∃ e ∈ errors, e.kind = .endInsideTag)
  | unclosed (hstop : tail = stop)
      (herror : ⟨.unclosedTag tag.name, ⟨start.offset, body.offset⟩⟩ ∈ errors)

/-- Between `start` and `body` stands a start tag for `name`. It ends with `>`, or it was reported
as cut short. -/
def Opening (errors : List ParseError) (name : List Char) (start body : Cursor) : Prop :=
  ∃ inner, start.Over ('<' :: (name ++ inner)) body ∧ (inner.getLast? = some '>' ∨
    ∃ e ∈ errors, e.kind = .endInsideTag ∨ ∃ found, e.kind = .unfinishedStartTag found)

/-- The element lies in the source as its start tag from `start` to `body`, its content from there
to `tail`, and its closing tag from there to `stop`. -/
structure LaidOut (source : List Char) (errors : List ParseError) (tag : Tag)
    (children : List Node) (start body tail stop : Cursor) : Prop where
  lies : start.LiesIn source
  startTag : (readStartTag start).value = ⟨tag.name, tag.props, tag.selfClosing⟩
  body_eq : (readStartTag start).next = body
  opening : Opening errors tag.name start body
  tail_reached : body.Reaches tail
  stop_reached : tail.Reaches stop
  span : tag.span = ⟨start.offset, stop.offset⟩
  props : InOrder start.offset body.offset (tag.props.map TagProp.span)
  content : Content source errors tag children body.offset tail.offset
  ending : Ending errors tag children start body tail stop

/-- Every element among the nodes and inside them is laid out in the source. -/
def AllLaidOut (source : List Char) (errors : List ParseError) (nodes : List Node) : Prop :=
  ∀ tag children, .element tag children ∈ Node.all nodes →
    ∃ start body tail stop, LaidOut source errors tag children start body tail stop

theorem Opening.mono {errors errors' : List ParseError} {name : List Char} {start body : Cursor}
    (h : Opening errors name start body) (hsub : errors ⊆ errors') :
    Opening errors' name start body := by
  obtain ⟨inner, hover, hlast | ⟨e, he, hkind⟩⟩ := h
  · exact ⟨inner, hover, .inl hlast⟩
  · exact ⟨inner, hover, .inr ⟨e, hsub he, hkind⟩⟩

theorem Content.mono {source : List Char} {errors more : List ParseError} {tag : Tag}
    {children : List Node} {start stop : Nat}
    (h : Content source errors tag children start stop) :
    Content source (errors ++ more) tag children start stop := by
  obtain ⟨missing, skipped, hmissing, hsub, hkind, htiled⟩ := h
  exact ⟨missing, skipped, hmissing, hsub.trans (List.sublist_append_left _ _), hkind, htiled⟩

theorem Ending.mono {errors more : List ParseError} {tag : Tag} {children : List Node}
    {start body tail stop : Cursor} (h : Ending errors tag children start body tail stop) :
    Ending (errors ++ more) tag children start body tail stop := by
  cases h with
  | childless htag hchildren hbody hstop => exact childless htag hchildren hbody hstop
  | closed text hover htext => exact closed text hover htext
  | cutShort hstop herror =>
      obtain ⟨e, he, hkind⟩ := herror
      exact cutShort hstop ⟨e, List.mem_append_left _ he, hkind⟩
  | unclosed hstop herror => exact unclosed hstop (List.mem_append_left _ herror)

theorem AllLaidOut.mono {source : List Char} {errors : List ParseError} {nodes : List Node}
    (h : AllLaidOut source errors nodes) (more : List ParseError) :
    AllLaidOut source (errors ++ more) nodes := by
  intro tag children hmem
  obtain ⟨start, body, tail, stop, hlaid⟩ := h tag children hmem
  exact ⟨start, body, tail, stop,
    { hlaid with
      opening := hlaid.opening.mono (List.subset_append_left _ _)
      content := hlaid.content.mono
      ending := hlaid.ending.mono }⟩

theorem AllLaidOut.of_subset {source : List Char} {errors : List ParseError}
    {nodes nodes' : List Node} (h : AllLaidOut source errors nodes) (hsub : nodes' ⊆ nodes) :
    AllLaidOut source errors nodes' := by
  intro tag children hmem
  obtain ⟨m, hm, hfamily⟩ := Node.mem_all.1 hmem
  exact h tag children (Node.mem_all.2 ⟨m, hsub hm, hfamily⟩)

theorem allLaidOut_nil (source : List Char) (errors : List ParseError) :
    AllLaidOut source errors [] := by
  simp [AllLaidOut, Node.all]

theorem allLaidOut_cons {source : List Char} {errors : List ParseError} {node : Node}
    {nodes : List Node} (hnode : AllLaidOut source errors [node])
    (hnodes : AllLaidOut source errors nodes) : AllLaidOut source errors (node :: nodes) := by
  intro tag children hmem
  obtain ⟨m, hm, hfamily⟩ := Node.mem_all.1 hmem
  rcases List.mem_cons.1 hm with rfl | hm
  · exact hnode tag children (Node.mem_all.2 ⟨m, List.mem_singleton_self m, hfamily⟩)
  · exact hnodes tag children (Node.mem_all.2 ⟨m, hm, hfamily⟩)

/-- A node that is no element has no element in it. -/
theorem allLaidOut_leaf {source : List Char} {errors : List ParseError} {node : Node}
    (h : node.sort ≠ .element) : AllLaidOut source errors [node] := by
  intro tag children hmem
  cases node with
  | text => simp [Node.all, Node.family] at hmem
  | interpolation => simp [Node.all, Node.family] at hmem
  | comment => simp [Node.all, Node.family] at hmem
  | element => exact absurd rfl h

theorem allLaidOut_element {source : List Char} {errors : List ParseError} {tag : Tag}
    {children : List Node} {start body tail stop : Cursor}
    (h : LaidOut source errors tag children start body tail stop)
    (hchildren : AllLaidOut source errors children) :
    AllLaidOut source errors [.element tag children] := by
  intro t cs hmem
  obtain ⟨m, hm, hfamily⟩ := Node.mem_all.1 hmem
  rw [List.mem_singleton] at hm
  subst hm
  rcases Node.mem_family_element.1 hfamily with heq | hmem
  · obtain ⟨rfl, rfl⟩ := Node.element.inj heq
    exact ⟨start, body, tail, stop, h⟩
  · exact hchildren t cs hmem

/-! ## Start tags -/

theorem readStartTag_name (c : Cursor) :
    (readStartTag c).value.name = ((c.drop 1).takeWhile isTagNameChar).1 := by
  unfold readStartTag
  simp only
  split <;> rfl

/-- A tag name has no `>` in it. -/
theorem readStartTag_name_not_mem (c : Cursor) : '>' ∉ (readStartTag c).value.name := by
  rw [readStartTag_name]
  intro hmem
  have := List.all_eq_true.1 List.all_takeWhile _ hmem
  exact absurd this (by decide)

/-- A start tag is `<`, its name, and whatever else up to its `>`; one that ends without `>` is
reported. -/
theorem opening_readStartTag {c : Cursor} {rest : List Char} (hc : c.rest = '<' :: rest) :
    Opening (readStartTag c).errors (readStartTag c).value.name c (readStartTag c).next := by
  have hopen : c.Over ['<'] (c.drop 1) := Cursor.over_drop_length hc
  have hname := (c.drop 1).over_takeWhile isTagNameChar
  obtain ⟨inner, hprops⟩ := reaches_readProps c.atProps
  have hlast := hopen.trans (hname.trans hprops)
  have hended : ∀ (errors : List ParseError) {ending after : List Char},
      (readProps c.atProps).next.rest = ending ++ after → ending.getLast? = some '>' →
      Opening errors ((c.drop 1).takeWhile isTagNameChar).1 c
        ((readProps c.atProps).next.drop ending.length) := by
    intro errors ending after hafter hgt
    have hover := hlast.trans (Cursor.over_drop_length hafter)
    rw [List.singleton_append, List.cons_append, List.append_assoc] at hover
    exact ⟨inner ++ ending, hover, .inl (by simp [hgt])⟩
  unfold readStartTag
  simp only
  split
  · rename_i hkind
    obtain ⟨after, hafter⟩ := Cursor.rest_of_kind hkind rfl
    exact hended _ hafter rfl
  · rename_i hkind
    obtain ⟨after, hafter⟩ := Cursor.rest_of_kind hkind rfl
    exact hended _ hafter rfl
  · exact ⟨inner, hlast, .inr ⟨_, List.mem_append_right _ (List.mem_singleton_self _), .inl rfl⟩⟩
  · exact ⟨inner, hlast,
      .inr ⟨_, List.mem_append_right _ (List.mem_singleton_self _), .inr ⟨_, rfl⟩⟩⟩

/-! ## Elements that are read in one go -/

section

variable {source : List Char} {errors : List ParseError}

/-- The text that is the content of a raw text element tiles it. -/
theorem tiled_rawText {c last : Cursor} {content : List Char}
    (hs : byteLength source ≤ maxOffset) (hc : c.LiesIn source) (hover : c.Over content last) :
    Tiled c.offset last.offset ((Cursor.rawNodes c content last).map Node.span) [] := by
  unfold Cursor.rawNodes
  split
  · rename_i hempty
    rw [List.isEmpty_iff.1 hempty] at hover
    rw [hover.2]
    exact Tiled.nil _
  · rename_i hempty
    have hlt : c.offset < last.offset := hover.offset_lt (mt List.isEmpty_iff.2 hempty)
    rw [List.map_singleton]
    show Tiled _ _ [c.spanTo last] []
    rw [Cursor.spanTo_eq hs hc (hc.reaches hover.reaches)]
    exact Tiled.part hlt (Tiled.nil _)

/-- There are no elements in raw text. -/
theorem allLaidOut_rawText (c : Cursor) (name : List Char) (span : Span) :
    AllLaidOut source errors (c.readRawText name span).value := by
  obtain ⟨content, last, -, hvalue, -⟩ := c.readRawText_cases name span
  rw [hvalue, Cursor.rawNodes]
  split
  · exact allLaidOut_nil source errors
  · exact allLaidOut_leaf (by simp [Node.sort])

/-- A raw text element is laid out: its content is one text, up to its closing tag or to the end
of the source. -/
theorem laidOut_rawText (errors : List ParseError) (tag : Tag) {start body : Cursor}
    (hs : byteLength source ≤ maxOffset) (hlies : start.LiesIn source)
    (hvalue : (readStartTag start).value = ⟨tag.name, tag.props, tag.selfClosing⟩)
    (hbody : (readStartTag start).next = body) (hopening : Opening errors tag.name start body)
    (htag : tag.span = start.spanTo (body.readRawText tag.name (start.spanTo body)).next) :
    ∃ tail, LaidOut source (errors ++ (body.readRawText tag.name (start.spanTo body)).errors) tag
      (body.readRawText tag.name (start.spanTo body)).value start body tail
      (body.readRawText tag.name (start.spanTo body)).next := by
  have hbodyLies : body.LiesIn source := hbody ▸ hlies.reaches (reaches_readStartTag start)
  have hopen := Cursor.spanTo_eq hs hlies hbodyLies
  have hprops := readStartTag_inOrder hs hlies
  have hname := readStartTag_name_not_mem start
  rw [hvalue] at hprops hname
  rw [hbody] at hprops
  have hreach := body.reaches_readRawText tag.name (start.spanTo body)
  rw [Cursor.spanTo_eq hs hlies (hbodyLies.reaches hreach)] at htag
  obtain ⟨content, last, hover, hnodes, hend⟩ :=
    body.readRawText_cases tag.name (start.spanTo body)
  rw [hnodes]
  have hcontent : ∀ errors, Content source errors tag (Cursor.rawNodes body content last)
      body.offset last.offset := fun errors =>
    ⟨[], [], .inl rfl, List.nil_sublist _, by simp, tiled_rawText hs hbodyLies hover⟩
  refine ⟨last, hlies, hvalue, hbody, hopening.mono (List.subset_append_left _ _), hover.reaches,
    ?_, htag, hprops, hcontent _, ?_⟩
  · rcases hend with ⟨-, -, hnext⟩ | ⟨-, -, hnext⟩
    · rw [hnext]
      exact last.reaches_pastTag
    · rw [hnext]
      exact Cursor.Reaches.refl last
  · -- the closing tag was found and may itself be cut short, or there is none
    rcases hend with ⟨hcloses, herrors, hnext⟩ | ⟨-, herrors, hnext⟩
    · rw [hnext, herrors]
      obtain ⟨text, htext, hclosing | ⟨hstop, herror⟩⟩ :=
        Cursor.over_rawClosingTag hname hcloses
      · exact .closed text htext hclosing
      · exact .cutShort hstop ⟨⟨.endInsideTag, last.tokenSpan⟩, by rw [herror]; simp, rfl⟩
    · rw [hnext, herrors, hopen]
      exact .unclosed rfl (by simp)

/-- An element without content is laid out as its start tag. -/
theorem laidOut_childless {tag : Tag} {start : Cursor} (hs : byteLength source ≤ maxOffset)
    (hlies : start.LiesIn source)
    (hvalue : (readStartTag start).value = ⟨tag.name, tag.props, tag.selfClosing⟩)
    (hopening : Opening errors tag.name start (readStartTag start).next)
    (htag : tag.span = start.spanTo (readStartTag start).next)
    (hchildless : tag.selfClosing = true ∨ isVoidElement tag.name = true) :
    LaidOut source errors tag [] start (readStartTag start).next (readStartTag start).next
      (readStartTag start).next := by
  have hreach := reaches_readStartTag start
  have hprops := readStartTag_inOrder hs hlies
  rw [hvalue] at hprops
  rw [Cursor.spanTo_eq hs hlies (hlies.reaches hreach)] at htag
  exact ⟨hlies, hvalue, rfl, hopening, Cursor.Reaches.refl _, Cursor.Reaches.refl _, htag, hprops,
    ⟨[], [], .inl rfl, List.nil_sublist _, by simp, Tiled.nil _⟩,
    .childless hchildless rfl rfl rfl⟩

end

/-! ## Templates without errors -/

/-- An element of a template without errors is its start tag, its children, and its closing tag,
with nothing between them but the line break that preformatted content may begin with. -/
theorem LaidOut.of_no_errors {source : List Char} {tag : Tag} {children : List Node}
    {start body tail stop : Cursor} (h : LaidOut source [] tag children start body tail stop)
    (hself : tag.selfClosing = false) (hvoid : isVoidElement tag.name = false) :
    ∃ inner missing closing, start.Over ('<' :: (tag.name ++ inner)) body ∧
      inner.getLast? = some '>' ∧ MissingBreak source tag missing ∧
      Tiled body.offset tail.offset (missing ++ children.map Node.span) [] ∧
      tail.Over closing stop ∧ IsClosingTag tag.name closing := by
  obtain ⟨inner, hinner, hlast⟩ := h.opening
  obtain ⟨missing, skipped, hmissing, hsub, -, htiled⟩ := h.content
  obtain rfl := List.sublist_nil.1 hsub
  have hgt : inner.getLast? = some '>' := by
    rcases hlast with hlast | ⟨e, he, -⟩
    · exact hlast
    · cases he
  cases h.ending with
  | childless htag =>
      rcases htag with htag | htag
      · rw [hself] at htag
        cases htag
      · rw [hvoid] at htag
        cases htag
  | closed closing hover hclosing =>
      exact ⟨inner, missing, closing, hinner, hgt, hmissing, htiled, hover, hclosing⟩
  | cutShort _ herror =>
      obtain ⟨e, he, -⟩ := herror
      cases he
  | unclosed _ herror => cases herror

end AstroTemplate
