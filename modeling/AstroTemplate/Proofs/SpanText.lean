import AstroTemplate.Proofs.Lossless

set_option autoImplicit false

/-! # Spans name their text

Every part of a tree keeps the span it was read from, and the part says what stands there: an
expression, a comment, a name, an argument, a value (`Node.MatchesSource`). Content and span are
computed apart from each other, so each reading function has a lemma here that ties the two.

Text is special in two ways. Where white space is condensed, a text no longer is what its span
covers; it is still not empty and still knows whether it is blank. Where white space is preserved,
only the line break at the beginning of preformatted content is missing (`ChildTexts`).
-/

namespace AstroTemplate

/-! ## What the parts of a tree say of the source -/

/-- A value is what stands in the source, with its character references decoded. -/
def Value.MatchesSource (source : List Char) (v : Value) : Prop :=
  ∃ raw, v.span.slice? source = some raw ∧ v.content = decodeEntities raw

def Argument.MatchesSource (source : List Char) (a : Argument) : Prop :=
  a.span.slice? source = some a.content

/-- An attribute or a directive stands in the source with its name in front, and so do its argument
and its value. -/
def TagProp.MatchesSource (source : List Char) : TagProp → Prop
  | .plain a =>
    (∃ more, a.span.slice? source = some (a.name ++ more)) ∧
      ∀ v, a.value = some v → v.MatchesSource source
  | .directive d =>
    (∃ more, d.span.slice? source = some (d.rawName ++ more)) ∧
      (∀ a, d.argument = some a → a.MatchesSource source) ∧
      ∀ v, d.value = some v → v.MatchesSource source

/-- An element stands in the source with `<` and its name in front. -/
structure Tag.MatchesSource (source : List Char) (tag : Tag) : Prop where
  name : ∃ more, tag.span.slice? source = some ('<' :: (tag.name ++ more))
  props : ∀ p ∈ tag.props, p.MatchesSource source

/-- The expression stands between the first braces, with blanks around it. -/
structure InterpolationMatches (source : List Char) (span inner : Span)
    (left expression right : List Char) : Prop where
  slice : span.slice? source
    = some (['\x7b', '\x7b'] ++ ((left ++ (expression ++ right)) ++ ['\x7d', '\x7d']))
  blank_left : left.all isBlank = true
  blank_right : right.all isBlank = true
  first : ¬ ['\x7d', '\x7d'] <:+: left ++ (expression ++ right)
  inner_start : inner.start = span.start + 2 + byteLength left
  inner_slice : inner.slice? source = some expression

/-- A comment stands between its delimiters, or it goes on to the end of the source and was
reported. -/
inductive CommentMatches (source : List Char) (errors : List ParseError) (span : Span)
    (data : List Char) : Prop
  | ended
      (hslice : span.slice? source = some (['<', '!', '-', '-'] ++ (data ++ ['-', '-', '>'])))
  | unended (hslice : span.slice? source = some (['<', '!', '-', '-'] ++ data))
      (hstop : span.stop = byteLength source)
      (herror : ⟨.unterminatedComment, ⟨span.start, span.start + 4⟩⟩ ∈ errors)

/-- The node says what stands in the source where its spans are. -/
def Node.MatchesSource (source : List Char) (errors : List ParseError) : Node → Prop
  | .text _ data blank => data ≠ [] ∧ blank = isTagBlank data
  | .interpolation span inner expression =>
    ∃ left right, InterpolationMatches source span inner left expression right
  | .comment span data => CommentMatches source errors span data
  | .element tag _ => tag.MatchesSource source

/-- The texts among siblings are what their spans cover. -/
def TextsMatch (source : List Char) (nodes : List Node) : Prop :=
  ∀ span data blank, .text span data blank ∈ nodes → span.slice? source = some data

/-- The texts in the preformatted element `tag` are what their spans cover, but for the line break
that the content begins with. -/
inductive PreformattedTexts (source : List Char) (tag : Tag) : List Node → Prop
  /-- The content does not begin with a line break. -/
  | whole {children : List Node} (htexts : TextsMatch source children)
      (hbreak : ∀ span data blank, children.head? = some (.text span data blank) →
        ¬ StartsWithBreak data) :
      PreformattedTexts source tag children
  /-- The first text goes on after its line break. -/
  | cut {span : Span} {data lineBreak : List Char} {blank : Bool} {rest : List Node}
      (hbreak : lineBreak = ['\n'] ∨ lineBreak = ['\r', '\n'])
      (hslice : span.slice? source = some (lineBreak ++ data)) (hrest : TextsMatch source rest) :
      PreformattedTexts source tag (.text span data blank :: rest)
  /-- The first text was nothing but a line break, between the start tag and the first child. -/
  | dropped {children : List Node} {start : Cursor} {span : Span} {lineBreak : List Char}
      (hbreak : lineBreak = ['\n'] ∨ lineBreak = ['\r', '\n'])
      (hslice : span.slice? source = some lineBreak) (hlies : start.LiesIn source)
      (hstart : start.offset = tag.span.start)
      (hafter : (readStartTag start).next.offset ≤ span.start)
      (hbefore : ∀ node, children.head? = some node → span.stop ≤ node.span.start)
      (htexts : TextsMatch source children) :
      PreformattedTexts source tag children

/-- The texts among the children of an element are what their spans cover, the first one of a
preformatted element without the line break it begins with. -/
def ChildTexts (source : List Char) (tag : Tag) (children : List Node) : Prop :=
  (isPreformatted tag.name = false → TextsMatch source children) ∧
  (isPreformatted tag.name = true → PreformattedTexts source tag children)

/-! ## Names of directives -/

/-- An argument stands in the text it is read from. -/
theorem DirectiveName.exists_of_readArgument {offset : Nat} {s : List Char} {a : NameArgument}
    (h : (readArgument offset s).1 = some a) :
    ∃ before after, s = before ++ (a.content ++ after) ∧ a.offset = offset + byteLength before := by
  unfold readArgument at h
  split at h
  · rename_i s
    -- in brackets, up to the closing one if there is one
    split at h
    · rename_i content after hcut
      obtain rfl := Option.some.inj h
      refine ⟨['['], ']' :: after, ?_, rfl⟩
      simp [eq_append_of_cutAt? hcut]
    · obtain rfl := Option.some.inj h
      exact ⟨['['], [], by simp, rfl⟩
  · simp only at h
    split at h
    · cases h
    · obtain rfl := Option.some.inj h
      exact ⟨[], s.dropWhile (· != '.'), by simp [List.takeWhile_append_dropWhile], rfl⟩

theorem DirectiveName.exists_of_readLong? {s : List Char} {parts : DirectiveName}
    {a : NameArgument} (h : readLong? s = some parts) (ha : parts.argument = some a) :
    ∃ before after, s = before ++ (a.content ++ after) ∧ a.offset = 2 + byteLength before := by
  unfold readLong? at h
  simp only at h
  split at h
  · cases h
  · split at h
    · cases h
    · split at h
      · rename_i rest hrest
        obtain rfl := Option.some.inj h
        obtain ⟨before, after, hbefore, hoffset⟩ := exists_of_readArgument ha
        refine ⟨s.takeWhile (fun c => c != ':' && c != '.') ++ ':' :: before, after, ?_, ?_⟩
        · rw [List.append_assoc, List.cons_append, ← hbefore, ← hrest,
            List.takeWhile_append_dropWhile]
        · rw [hoffset, byteLength_append, byteLength_cons, show ':'.utf8Size = 1 from rfl]
          omega
      · obtain rfl := Option.some.inj h
        cases ha

/-- An argument stands in the name of its directive, at its offset. -/
theorem DirectiveName.exists_of_read? {name : List Char} {parts : DirectiveName}
    {a : NameArgument} (h : read? name = some parts) (ha : parts.argument = some a) :
    ∃ before after, name = before ++ (a.content ++ after) ∧ a.offset = byteLength before := by
  have hsign : ∀ (sign : Char) (s : List Char), sign.utf8Size = 1 →
      (readArgument 1 s).1 = some a →
      ∃ before after, sign :: s = before ++ (a.content ++ after) ∧
        a.offset = byteLength before := by
    intro sign s hsize hread
    obtain ⟨before, after, hs, hoffset⟩ := exists_of_readArgument hread
    exact ⟨sign :: before, after, by rw [hs, List.cons_append],
      by rw [hoffset, byteLength_cons, hsize]⟩
  unfold read? at h
  split at h
  · obtain ⟨before, after, hs, hoffset⟩ := exists_of_readLong? h ha
    refine ⟨'v' :: '-' :: before, after, by rw [hs]; rfl, ?_⟩
    rw [hoffset, byteLength_cons, byteLength_cons, show 'v'.utf8Size = 1 from rfl,
      show '-'.utf8Size = 1 from rfl]
    omega
  · obtain rfl := Option.some.inj h
    exact hsign ':' _ rfl ha
  · obtain rfl := Option.some.inj h
    exact hsign '@' _ rfl ha
  · obtain rfl := Option.some.inj h
    exact hsign '#' _ rfl ha
  · obtain rfl := Option.some.inj h
    exact hsign '.' _ rfl ha
  · cases h

/-! ## Attributes and directives -/

section

variable {source : List Char}

theorem Value.ofRaw_matchesSource (hs : byteLength source ≤ maxOffset) {c d : Cursor}
    {raw : List Char} (hc : c.LiesIn source) (h : c.Over raw d) :
    (Value.ofRaw c.offset raw).MatchesSource source := by
  refine ⟨raw, ?_, rfl⟩
  rw [Value.ofRaw, ← h.2]
  exact hc.slice?_spanTo hs h

theorem readValue_matchesSource (hs : byteLength source ≤ maxOffset) {c : Cursor}
    (hc : c.LiesIn source) : (readValue c).value.MatchesSource source := by
  have hquoted : (c.drop 1).LiesIn source := hc.reaches (c.over_drop 1).reaches
  unfold readValue
  split
  · exact Value.ofRaw_matchesSource hs hc (Cursor.Over.refl c)
  · split
    · split
      · rename_i raw next hcut
        obtain ⟨last, hraw, -⟩ := Cursor.exists_over_of_cutAt? hcut
        exact Value.ofRaw_matchesSource hs hquoted hraw
      · exact Value.ofRaw_matchesSource hs hquoted (c.drop 1).over_toEnd
    · split
      · exact Value.ofRaw_matchesSource hs hc (Cursor.Over.refl c)
      · exact Value.ofRaw_matchesSource hs hc (c.over_takeWhile isUnquotedChar)

/-- The argument in a name stands in the source where the name does. -/
theorem Argument.matchesSource_of_read? (hs : byteLength source ≤ maxOffset) {c d : Cursor}
    {name : List Char} {parts : DirectiveName} {a : NameArgument} (hc : c.LiesIn source)
    (hname : c.Over name d) (hparts : DirectiveName.read? name = some parts)
    (ha : parts.argument = some a) :
    Argument.MatchesSource source
      ⟨.ofOffsets (c.offset + a.offset) (c.offset + a.offset + byteLength a.content), a.content,
        a.isStatic⟩ := by
  obtain ⟨before, after, rfl, hoffset⟩ := DirectiveName.exists_of_read? hparts ha
  obtain ⟨first, hfirst, hmore⟩ := hname.exists_of_append
  obtain ⟨last, hlast, -⟩ := hmore.exists_of_append
  have hstart : c.offset + a.offset = first.offset := by rw [hoffset, hfirst.2]
  show Span.slice? (.ofOffsets _ _) source = some a.content
  rw [hstart, ← hlast.2]
  exact (hc.reaches hfirst.reaches).slice?_spanTo hs hlast

/-- What a name and a value make stands in the source if they do. -/
theorem TagProp.ofName_matchesSource (hs : byteLength source ≤ maxOffset) {c d next : Cursor}
    {name : List Char} {value : Option Value} (hc : c.LiesIn source) (hname : c.Over name d)
    (hnext : d.Reaches next) (hvalue : ∀ v, value = some v → v.MatchesSource source) :
    (TagProp.ofName (c.spanTo next) c.offset name value).MatchesSource source := by
  obtain ⟨more, hmore⟩ := hnext
  have hspan := hc.slice?_spanTo hs (hname.trans hmore)
  unfold TagProp.ofName
  split
  · exact ⟨⟨more, hspan⟩, hvalue⟩
  · rename_i parts hparts
    refine ⟨⟨more, hspan⟩, ?_, hvalue⟩
    intro a ha
    obtain ⟨arg, harg, rfl⟩ := Option.map_eq_some_iff.1 ha
    exact Argument.matchesSource_of_read? hs hc hname hparts harg

theorem readProp_matchesSource (hs : byteLength source ≤ maxOffset) {c : Cursor}
    (hc : c.LiesIn source) : (readProp c).value.MatchesSource source := by
  have hname := c.over_takeWhile isPropNameChar
  unfold readProp
  simp only
  split
  · have hvalue : (c.takeWhile isPropNameChar).2.Reaches
        ((c.takeWhile isPropNameChar).2.skipSpace.drop 1).skipSpace :=
      (Cursor.over_skipSpace _).reaches.trans
        ((Cursor.over_drop _ 1).reaches.trans (Cursor.over_skipSpace _).reaches)
    refine TagProp.ofName_matchesSource hs hc hname
      (hvalue.trans (reaches_readValue _)) ?_
    intro v hv
    obtain rfl := Option.some.inj hv
    exact readValue_matchesSource hs (hc.reaches (hname.reaches.trans hvalue))
  · exact TagProp.ofName_matchesSource hs hc hname (Cursor.Reaches.refl _) (by simp)

theorem readProps_matchesSource (hs : byteLength source ≤ maxOffset) (c : Cursor)
    (hc : c.LiesIn source) : ∀ p ∈ (readProps c).value, p.MatchesSource source := by
  refine readProps_induction (motive := fun c read => c.LiesIn source →
    ∀ p ∈ read.value, p.MatchesSource source) ?_ ?_ c hc
  · intro c _ _ p hp
    cases hp
  · intro c one more hone ih hc p hp
    rcases List.mem_append.1 hp with hp | hp
    · obtain ⟨-, -, -, ⟨hnone, -, -⟩ | ⟨-, hprop, -, -⟩⟩ := propTurn?_cases hone
      · rw [hnone] at hp
        cases hp
      · rw [hprop, List.mem_singleton] at hp
        rw [hp]
        exact readProp_matchesSource hs (hc.reaches c.over_skipSpace.reaches)
    · exact ih (hc.reaches (reaches_propTurn? hone)) p hp

/-- The attributes and directives of a start tag stand in the source. -/
theorem readStartTag_matchesSource (hs : byteLength source ≤ maxOffset) {c : Cursor}
    (hc : c.LiesIn source) : ∀ p ∈ (readStartTag c).value.props, p.MatchesSource source := by
  rw [readStartTag_props]
  exact readProps_matchesSource hs c.atProps (hc.reaches c.reaches_atProps)

end

/-! ## Text without some of its white space -/

theorem isTagBlank_cons (c : Char) (s : List Char) :
    isTagBlank (c :: s) = (isTagSpace c && isTagBlank s) := rfl

/-- A text stays blank, or not blank, when its white space is collapsed. -/
theorem isTagBlank_collapseSpaceFrom (inRun : Bool) (s : List Char) :
    isTagBlank (collapseSpaceFrom inRun s) = isTagBlank s := by
  induction s generalizing inRun with
  | nil => rfl
  | cons c s ih =>
      unfold collapseSpaceFrom
      split
      · rename_i hspace
        rw [isTagBlank_cons, hspace, Bool.true_and]
        split
        · exact ih true
        · rw [isTagBlank_cons, ih true]
          rfl
      · rw [isTagBlank_cons, isTagBlank_cons, ih false]

theorem isTagBlank_dropBreak (s : List Char) : isTagBlank (dropBreak s) = isTagBlank s := by
  unfold dropBreak
  split <;> rfl

/-! ## What holds while a template is read -/

/-- The comment that begins at `start` has no end in the source. -/
def CommentUnended (source : List Char) (start : Nat) : Prop :=
  ∃ c : Cursor, c.LiesIn source ∧ c.offset = start ∧ ¬ ['-', '-', '>'] <:+: c.rest.drop 4

/-- A comment is reported only where it has no end. -/
def ParseError.Justified (source : List Char) (e : ParseError) : Prop :=
  e.kind = .unterminatedComment → CommentUnended source e.span.start

/-- The node says what stands in the source, and so do the texts directly inside it where white
space is preserved. -/
structure Node.Sound (mode : WhitespaceMode) (source : List Char) (errors : List ParseError)
    (node : Node) : Prop where
  matchesSource : node.MatchesSource source errors
  texts : mode = .preserve → ∀ tag children, node = .element tag children →
    ChildTexts source tag children

/-- All of the nodes and everything inside them says what stands in the source. -/
def AllSound (mode : WhitespaceMode) (source : List Char) (errors : List ParseError)
    (nodes : List Node) : Prop :=
  ∀ n ∈ Node.all nodes, n.Sound mode source errors

/-- The start tag of an open element stands in the source before the cursor. -/
structure OpenElement.MatchesSource (source : List Char) (cursor : Cursor) (e : OpenElement) :
    Prop where
  name : ∃ (start : Cursor) (more : List Char), start.LiesIn source ∧ start.offset = e.start ∧
    start.Over ('<' :: (e.name ++ more)) cursor
  props : ∀ p ∈ e.props, p.MatchesSource source

/-- The nodes that have been read completely: those in the innermost open element, and those before
each open element. -/
def Reader.siblings (r : Reader) : List Node := r.nodes ++ r.stack.flatMap OpenElement.before

/-- What has been read says what stands in the source. The texts that are not yet in a closed
element have all of their white space in either mode. -/
structure Reader.Sound (mode : WhitespaceMode) (source : List Char) (r : Reader) : Prop where
  lies : r.cursor.LiesIn source
  nodes : AllSound mode source r.errors r.siblings
  texts : ∀ n ∈ r.siblings, n.TextInPlace source
  opened : ∀ e ∈ r.stack, e.MatchesSource source r.cursor
  errors : ∀ e ∈ r.errors, e.Justified source

theorem ParseError.justified_of_isAboutTag {source : List Char} {e : ParseError}
    (h : e.isAboutTag = true) : e.Justified source := by
  intro hkind
  rw [isAboutTag, hkind] at h
  cases h

section

variable {mode : WhitespaceMode} {source : List Char} {errors errors' : List ParseError}

theorem Node.MatchesSource.mono {node : Node} (h : node.MatchesSource source errors)
    (hsub : errors ⊆ errors') : node.MatchesSource source errors' := by
  cases node with
  | text => exact h
  | interpolation => exact h
  | comment span data =>
      cases h with
      | ended hslice => exact .ended hslice
      | unended hslice hstop herror => exact .unended hslice hstop (hsub herror)
  | element => exact h

theorem AllSound.mono {nodes : List Node} (h : AllSound mode source errors nodes)
    (hsub : errors ⊆ errors') : AllSound mode source errors' nodes := fun n hn =>
  ⟨(h n hn).matchesSource.mono hsub, (h n hn).texts⟩

theorem allSound_cons {node : Node} {nodes : List Node} :
    AllSound mode source errors (node :: nodes) ↔
      (∀ n ∈ node.family, n.Sound mode source errors) ∧ AllSound mode source errors nodes := by
  rw [AllSound, Node.all]
  exact List.forall_mem_append

theorem Node.sound_text {span : Span} {data : List Char} {blank : Bool} (hdata : data ≠ [])
    (hblank : blank = isTagBlank data) :
    ∀ n ∈ (Node.text span data blank).family, n.Sound mode source errors := by
  intro n hn
  rw [Node.family, List.mem_singleton] at hn
  subst hn
  exact ⟨⟨hdata, hblank⟩, fun _ _ _ h => by cases h⟩

/-- To condense white space changes texts only, and leaves no empty text. -/
theorem AllSound.condenseAfter {nodes : List Node} (previous : Option NodeSort)
    (h : AllSound mode source errors nodes) :
    AllSound mode source errors (condenseAfter previous nodes) := by
  fun_induction AstroTemplate.condenseAfter previous nodes with
  | case1 => exact h
  | case2 previous span data blank rest condensed hblank hdrops ih =>
      exact ih (allSound_cons.1 h).2
  | case3 previous span data blank rest condensed hblank hkept ih =>
      exact allSound_cons.2 ⟨Node.sound_text (by simp) rfl, ih (allSound_cons.1 h).2⟩
  | case4 previous span data blank rest condensed hword ih =>
      have hsame := isTagBlank_collapseSpaceFrom false data
      have hfalse : isTagBlank (collapseSpace data) = false := by
        rw [collapseSpace, hsame]
        simpa using hword
      refine allSound_cons.2 ⟨Node.sound_text ?_ hfalse.symm, ih (allSound_cons.1 h).2⟩
      intro hnil
      rw [hnil] at hfalse
      cases hfalse
  | case5 previous node rest hnode ih =>
      exact allSound_cons.2 ⟨(allSound_cons.1 h).1, ih (allSound_cons.1 h).2⟩

/-- To drop the first line break changes one text, or removes it. -/
theorem AllSound.dropLeadingBreak {nodes : List Node} (h : AllSound mode source errors nodes) :
    AllSound mode source errors (dropLeadingBreak nodes) := by
  unfold AstroTemplate.dropLeadingBreak
  split
  · rename_i span data blank rest
    obtain ⟨htext, hrest⟩ := allSound_cons.1 h
    obtain ⟨-, hblank⟩ := (htext _ List.mem_cons_self).matchesSource
    split
    · exact hrest
    · rename_i hne
      refine allSound_cons.2 ⟨Node.sound_text (mt List.isEmpty_iff.2 hne) ?_, hrest⟩
      rw [isTagBlank_dropBreak]
      exact hblank
  · exact h

theorem AllSound.finishSiblings {nodes : List Node} (outer : List OpenElement)
    (h : AllSound mode source errors nodes) :
    AllSound mode source errors (finishSiblings mode outer nodes) := by
  unfold AstroTemplate.finishSiblings
  split
  · exact h.condenseAfter none
  · exact h

theorem AllSound.finishChildren {nodes : List Node} (e : OpenElement) (outer : List OpenElement)
    (h : AllSound mode source errors nodes) :
    AllSound mode source errors (e.finishChildren mode outer nodes) := by
  unfold OpenElement.finishChildren
  split
  · exact h.dropLeadingBreak
  · exact h.finishSiblings outer

theorem textsMatch_of_inPlace {nodes : List Node} (h : ∀ n ∈ nodes, n.TextInPlace source) :
    TextsMatch source nodes := by
  intro span data blank hmem
  obtain ⟨-, c, d, hc, hover, rfl⟩ := h _ hmem
  exact hc.slice?_of_over hover

/-- The content that was read in a preformatted element loses the line break it begins with. -/
theorem preformattedTexts_dropLeadingBreak {tag : Tag} {nodes : List Node} {start : Cursor}
    {stop : Nat} {gaps : List Span} (hlies : start.LiesIn source)
    (hstart : start.offset = tag.span.start)
    (htiled : Tiled (readStartTag start).next.offset stop (nodes.map Node.span) gaps)
    (h : ∀ n ∈ nodes, n.TextInPlace source) :
    PreformattedTexts source tag (dropLeadingBreak nodes) := by
  have htexts := textsMatch_of_inPlace h
  unfold dropLeadingBreak
  split
  · rename_i span data blank rest
    have hslice := htexts span data blank List.mem_cons_self
    have hrest : TextsMatch source rest :=
      fun span data blank hmem => htexts span data blank (List.mem_cons_of_mem _ hmem)
    obtain ⟨hne, -⟩ := h _ List.mem_cons_self
    split
    · rename_i hempty
      refine .dropped (Reader.eq_of_dropBreak_nil hne (List.isEmpty_iff.1 hempty)) hslice hlies
        hstart (htiled.start_le rfl) ?_ hrest
      intro node hnode
      exact htiled.stop_le (by rw [List.head?_map, hnode]; rfl)
    · by_cases hbreak : StartsWithBreak data
      · rcases eq_append_dropBreak hbreak with hdata | hdata
        · exact .cut (.inl rfl) (hdata ▸ hslice) hrest
        · exact .cut (.inr rfl) (hdata ▸ hslice) hrest
      · rw [dropBreak_eq_self hbreak]
        refine .whole htexts fun span' data' blank' hhead => ?_
        obtain ⟨-, rfl, -⟩ := Node.text.inj (Option.some.inj hhead)
        exact hbreak
  · rename_i hfirst
    refine .whole htexts fun span data blank hhead => ?_
    obtain ⟨rest, hnodes⟩ := List.head?_eq_some_iff.1 hhead
    exact absurd hnodes (hfirst span data blank rest)

/-- Where white space is preserved, the texts in a closed element are those that were read. -/
theorem childTexts_finishChildren {tag : Tag} {nodes : List Node} {start : Cursor} {stop : Nat}
    {gaps : List Span} (e : OpenElement) (outer : List OpenElement) (hname : tag.name = e.name)
    (hlies : start.LiesIn source) (hstart : start.offset = tag.span.start)
    (htiled : Tiled (readStartTag start).next.offset stop (nodes.map Node.span) gaps)
    (h : ∀ n ∈ nodes, n.TextInPlace source) :
    ChildTexts source tag (e.finishChildren .preserve outer nodes) := by
  rw [ChildTexts, hname, OpenElement.finishChildren]
  refine ⟨?_, ?_⟩
  · intro hpre
    simpa [hpre, AstroTemplate.finishSiblings] using textsMatch_of_inPlace h
  · intro hpre
    rw [if_pos hpre]
    exact preformattedTexts_dropLeadingBreak hlies hstart htiled h

/-- An element stands in the source if its tag does and what is inside it does. -/
theorem Node.sound_element {tag : Tag} {children : List Node} (htag : tag.MatchesSource source)
    (hchildren : AllSound mode source errors children)
    (htexts : mode = .preserve → ChildTexts source tag children) :
    ∀ n ∈ (Node.element tag children).family, n.Sound mode source errors := by
  intro n hn
  rcases Node.mem_family_element.1 hn with rfl | hn
  · refine ⟨htag, ?_⟩
    intro hmode tag' children' heq
    obtain ⟨rfl, rfl⟩ := Node.element.inj heq
    exact htexts hmode
  · exact hchildren n hn

theorem allSound_nil : AllSound mode source errors [] := by
  intro n hn
  cases hn

theorem childTexts_nil (tag : Tag) : ChildTexts source tag [] := by
  have hnil : TextsMatch source [] := by
    intro span data blank hmem
    cases hmem
  exact ⟨fun _ => hnil, fun _ => .whole hnil fun span data blank hhead => by cases hhead⟩

theorem allSound_rawNodes (c : Cursor) (content : List Char) (last : Cursor) :
    AllSound mode source errors (c.rawNodes content last) := by
  unfold Cursor.rawNodes
  split
  · exact allSound_nil
  · rename_i hne
    exact allSound_cons.2 ⟨Node.sound_text (mt List.isEmpty_iff.2 hne) rfl, allSound_nil⟩

theorem textsMatch_rawNodes (hs : byteLength source ≤ maxOffset) {c last : Cursor}
    {content : List Char} (hc : c.LiesIn source) (hover : c.Over content last) :
    TextsMatch source (c.rawNodes content last) := by
  intro span data blank hmem
  unfold Cursor.rawNodes at hmem
  split at hmem
  · cases hmem
  · obtain ⟨rfl, rfl, -⟩ := Node.text.inj (List.mem_singleton.1 hmem)
    exact hc.slice?_spanTo hs hover

theorem not_isPreformatted_of_isRawTextElement {name : List Char}
    (h : isRawTextElement name = true) : isPreformatted name = false := by
  obtain ⟨raw, hraw, hsame⟩ := List.any_eq_true.1 h
  cases hpre : isPreformatted name with
  | false => rfl
  | true =>
      have hlower := (sameName_iff.1 hsame).trans (sameName_iff.1 hpre)
      have hall : ∀ raw ∈ rawTextElements, lower raw ≠ lower "pre".toList := by decide
      exact absurd hlower (hall raw hraw)

end

namespace Reader

section

variable {mode : WhitespaceMode} {source : List Char} {r : Reader} {next : Cursor}

/-! ## Moving on, adding and forgetting -/

/-- To move on and to report errors changes nothing of what has been read. -/
theorem Sound.move (errors : List ParseError) (h : r.Sound mode source)
    (hreach : r.cursor.Reaches next) (herrors : ∀ e ∈ errors, e.Justified source) :
    Reader.Sound mode source { r.report errors with cursor := next } where
  lies := h.lies.reaches hreach
  nodes := h.nodes.mono (List.subset_append_right errors.reverse r.errors)
  texts := h.texts
  opened := by
    intro e he
    obtain ⟨⟨start, more, hlies, hstart, hover⟩, hprops⟩ := h.opened e he
    obtain ⟨text, htext⟩ := hreach
    refine ⟨⟨start, more ++ text, hlies, hstart, ?_⟩, hprops⟩
    simpa using hover.trans htext
  errors := by
    intro e he
    rcases List.mem_append.1 he with he | he
    · exact herrors e (List.mem_reverse.1 he)
    · exact h.errors e he

/-- One more node. -/
theorem Sound.add {node : Node} (h : r.Sound mode source)
    (hnode : ∀ n ∈ node.family, n.Sound mode source r.errors)
    (hplace : node.TextInPlace source) :
    Reader.Sound mode source { r with nodes := node :: r.nodes } where
  lies := h.lies
  nodes := allSound_cons.2 ⟨hnode, h.nodes⟩
  texts := by
    intro n hn
    rcases List.mem_cons.1 hn with rfl | hn
    · exact hplace
    · exact h.texts n hn
  opened := h.opened
  errors := h.errors

/-- Nothing is lost by forgetting nodes and open elements. -/
theorem Sound.forget {nodes : List Node} {stack : List OpenElement} (h : r.Sound mode source)
    (hnodes : nodes ++ stack.flatMap OpenElement.before ⊆ r.siblings) (hstack : stack ⊆ r.stack) :
    Reader.Sound mode source { r with nodes := nodes, stack := stack } where
  lies := h.lies
  nodes := fun n hn => h.nodes n (Node.all_subset hnodes hn)
  texts := fun n hn => h.texts n (hnodes hn)
  opened := fun e he => h.opened e (hstack he)
  errors := h.errors

/-! ## What a step reads -/

/-- A text that is not empty, of its own or joined to the text before it. -/
theorem Sound.pushText {data : List Char} (errors : List ParseError)
    (hs : byteLength source ≤ maxOffset) (h : r.Sound mode source)
    (herrors : ∀ e ∈ errors, e.Justified source) (hdata : data ≠ [])
    (hover : r.cursor.Over data next) :
    ((r.report errors).pushText data next).Sound mode source := by
  have hplace : ∀ node ∈ r.nodes, node.TextInPlace source :=
    fun node hnode => h.texts node (List.mem_append_left _ hnode)
  have heq : (r.report errors).pushText data next
      = { r.report errors with
          cursor := next, nodes := ((r.report errors).pushText data next).nodes } := by
    have hcursor := (r.report errors).pushText_cursor data next
    have hstack := (r.report errors).pushText_stack data next
    have hsame := (r.report errors).pushText_errors data next
    cases hpushed : (r.report errors).pushText data next with
    | mk cursor nodes stack errors' =>
        rw [hpushed] at hcursor hstack hsame
        subst hcursor hstack hsame
        rfl
  rw [heq]
  rcases pushText_inPlace (r := r.report errors) hs h.lies hover hplace with
    hnew | ⟨c, old, blank, older, hold, hne, hc, hcd, hnew⟩
  · rw [hnew]
    exact (h.move errors hover.reaches herrors).add (Node.sound_text hdata rfl)
      ⟨hdata, r.cursor, next, h.lies, hover, rfl⟩
  · rw [hnew]
    rw [report_nodes] at hold
    have hsub : older ++ r.stack.flatMap OpenElement.before ⊆ r.siblings := by
      rw [siblings, hold]
      exact List.subset_cons_self _ _
    obtain ⟨-, hblank⟩ := (h.nodes (.text ⟨c.offset, r.cursor.offset⟩ old blank)
      (Node.mem_all.2 ⟨_, by rw [siblings, hold]; exact List.mem_cons_self,
        List.mem_singleton_self _⟩)).matchesSource
    have hjoined : (blank && isTagBlank data) = isTagBlank (old ++ data) := by
      rw [hblank, isTagBlank, isTagBlank, isTagBlank, List.all_append]
    exact ((h.forget hsub (List.Subset.refl _)).move errors hover.reaches herrors).add
      (Node.sound_text (by simp [hne]) hjoined)
      ⟨by simp [hne], c, next, hc, hcd.trans hover, rfl⟩

theorem Sound.readText (hs : byteLength source ≤ maxOffset) (h : r.Sound mode source)
    (hrest : r.cursor.rest ≠ []) : r.readText.Sound mode source := by
  refine Sound.pushText [] hs h (by simp) ?_ r.cursor.over_text
  intro hnil
  rw [List.append_eq_nil_iff] at hnil
  simp [hrest] at hnil

/-- A comment goes up to its end, or it has none and is reported. -/
theorem Sound.readComment (hs : byteLength source ≤ maxOffset) (h : r.Sound mode source)
    (hkind : r.cursor.kind = .commentOpen) : r.readComment.Sound mode source := by
  obtain ⟨after, hrest⟩ := Cursor.rest_of_kind hkind rfl
  have hopen : r.cursor.Over ['<', '!', '-', '-'] (r.cursor.drop 4) :=
    Cursor.over_drop_length hrest
  unfold Reader.readComment
  simp only
  split
  · rename_i data next hcut
    have hover := hopen.trans (Cursor.over_of_cutAt? hcut)
    refine (h.move [] hover.reaches (by simp)).add ?_ trivial
    intro n hn
    rw [Node.family, List.mem_singleton] at hn
    subst hn
    exact ⟨.ended (h.lies.slice?_spanTo hs hover), fun _ _ _ h => by cases h⟩
  · rename_i hcut
    have hover := hopen.trans (r.cursor.drop 4).over_toEnd
    have hspan := Cursor.spanTo_eq hs h.lies (h.lies.reaches hover.reaches)
    have htoken : r.cursor.tokenSpan = ⟨r.cursor.offset, r.cursor.offset + 4⟩ := by
      have hfour := Cursor.spanTo_eq hs h.lies (h.lies.reaches hopen.reaches)
      rw [hopen.2] at hfour
      exact (Cursor.tokenSpan_of_kind hkind rfl).trans hfour
    have hunended : ¬ ['-', '-', '>'] <:+: r.cursor.rest.drop 4 :=
      not_infix_of_cutAt?_eq_none (Option.map_eq_none_iff.1 hcut)
    refine (h.move _ hover.reaches ?_).add ?_ trivial
    · intro e he _
      rw [List.mem_singleton] at he
      rw [he, htoken]
      exact ⟨r.cursor, h.lies, rfl, hunended⟩
    · intro n hn
      rw [Node.family, List.mem_singleton] at hn
      subst hn
      refine ⟨.unended (h.lies.slice?_spanTo hs hover) ?_ ?_, fun _ _ _ h => by cases h⟩
      · rw [hspan]
        exact (h.lies.reaches hopen.reaches).toEnd_offset
      · rw [hspan, htoken]
        exact List.mem_append_left _ (List.mem_singleton_self _)

/-- An interpolation goes up to the first closing braces. -/
theorem Sound.readInterpolation (hs : byteLength source ≤ maxOffset) (h : r.Sound mode source)
    (hkind : r.cursor.kind = .mustacheOpen) : r.readInterpolation.Sound mode source := by
  obtain ⟨after, hrest⟩ := Cursor.rest_of_kind hkind rfl
  have hopen : r.cursor.Over ['\x7b', '\x7b'] (r.cursor.drop 2) := Cursor.over_drop_length hrest
  have hinner := h.lies.reaches hopen.reaches
  unfold Reader.readInterpolation
  simp only
  split
  · rename_i raw next hcut
    have hover := hopen.trans (Cursor.over_of_cutAt? hcut)
    refine (h.move [] hover.reaches (by simp)).add ?_ trivial
    intro n hn
    rw [Node.family, List.mem_singleton] at hn
    subst hn
    refine ⟨?_, fun _ _ _ h => by cases h⟩
    obtain ⟨⟨before, a⟩, hfirst, he⟩ := Option.map_eq_some_iff.1 hcut
    obtain ⟨rfl, -⟩ := Prod.mk.inj he
    have hclosed := not_infix_of_cutAt? (by simp) hfirst
    -- the blanks in front, the expression, and the blanks after it
    obtain ⟨right, hraw, hright⟩ := exists_eq_append_trim before
    obtain ⟨last, hbefore, -⟩ := Cursor.exists_over_of_cutAt? hcut
    rw [hraw] at hbefore
    obtain ⟨start, hleft, hmore⟩ := hbefore.exists_of_append
    obtain ⟨stop, hexpression, -⟩ := hmore.exists_of_append
    have hstart : (r.cursor.drop 2).offset + byteLength (before.takeWhile isBlank) = start.offset :=
      hleft.2.symm
    have hspan := Cursor.spanTo_eq hs h.lies (h.lies.reaches hover.reaches)
    have hspan' := Cursor.spanTo_eq hs (hinner.reaches hleft.reaches)
      (hinner.reaches (hleft.reaches.trans hexpression.reaches))
    refine ⟨before.takeWhile isBlank, right, ?_, List.all_takeWhile, hright, ?_, ?_, ?_⟩
    · rw [← hraw]
      exact h.lies.slice?_spanTo hs hover
    · rw [← hraw]
      exact hclosed
    · rw [hstart, ← hexpression.2, hspan]
      show (start.spanTo stop).start = r.cursor.offset + 2 + _
      rw [hspan', hleft.2, hopen.2]
      rfl
    · rw [hstart, ← hexpression.2]
      exact (hinner.reaches hleft.reaches).slice?_spanTo hs hexpression
  · refine Sound.pushText _ hs h ?_ (by simp) hopen
    intro e he hkind
    rw [List.mem_singleton] at he
    rw [he] at hkind
    cases hkind

theorem Sound.skipClosingTag (h : r.Sound mode source) : r.skipClosingTag.Sound mode source := by
  refine h.move _ r.cursor.reaches_pastTag ?_
  intro e he hkind
  rw [List.mem_singleton] at he
  rw [he] at hkind
  simp only at hkind
  split at hkind <;> cases hkind

/-! ## Elements -/

theorem Sound.readElement (hs : byteLength source ≤ maxOffset) (h : r.Sound mode source)
    (hkind : r.cursor.kind = .tagOpen) : r.readElement.Sound mode source := by
  obtain ⟨after, hrest⟩ := Cursor.rest_of_kind hkind rfl
  obtain ⟨inner, hopen, -⟩ := opening_readStartTag hrest
  have hprops := readStartTag_matchesSource hs h.lies
  have htag : ∀ (next : Cursor) (selfClosing : Bool), (readStartTag r.cursor).next.Reaches next →
      Tag.MatchesSource source ⟨r.cursor.spanTo next, (readStartTag r.cursor).value.name,
        (readStartTag r.cursor).value.props, selfClosing⟩ := by
    intro next selfClosing hnext
    obtain ⟨more, hmore⟩ := hnext
    refine ⟨⟨inner ++ more, ?_⟩, hprops⟩
    simpa using h.lies.slice?_spanTo hs (hopen.trans hmore)
  have hmoved := h.move (readStartTag r.cursor).errors hopen.reaches fun e he =>
    ParseError.justified_of_isAboutTag (readStartTag_isAboutTag r.cursor e he)
  unfold Reader.readElement
  simp only [report_cursor]
  -- an element without content, one of raw text, or one that is opened and read further
  split
  · exact hmoved.add (Node.sound_element (htag _ _ (Cursor.Reaches.refl _)) allSound_nil
      fun _ => childTexts_nil _) trivial
  · split
    · rename_i hraw
      have hreach := (readStartTag r.cursor).next.reaches_readRawText
        (readStartTag r.cursor).value.name (r.cursor.spanTo (readStartTag r.cursor).next)
      have hjustified := (readStartTag r.cursor).next.readRawText_isAboutTag
        (readStartTag r.cursor).value.name (r.cursor.spanTo (readStartTag r.cursor).next)
      obtain ⟨content, last, hover, hvalue, -⟩ := (readStartTag r.cursor).next.readRawText_cases
        (readStartTag r.cursor).value.name (r.cursor.spanTo (readStartTag r.cursor).next)
      have htexts := textsMatch_rawNodes hs hmoved.lies hover
      have hpre := not_isPreformatted_of_isRawTextElement hraw
      rw [hvalue]
      refine ((hmoved.move _ hreach fun e he =>
        ParseError.justified_of_isAboutTag (hjustified e he)).add (Node.sound_element
          (htag _ _ hreach) (allSound_rawNodes _ _ _) fun _ => ⟨fun _ => htexts, ?_⟩) trivial)
      intro htrue
      rw [hpre] at htrue
      cases htrue
    · refine ⟨hmoved.lies, ?_, ?_, ?_, hmoved.errors⟩
      · exact hmoved.nodes
      · exact hmoved.texts
      · intro e he
        rcases List.mem_cons.1 he with rfl | he
        · exact ⟨⟨r.cursor, inner, h.lies, rfl, hopen⟩, hprops⟩
        · exact hmoved.opened e he

/-- To close the innermost open element makes a node of it, wherever it ends. -/
theorem Sound.close {e : OpenElement} {outer : List OpenElement} (errors : List ParseError)
    (hs : byteLength source ≤ maxOffset) (h : r.Sound mode source)
    (hlossless : mode = .preserve → r.Lossless source) (hstack : r.stack = e :: outer)
    (herrors : ∀ x ∈ errors, x.Justified source) (hreach : r.cursor.Reaches next) :
    Reader.Sound mode source
      { r.report errors with
        cursor := next
        nodes := e.close next.offset (e.finishChildren mode outer r.nodes.reverse) :: e.before
        stack := outer } := by
  have hmem : e ∈ r.stack := hstack ▸ List.mem_cons_self
  have hsiblings : r.siblings = r.nodes ++ (e.before ++ outer.flatMap OpenElement.before) := by
    rw [siblings, hstack, List.flatMap_cons]
  have hinside : r.nodes.reverse ⊆ r.siblings := by
    rw [hsiblings]
    exact List.reverse_subset.2 (List.subset_append_left _ _)
  have houtside : e.before ++ outer.flatMap OpenElement.before ⊆ r.siblings := by
    rw [hsiblings]
    exact List.subset_append_right _ _
  have hmoved := (h.forget houtside (hstack ▸ List.subset_cons_self e outer)).move errors hreach
    herrors
  refine hmoved.add (Node.sound_element ?_ ?_ ?_) trivial
  · obtain ⟨⟨start, more, hlies, hstart, hover⟩, hprops⟩ := h.opened e hmem
    obtain ⟨text, htext⟩ := hreach
    refine ⟨⟨more ++ text, ?_⟩, hprops⟩
    show Span.slice? (.ofOffsets e.start next.offset) source = _
    rw [← hstart]
    have hslice := hlies.slice?_spanTo hs (hover.trans htext)
    rwa [List.cons_append, List.append_assoc] at hslice
  · refine AllSound.finishChildren e outer ?_
    exact fun n hn => (h.nodes.mono (List.subset_append_right errors.reverse r.errors)) n
      (Node.all_subset hinside hn)
  · rintro rfl
    -- nothing was lost between the start tag and the cursor, so what was read begins after the tag
    have hlevels := (hlossless rfl).levels
    rw [hstack] at hlevels
    obtain ⟨⟨_, -, -, hlevel⟩, ⟨start, hlies, hstart, -, hbody, -⟩, -⟩ := hlevels
    have hspan : start.offset = (Span.ofOffsets e.start next.offset).start := by
      rw [← hstart]
      exact (Nat.min_eq_left (Nat.le_trans hlies.offset_le hs)).symm
    exact childTexts_finishChildren e outer rfl hlies hspan (hbody ▸ hlevel.tiled)
      fun n hn => h.texts n (hinside hn)

/-! ## Runs -/

theorem Sound.step (hs : byteLength source ≤ maxOffset) (h : r.Sound mode source)
    (hlossless : mode = .preserve → r.Lossless source) : (r.step mode).Sound mode source := by
  apply step_cases
  case done => exact fun _ _ => h
  case text => exact fun htext => h.readText hs (Cursor.rest_ne_nil_of_startsText htext)
  case comment => exact fun hkind => h.readComment hs hkind
  case interpolation => exact fun hkind => h.readInterpolation hs hkind
  case element => exact fun hkind _ => h.readElement hs hkind
  case skip => exact fun _ _ => h.skipClosingTag
  case close =>
    intro _ e outer hstack _
    refine h.close _ hs hlossless hstack ?_ r.cursor.reaches_pastTag
    exact fun x hx => ParseError.justified_of_isAboutTag (r.cursor.readClosingTag_isAboutTag x hx)
  case abandon =>
    intro e outer hstack _
    refine h.close _ hs hlossless hstack ?_ (Cursor.Reaches.refl r.cursor)
    intro x hx
    rw [List.mem_singleton] at hx
    exact ParseError.justified_of_isAboutTag (hx ▸ rfl)

theorem sound_ofSource (mode : WhitespaceMode) (source : List Char) :
    (ofSource source).Sound mode source where
  lies := Cursor.liesIn_ofSource source
  nodes := allSound_nil
  texts := by simp [siblings, ofSource]
  opened := by simp [ofSource]
  errors := by simp [ofSource]

theorem sound_run (mode : WhitespaceMode) (hs : byteLength source ≤ maxOffset) :
    ((ofSource source).run mode).Sound mode source := by
  refine (run_induction (P := fun r => r.Sound mode source ∧ (mode = .preserve → r.Lossless source))
    ?_ _ ⟨sound_ofSource mode source, fun _ => lossless_ofSource source⟩).1
  rintro r - ⟨hsound, hlossless⟩
  refine ⟨hsound.step hs hlossless, ?_⟩
  rintro rfl
  exact (hlossless rfl).step hs

end

end Reader

/-! ## Templates -/

/-- A comment with an end is not reported as having none. -/
theorem CommentUnended.slice_ne {source data : List Char} {span : Span}
    (h : CommentUnended source span.start) :
    span.slice? source ≠ some (['<', '!', '-', '-'] ++ (data ++ ['-', '-', '>'])) := by
  intro hslice
  obtain ⟨c, hc, hstart, hnone⟩ := h
  obtain ⟨c', d, hc', hover, rfl⟩ := Cursor.exists_over_of_slice? hslice
  obtain rfl := Cursor.Reaches.eq_of_offset hc hc' hstart
  refine hnone ⟨data, d.rest, ?_⟩
  rw [hover.1]
  simp

/-- **Every span names its text.** Let the source be shorter than 2^32 bytes. In either mode every
node at any depth says what stands in the source at its spans, and a comment is reported as having
no end exactly if it goes on to the end of the source. Where white space is preserved a text is
what its span covers; only the first text of a preformatted element is that without the line break
it begins with, or is not there at all if it was just the line break. -/
theorem Template.read_matchesSource (mode : WhitespaceMode) (source : List Char)
    (hs : byteLength source ≤ maxOffset) :
    let t := Template.read mode source
    (∀ node ∈ Node.all t.nodes, node.MatchesSource source t.errors) ∧
    (∀ span data, .comment span data ∈ Node.all t.nodes →
      ((∃ e ∈ t.errors, e.kind = .unterminatedComment ∧ e.span.start = span.start) ↔
        span.slice? source ≠ some (['<', '!', '-', '-'] ++ (data ++ ['-', '-', '>'])))) ∧
    (mode = .preserve → TextsMatch source t.nodes ∧
      ∀ tag children, .element tag children ∈ Node.all t.nodes →
        ChildTexts source tag children) := by
  intro t
  have hsound := Reader.sound_run mode hs
  obtain ⟨-, hstack⟩ := Reader.isDone_iff.1 (Reader.run_isDone mode (Reader.ofSource source))
  have hsiblings : ((Reader.ofSource source).run mode).siblings
      = ((Reader.ofSource source).run mode).nodes := by
    rw [Reader.siblings, hstack, List.flatMap_nil, List.append_nil]
  have hsub : ((Reader.ofSource source).run mode).nodes.reverse
      ⊆ ((Reader.ofSource source).run mode).siblings := by
    rw [hsiblings]
    exact List.reverse_subset.2 (List.Subset.refl _)
  have hnodes : AllSound mode source t.errors t.nodes := by
    refine AllSound.finishSiblings [] fun n hn => ?_
    exact hsound.nodes.mono (List.subset_reverse.2 (List.Subset.refl _)) n (Node.all_subset hsub hn)
  refine ⟨fun node hnode => (hnodes node hnode).matchesSource, ?_, ?_⟩
  · intro span data hmem
    constructor
    · rintro ⟨e, he, hkind, hstart⟩
      have hunended := hsound.errors e (List.mem_reverse.1 he) hkind
      rw [hstart] at hunended
      exact hunended.slice_ne
    · intro hslice
      cases (hnodes _ hmem).matchesSource with
      | ended hended => exact absurd hended hslice
      | unended _ _ herror => exact ⟨_, herror, rfl, rfl⟩
  · rintro rfl
    refine ⟨?_, fun tag children hmem => (hnodes _ hmem).texts rfl tag children rfl⟩
    exact textsMatch_of_inPlace fun n hn => hsound.texts n (hsub hn)

/-- A directive, an interpolation and a comment without end, in preformatted content that begins
with a line break. -/
theorem Template.read_matchesSource_pre :
    byteLength "<pre :k=v>\nt\x7b\x7b e \x7d\x7d<!-- c".toList ≤ maxOffset ∧
    (∃ left right, InterpolationMatches "<pre :k=v>\nt\x7b\x7b e \x7d\x7d<!-- c".toList ⟨12, 19⟩
      ⟨15, 16⟩ left ['e'] right) ∧
    (Span.mk 19 25).slice? "<pre :k=v>\nt\x7b\x7b e \x7d\x7d<!-- c".toList
      ≠ some (['<', '!', '-', '-'] ++ ([' ', 'c'] ++ ['-', '-', '>'])) ∧
    TagProp.MatchesSource "<pre :k=v>\nt\x7b\x7b e \x7d\x7d<!-- c".toList
      (.directive ⟨⟨5, 9⟩, [':', 'k'], "bind".toList, some ⟨⟨6, 7⟩, ['k'], true⟩, [],
        some ⟨⟨8, 9⟩, ['v']⟩⟩) ∧
    PreformattedTexts "<pre :k=v>\nt\x7b\x7b e \x7d\x7d<!-- c".toList
      ⟨⟨0, 25⟩, "pre".toList, [.directive ⟨⟨5, 9⟩, [':', 'k'], "bind".toList,
        some ⟨⟨6, 7⟩, ['k'], true⟩, [], some ⟨⟨8, 9⟩, ['v']⟩⟩], false⟩
      [.text ⟨10, 12⟩ ['t'] false, .interpolation ⟨12, 19⟩ ⟨15, 16⟩ ['e'],
        .comment ⟨19, 25⟩ [' ', 'c']] := by
  obtain ⟨hmatch, hcomment, htexts⟩ := Template.read_matchesSource .preserve
    "<pre :k=v>\nt\x7b\x7b e \x7d\x7d<!-- c".toList (by decide)
  have hmem : Node.element ⟨⟨0, 25⟩, "pre".toList, [.directive ⟨⟨5, 9⟩, [':', 'k'], "bind".toList,
        some ⟨⟨6, 7⟩, ['k'], true⟩, [], some ⟨⟨8, 9⟩, ['v']⟩⟩], false⟩
      [.text ⟨10, 12⟩ ['t'] false, .interpolation ⟨12, 19⟩ ⟨15, 16⟩ ['e'],
        .comment ⟨19, 25⟩ [' ', 'c']]
      ∈ Node.all (Template.read .preserve
        "<pre :k=v>\nt\x7b\x7b e \x7d\x7d<!-- c".toList).nodes := by decide +kernel
  have hinner := hmatch (.interpolation ⟨12, 19⟩ ⟨15, 16⟩ ['e']) (by decide +kernel)
  have hunended := (hcomment ⟨19, 25⟩ [' ', 'c'] (by decide +kernel)).1
    ⟨⟨.unterminatedComment, ⟨19, 23⟩⟩, by decide +kernel, rfl, rfl⟩
  have htag := hmatch _ hmem
  exact ⟨by decide, hinner, hunended, htag.props _ (List.mem_singleton_self _),
    ((htexts rfl).2 _ _ hmem).2 (by decide)⟩

end AstroTemplate
