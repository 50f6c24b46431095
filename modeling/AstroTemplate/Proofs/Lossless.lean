import AstroTemplate.Proofs.Layout

set_option autoImplicit false

/-! # Reading loses nothing

Where white space is preserved, the top-level nodes of a template and the stray closing tags that
were reported tile its source (`Tiled`), and every element at any depth is laid out in it
(`LaidOut`).

The invariant `Reader.Lossless` says this of a template that is still being read, for the innermost
open element and for the siblings before each open element. Every step of the reader keeps it.
-/

namespace AstroTemplate

/-! ## Errors that are no stray closing tags -/

/-- Whether the error is about a closing tag outside of all elements. -/
def ParseError.isStray (e : ParseError) : Bool :=
  match e.kind with
  | .strayClosingTag _ => true
  | _ => false

/-- Whether the error is about something inside of a tag. -/
def ParseError.isInTag (e : ParseError) : Bool :=
  match e.kind with
  | .unfinishedStartTag _ | .endInsideTag | .invalidAttribute _ => true
  | _ => false

/-- Whether the error is about a tag that is there and not complete. -/
def ParseError.isAboutTag (e : ParseError) : Bool :=
  match e.kind with
  | .unclosedTag _ | .unfinishedStartTag _ | .endInsideTag | .invalidAttribute _ => true
  | _ => false

theorem ParseError.isAboutTag_of_isInTag {e : ParseError} (h : e.isInTag = true) :
    e.isAboutTag = true := by
  obtain ⟨kind, span⟩ := e
  cases kind <;> first | rfl | cases h

theorem ParseError.not_stray_of_isAboutTag {e : ParseError} (h : e.isAboutTag = true) :
    e.isStray = false := by
  obtain ⟨kind, span⟩ := e
  cases kind with
  | strayClosingTag found => cases h
  | _ => rfl

theorem readValue_isInTag (c : Cursor) : ∀ e ∈ (readValue c).errors, e.isInTag = true := by
  unfold readValue
  split
  · simp [ParseError.isInTag]
  · split
    · split <;> simp [ParseError.isInTag]
    · split <;> simp [ParseError.isInTag]

theorem readProp_isInTag (c : Cursor) : ∀ e ∈ (readProp c).errors, e.isInTag = true := by
  unfold readProp
  simp only
  split
  · exact readValue_isInTag _
  · simp

theorem readProps_isInTag (c : Cursor) : ∀ e ∈ (readProps c).errors, e.isInTag = true := by
  refine readProps_induction
    (motive := fun _ read => ∀ e ∈ read.errors, e.isInTag = true) ?_ ?_ c
  · intro c _ e he
    cases he
  · intro c one more hone ih e he
    rcases List.mem_append.1 he with he | he
    · obtain ⟨-, -, -, ⟨-, -, hnone | hmissing⟩ | ⟨-, -, hprop, -⟩⟩ := propTurn?_cases hone
      · rw [hnone] at he
        cases he
      · rw [hmissing, List.mem_singleton] at he
        rw [he]
        rfl
      · rw [hprop] at he
        exact readProp_isInTag _ e he
    · exact ih e he

theorem readStartTag_isInTag (c : Cursor) :
    ∀ e ∈ (readStartTag c).errors, e.isInTag = true := by
  have hprops := readProps_isInTag c.atProps
  unfold readStartTag
  simp only
  split
  · exact hprops
  · exact hprops
  all_goals
    intro e he
    rcases List.mem_append.1 he with he | he
    · exact hprops e he
    · rw [List.mem_singleton] at he
      rw [he]
      rfl

theorem Cursor.readClosingTag_isInTag (c : Cursor) :
    ∀ e ∈ c.readClosingTag.errors, e.isInTag = true := by
  unfold readClosingTag
  simp only
  split <;> simp [ParseError.isInTag]

theorem readStartTag_isAboutTag (c : Cursor) :
    ∀ e ∈ (readStartTag c).errors, e.isAboutTag = true := fun e he =>
  ParseError.isAboutTag_of_isInTag (readStartTag_isInTag c e he)

theorem Cursor.readClosingTag_isAboutTag (c : Cursor) :
    ∀ e ∈ c.readClosingTag.errors, e.isAboutTag = true := fun e he =>
  ParseError.isAboutTag_of_isInTag (c.readClosingTag_isInTag e he)

theorem Cursor.readRawText_isAboutTag (c : Cursor) (name : List Char) (span : Span) :
    ∀ e ∈ (c.readRawText name span).errors, e.isAboutTag = true := by
  unfold readRawText
  simp only
  split
  · exact readClosingTag_isAboutTag _
  · simp [ParseError.isAboutTag]

/-! ## What holds while a template is read -/

/-- A text holds what its span covers, which is not nothing. -/
def Node.TextInPlace (source : List Char) : Node → Prop
  | .text span data _ => data ≠ [] ∧ ∃ c d : Cursor, c.LiesIn source ∧ c.Over data d ∧
      span = ⟨c.offset, d.offset⟩
  | _ => True

/-- The siblings read so far, the last one first, together with the closing tags `gaps` that were
skipped between them, tile the source from `start` up to `stop`. -/
structure Level (source : List Char) (errors : List ParseError) (start stop : Nat)
    (gaps : List ParseError) (nodes : List Node) : Prop where
  tiled : Tiled start stop (nodes.reverse.map Node.span) (gaps.map ParseError.span)
  inPlace : ∀ node ∈ nodes, node.TextInPlace source
  laidOut : AllLaidOut source errors nodes

/-- The start tag of an open element stands in the source as the element says. -/
def OpenElement.InSource (source : List Char) (errors : List ParseError) (e : OpenElement) :
    Prop :=
  ∃ start : Cursor, start.LiesIn source ∧ start.offset = e.start ∧
    (readStartTag start).value = ⟨e.name, e.props, false⟩ ∧
    (readStartTag start).next.offset = e.contentStart ∧
    Opening errors e.name start (readStartTag start).next

/-- The siblings on each level: those read up to `stop` in the innermost open element, and those
before each open element in the one around it. All stray closing tags lie on the outermost level. -/
def Levels (source : List Char) (errors : List ParseError) :
    Nat → List Node → List OpenElement → Prop
  | stop, nodes, [] => Level source errors 0 stop (errors.filter ParseError.isStray) nodes
  | stop, nodes, e :: outer =>
    (∃ skipped : List ParseError, skipped.Sublist errors ∧
      (∀ x ∈ skipped, ∃ found, x.kind = .mismatchedClosingTag e.name found) ∧
      Level source errors e.contentStart stop skipped nodes) ∧
    e.InSource source errors ∧ Levels source errors e.start e.before outer

/-- Nothing of the source up to the cursor has been lost. -/
structure Reader.Lossless (source : List Char) (r : Reader) : Prop where
  lies : r.cursor.LiesIn source
  levels : Levels source r.errors.reverse r.cursor.offset r.nodes r.stack

theorem level_nil (source : List Char) (errors : List ParseError) (start : Nat) :
    Level source errors start start [] [] :=
  ⟨Tiled.nil start, by simp, allLaidOut_nil source errors⟩

section

variable {source : List Char} {errors : List ParseError} {start stop stop' : Nat}
  {gaps : List ParseError} {nodes nodes' : List Node} {stack : List OpenElement}

theorem Level.mono (h : Level source errors start stop gaps nodes) (more : List ParseError) :
    Level source (errors ++ more) start stop gaps nodes :=
  ⟨h.tiled, h.inPlace, h.laidOut.mono more⟩

theorem OpenElement.InSource.mono {e : OpenElement} (h : e.InSource source errors)
    (more : List ParseError) : e.InSource source (errors ++ more) := by
  obtain ⟨start, hlies, hstart, hvalue, hbody, hopening⟩ := h
  exact ⟨start, hlies, hstart, hvalue, hbody,
    hopening.mono (List.subset_append_left _ _)⟩

/-- Errors that are no stray closing tags change nothing on any level. -/
theorem Levels.mono {more : List ParseError} (hmore : ∀ e ∈ more, e.isStray = false)
    (h : Levels source errors stop nodes stack) :
    Levels source (errors ++ more) stop nodes stack := by
  induction stack generalizing stop nodes with
  | nil =>
      -- only here do errors make gaps, and those are the stray tags
      have hnone : more.filter ParseError.isStray = [] :=
        List.filter_eq_nil_iff.2 fun e he => by simp [hmore e he]
      have hlevel := Level.mono h more
      show Level source _ 0 stop ((errors ++ more).filter ParseError.isStray) nodes
      rwa [List.filter_append, hnone, List.append_nil]
  | cons e outer ih =>
      obtain ⟨⟨skipped, hsub, hkind, hlevel⟩, hopened, houter⟩ := h
      exact ⟨⟨skipped, hsub.trans (List.sublist_append_left _ _), hkind, hlevel.mono more⟩,
        hopened.mono more, ih houter⟩

/-- To read on in the innermost open element is to extend its level. -/
theorem Levels.extend (h : Levels source errors stop nodes stack)
    (hlevel : ∀ start gaps, Level source errors start stop gaps nodes →
      Level source errors start stop' gaps nodes') :
    Levels source errors stop' nodes' stack := by
  cases stack with
  | nil => exact hlevel _ _ h
  | cons e outer =>
      obtain ⟨⟨skipped, hsub, hkind, hinner⟩, hopened, houter⟩ := h
      exact ⟨⟨skipped, hsub, hkind, hlevel _ _ hinner⟩, hopened, houter⟩

/-- One more node on a level. -/
theorem Level.push {node : Node} (h : Level source errors start stop gaps nodes)
    (hlt : stop < stop') (hspan : node.span = ⟨stop, stop'⟩) (hplace : node.TextInPlace source)
    (hlaid : AllLaidOut source errors [node]) :
    Level source errors start stop' gaps (node :: nodes) := by
  refine ⟨?_, ?_, allLaidOut_cons hlaid h.laidOut⟩
  · rw [List.reverse_cons, List.map_append, List.map_singleton, hspan]
    exact h.tiled.snoc_part hlt
  · intro n hn
    rcases List.mem_cons.1 hn with rfl | hn
    · exact hplace
    · exact h.inPlace n hn

end

namespace Reader

/-! ## Adding nodes -/

section

variable {source : List Char} {r : Reader} {next : Cursor} {errors : List ParseError}

/-- Text is a node of its own, or it makes the text before it longer, which ends at the cursor. -/
theorem pushText_inPlace {data : List Char} (hs : byteLength source ≤ maxOffset)
    (hlies : r.cursor.LiesIn source) (hover : r.cursor.Over data next)
    (hplace : ∀ node ∈ r.nodes, node.TextInPlace source) :
    (r.pushText data next).nodes
        = .text ⟨r.cursor.offset, next.offset⟩ data (isTagBlank data) :: r.nodes ∨
      ∃ (c : Cursor) (old : List Char) (blank : Bool) (older : List Node),
        r.nodes = .text ⟨c.offset, r.cursor.offset⟩ old blank :: older ∧ old ≠ [] ∧
        c.LiesIn source ∧ c.Over old r.cursor ∧
        (r.pushText data next).nodes
          = .text ⟨c.offset, next.offset⟩ (old ++ data) (blank && isTagBlank data) :: older := by
  have hspan : r.cursor.spanTo next = ⟨r.cursor.offset, next.offset⟩ :=
    Cursor.spanTo_eq hs hlies (hlies.reaches hover.reaches)
  rcases r.pushText_nodes data next with
    ⟨hnew, -⟩ | ⟨before, old, blank, older, hold, htouch, hnew⟩
  · rw [hspan] at hnew
    exact .inl hnew
  · obtain ⟨hne, c, d, hc, hcd, rfl⟩ := hplace _ (hold ▸ List.mem_cons_self)
    -- the text before ends at the cursor, so the two texts are one
    have hd : d = r.cursor := by
      refine Cursor.Reaches.eq_of_offset (Cursor.LiesIn.reaches hc hcd.reaches) hlies ?_
      simpa [hspan] using htouch
    subst hd
    have hle : c.offset ≤ r.cursor.offset := hcd.reaches.offset_le
    have hcover : (Span.mk c.offset r.cursor.offset).cover (r.cursor.spanTo next)
        = ⟨c.offset, next.offset⟩ := by
      rw [hspan, Span.cover]
      congr 1
      · exact Nat.min_eq_left hle
      · exact Nat.max_eq_right hover.reaches.offset_le
    rw [hcover] at hnew
    exact .inr ⟨c, old, blank, older, hold, hne, hc, hcd, hnew⟩

theorem level_pushText {start : Nat} {gaps : List ParseError} {data : List Char}
    (hs : byteLength source ≤ maxOffset) (hlies : r.cursor.LiesIn source) (hdata : data ≠ [])
    (hover : r.cursor.Over data next)
    (h : Level source errors start r.cursor.offset gaps r.nodes) :
    Level source errors start next.offset gaps (r.pushText data next).nodes := by
  have hlt : r.cursor.offset < next.offset := hover.offset_lt hdata
  rcases pushText_inPlace hs hlies hover h.inPlace with
    hnew | ⟨c, old, blank, older, hold, hne, hc, hcd, hnew⟩
  · rw [hnew]
    exact h.push hlt rfl ⟨hdata, r.cursor, next, hlies, hover, rfl⟩
      (allLaidOut_leaf (by simp [Node.sort]))
  · rw [hold] at h
    rw [hnew]
    refine ⟨?_, ?_, ?_⟩
    · have htiled := h.tiled
      rw [List.reverse_cons, List.map_append, List.map_singleton] at htiled ⊢
      exact htiled.stretch_last hlt
    · intro n hn
      rcases List.mem_cons.1 hn with rfl | hn
      · exact ⟨by simp [hne], c, next, hc, hcd.trans hover, rfl⟩
      · exact h.inPlace n (List.mem_cons_of_mem _ hn)
    · exact allLaidOut_cons (allLaidOut_leaf (by simp [Node.sort]))
        (h.laidOut.of_subset (List.subset_cons_self _ _))

/-- Reading text loses nothing. -/
theorem Lossless.pushText {data : List Char} (errors : List ParseError)
    (hs : byteLength source ≤ maxOffset) (h : r.Lossless source)
    (herrors : ∀ e ∈ errors, e.isStray = false) (hdata : data ≠ [])
    (hover : r.cursor.Over data next) : ((r.report errors).pushText data next).Lossless source := by
  refine ⟨?_, ?_⟩
  · rw [pushText_cursor]
    exact h.lies.reaches hover.reaches
  · rw [pushText_cursor, pushText_stack, pushText_errors, report_errors_reverse]
    refine (h.levels.mono herrors).extend ?_
    intro start gaps hlevel
    exact level_pushText (r := r.report errors) hs h.lies hdata hover hlevel

/-- Reading a node loses nothing if the node covers what is read. -/
theorem Lossless.push {node : Node} (errors : List ParseError) (hs : byteLength source ≤ maxOffset)
    (h : r.Lossless source) (herrors : ∀ e ∈ errors, e.isStray = false)
    (hreach : r.cursor.Reaches next) (hlt : next.rest.length < r.cursor.rest.length)
    (hspan : node.span = r.cursor.spanTo next) (hplace : node.TextInPlace source)
    (hlaid : AllLaidOut source (r.errors.reverse ++ errors) [node]) :
    ((r.report errors).push node next).Lossless source := by
  have hnext : next.LiesIn source := h.lies.reaches hreach
  refine ⟨hnext, ?_⟩
  show Levels source (r.report errors).errors.reverse next.offset (node :: r.nodes) r.stack
  rw [report_errors_reverse]
  refine (h.levels.mono herrors).extend ?_
  intro start gaps hlevel
  rw [Cursor.spanTo_eq hs h.lies hnext] at hspan
  exact hlevel.push (hreach.offset_lt hlt) hspan hplace hlaid

/-! ## What a step reads -/

theorem Lossless.readText (hs : byteLength source ≤ maxOffset) (h : r.Lossless source)
    (hrest : r.cursor.rest ≠ []) : r.readText.Lossless source := by
  refine Lossless.pushText [] hs h (by simp) ?_ (r.cursor.over_text)
  intro hnil
  rw [List.append_eq_nil_iff] at hnil
  simp [hrest] at hnil

theorem Lossless.readComment (hs : byteLength source ≤ maxOffset) (h : r.Lossless source)
    (hrest : r.cursor.rest ≠ []) : r.readComment.Lossless source := by
  have hbody := (r.cursor.over_drop 4).reaches
  have hlen := r.cursor.drop_rest_le 4
  have hleaf : ∀ errors span data, AllLaidOut source errors [.comment span data] :=
    fun _ _ _ => allLaidOut_leaf (by simp [Node.sort])
  unfold Reader.readComment
  simp only
  split
  · rename_i data next hcut
    have hlt := Cursor.cutAt?_rest_lt (by simp) hcut
    exact Lossless.push [] hs h (by simp)
      (hbody.trans (Cursor.over_of_cutAt? hcut).reaches) (by omega) rfl trivial (hleaf _ _ _)
  · refine Lossless.push _ hs h (by simp [ParseError.isStray])
      (hbody.trans (Cursor.over_toEnd _).reaches) ?_ rfl trivial (hleaf _ _ _)
    exact List.length_pos_iff.2 hrest

theorem Lossless.readInterpolation (hs : byteLength source ≤ maxOffset) (h : r.Lossless source)
    (hkind : r.cursor.kind = .mustacheOpen) : r.readInterpolation.Lossless source := by
  obtain ⟨after, hrest⟩ := Cursor.rest_of_kind hkind rfl
  have hinner : r.cursor.Over ['\x7b', '\x7b'] (r.cursor.drop 2) :=
    Cursor.over_drop_length hrest
  have hlen := r.cursor.drop_rest_le 2
  unfold Reader.readInterpolation
  simp only
  split
  · rename_i raw next hcut
    have hlt := Cursor.cutAt?_rest_lt (by simp) hcut
    exact Lossless.push [] hs h (by simp)
      (hinner.reaches.trans (Cursor.over_of_cutAt? hcut).reaches) (by omega) rfl trivial
      (allLaidOut_leaf (by simp [Node.sort]))
  · exact Lossless.pushText _ hs h (by simp [ParseError.isStray]) (by simp) hinner

/-- Skipping a closing tag loses nothing, since it is reported where it stands. -/
theorem Lossless.skipClosingTag (hs : byteLength source ≤ maxOffset) (h : r.Lossless source)
    (hrest : r.cursor.rest ≠ []) : r.skipClosingTag.Lossless source := by
  have hnext : r.cursor.pastTag.LiesIn source := h.lies.reaches r.cursor.reaches_pastTag
  have hlt : r.cursor.offset < r.cursor.pastTag.offset :=
    r.cursor.reaches_pastTag.offset_lt (pastTag_rest_lt hrest)
  have hspan := Cursor.spanTo_eq hs h.lies hnext
  refine ⟨hnext, ?_⟩
  have hlevels := h.levels
  unfold Reader.skipClosingTag
  simp only [report_errors_reverse, report_nodes, report_stack]
  -- a stray closing tag lies between the outermost siblings, a mismatched one further in
  cases hstack : r.stack with
  | nil =>
      rw [hstack] at hlevels
      have hlevel := Level.mono hlevels
        [⟨.strayClosingTag r.cursor.closingName, r.cursor.spanTo r.cursor.pastTag⟩]
      show Level source _ 0 r.cursor.pastTag.offset _ r.nodes
      refine ⟨?_, hlevel.inPlace, hlevel.laidOut⟩
      rw [List.filter_append, List.filter_cons_of_pos rfl, List.filter_nil, List.map_append,
        List.map_singleton, hspan]
      exact hlevel.tiled.snoc_gap hlt
  | cons e outer =>
      rw [hstack] at hlevels
      obtain ⟨⟨skipped, hsub, hkind, hlevel⟩, hopened, houter⟩ := hlevels
      refine ⟨⟨skipped ++ [_], hsub.append (List.Sublist.refl _), ?_, ?_, hlevel.inPlace,
        hlevel.laidOut.mono _⟩, hopened.mono _, houter.mono (by simp [ParseError.isStray])⟩
      · intro x hx
        rcases List.mem_append.1 hx with hx | hx
        · exact hkind x hx
        · rw [List.mem_singleton] at hx
          exact ⟨r.cursor.closingName, by rw [hx]⟩
      · rw [List.map_append, List.map_singleton, hspan]
        exact hlevel.tiled.snoc_gap hlt

/-! ## Elements -/

theorem Lossless.readElement (hs : byteLength source ≤ maxOffset) (h : r.Lossless source)
    (hkind : r.cursor.kind = .tagOpen) : r.readElement.Lossless source := by
  obtain ⟨after, hafter⟩ := Cursor.rest_of_kind hkind rfl
  have hrest : r.cursor.rest ≠ [] := by
    rw [hafter]
    exact List.cons_ne_nil _ _
  have hopening := (opening_readStartTag hafter).mono
    (List.subset_append_right r.errors.reverse (readStartTag r.cursor).errors)
  have hreach := reaches_readStartTag r.cursor
  have hlt := readStartTag_rest_lt hrest
  have hstray : ∀ e ∈ (readStartTag r.cursor).errors, e.isStray = false := fun e he =>
    ParseError.not_stray_of_isAboutTag (readStartTag_isAboutTag r.cursor e he)
  unfold Reader.readElement
  simp only [report_cursor]
  -- an element without content, one of raw text, or one that is opened and read further
  split
  · rename_i hchildless
    refine Lossless.push _ hs h hstray hreach hlt rfl trivial ?_
    refine allLaidOut_element (laidOut_childless hs h.lies rfl hopening rfl ?_)
      (allLaidOut_nil _ _)
    simpa using hchildless
  · rename_i hcontent
    have hvalue : (readStartTag r.cursor).value
        = ⟨(readStartTag r.cursor).value.name, (readStartTag r.cursor).value.props, false⟩ := by
      cases hparts : (readStartTag r.cursor).value with
      | mk name props selfClosing =>
          rw [hparts] at hcontent
          simp at hcontent
          rw [hcontent.1]
    split
    · rw [report_report]
      obtain ⟨tail, hlaid⟩ := laidOut_rawText
        (r.errors.reverse ++ (readStartTag r.cursor).errors)
        ⟨r.cursor.spanTo ((readStartTag r.cursor).next.readRawText
          (readStartTag r.cursor).value.name (r.cursor.spanTo (readStartTag r.cursor).next)).next,
          _, _, _⟩ hs h.lies rfl rfl hopening rfl
      have hraw := Cursor.reaches_readRawText (readStartTag r.cursor).next
        (readStartTag r.cursor).value.name (r.cursor.spanTo (readStartTag r.cursor).next)
      have hrawLt := readRawText_rest_le (readStartTag r.cursor).next
        (readStartTag r.cursor).value.name (r.cursor.spanTo (readStartTag r.cursor).next)
      refine Lossless.push _ hs h ?_ (hreach.trans hraw) (by omega) rfl trivial ?_
      · intro e he
        rcases List.mem_append.1 he with he | he
        · exact hstray e he
        · exact ParseError.not_stray_of_isAboutTag (Cursor.readRawText_isAboutTag _ _ _ e he)
      · rw [← List.append_assoc]
        exact allLaidOut_element hlaid (allLaidOut_rawText _ _ _)
    · refine ⟨h.lies.reaches hreach, ?_⟩
      simp only [report_errors_reverse, report_nodes, report_stack]
      exact ⟨⟨[], List.nil_sublist _, by simp, level_nil _ _ _⟩,
        ⟨r.cursor, h.lies, rfl, hvalue, rfl, hopening⟩, h.levels.mono hstray⟩

/-! ## Closing an element -/

/-- A text that is nothing but a line break loses all of it. -/
theorem eq_of_dropBreak_nil {data : List Char} (hne : data ≠ []) (h : dropBreak data = []) :
    data = ['\n'] ∨ data = ['\r', '\n'] := by
  unfold dropBreak at h
  split at h
  · rw [h]
    exact .inr rfl
  · rw [h]
    exact .inl rfl
  · exact absurd h hne

/-- The children of a closed element are what was read in it; preformatted content may miss its
first line break. -/
theorem content_of_level {tag : Tag} {e : OpenElement} {outer : List OpenElement}
    {start stop : Nat} {skipped : List ParseError} {nodes : List Node} (hname : tag.name = e.name)
    (hsub : skipped.Sublist errors)
    (hkind : ∀ x ∈ skipped, ∃ found, x.kind = .mismatchedClosingTag e.name found)
    (h : Level source errors start stop skipped nodes) :
    Content source errors tag (e.finishChildren .preserve outer nodes.reverse) start stop := by
  rw [← hname] at hkind
  have htiled := h.tiled
  have hkept : Content source errors tag nodes.reverse start stop :=
    ⟨[], skipped, .inl rfl, hsub, hkind, htiled⟩
  unfold OpenElement.finishChildren
  split
  · rename_i hpre
    -- a text at the beginning keeps its span without its line break, unless nothing else is in it
    unfold dropLeadingBreak
    split
    · rename_i span data blank rest hnodes
      rw [hnodes] at htiled
      have hmem : Node.text span data blank ∈ nodes := by
        rw [← List.mem_reverse, hnodes]
        exact List.mem_cons_self
      obtain ⟨hne, c, d, hc, hover, rfl⟩ := h.inPlace _ hmem
      split
      · rename_i hempty
        have hslice := hc.slice_of_over hover
        refine ⟨[⟨c.offset, d.offset⟩], skipped, .inr ⟨hname ▸ hpre, _, rfl, ?_⟩, hsub, hkind,
          htiled⟩
        rw [hslice]
        exact eq_of_dropBreak_nil hne (List.isEmpty_iff.1 hempty)
      · exact ⟨[], skipped, .inl rfl, hsub, hkind, htiled⟩
    · exact hkept
  · simpa [finishSiblings] using hkept

theorem allLaidOut_finishChildren {e : OpenElement} {outer : List OpenElement}
    {nodes : List Node} (h : AllLaidOut source errors nodes) :
    AllLaidOut source errors (e.finishChildren .preserve outer nodes.reverse) := by
  have hreverse : AllLaidOut source errors nodes.reverse :=
    h.of_subset (List.reverse_subset.2 (List.Subset.refl _))
  unfold OpenElement.finishChildren
  split
  · intro tag children hmem
    exact hreverse tag children (Node.element_mem_all_of_dropLeadingBreak hmem)
  · simpa [finishSiblings] using hreverse

/-- Closing the innermost open element loses nothing, with whatever ending. -/
theorem Lossless.close {e : OpenElement} {outer : List OpenElement} (more : List ParseError)
    (hs : byteLength source ≤ maxOffset) (h : r.Lossless source) (hstack : r.stack = e :: outer)
    (hmore : ∀ x ∈ more, x.isStray = false) (hreach : r.cursor.Reaches next)
    (hend : ∀ start body : Cursor, start.LiesIn source → body.LiesIn source →
      start.offset = e.start → body.offset = e.contentStart →
      Ending (r.errors.reverse ++ more)
        ⟨.ofOffsets e.start next.offset, e.name, e.props, false⟩
        (e.finishChildren .preserve outer r.nodes.reverse) start body r.cursor next) :
    Reader.Lossless source
      { r.report more with
        cursor := next
        nodes := e.close next.offset (e.finishChildren .preserve outer r.nodes.reverse)
          :: e.before
        stack := outer } := by
  have hnext : next.LiesIn source := h.lies.reaches hreach
  have hlevels := h.levels.mono hmore
  rw [hstack] at hlevels
  obtain ⟨⟨skipped, hsub, hkind, hlevel⟩,
    ⟨start, hlies, hstart, hvalue, hbody, hopening⟩, houter⟩ := hlevels
  have hbodyLies := hlies.reaches (reaches_readStartTag start)
  have hbodyLt : start.offset < (readStartTag start).next.offset := by
    obtain ⟨inner, hover, -⟩ := hopening
    exact hover.offset_lt (List.cons_ne_nil _ _)
  -- the children lie between the start tag and the cursor, so the one is before the other
  have htail : (readStartTag start).next.Reaches r.cursor :=
    hbodyLies.reaches_of_le h.lies (hbody ▸ hlevel.tiled.le)
  have hspan : Span.ofOffsets e.start next.offset = ⟨start.offset, next.offset⟩ := by
    rw [← hstart]
    exact Cursor.spanTo_eq hs hlies hnext
  have hprops := readStartTag_inOrder hs hlies
  rw [hvalue] at hprops
  refine ⟨hnext, ?_⟩
  simp only [report_errors_reverse]
  refine houter.extend ?_
  intro from_ gaps hbefore
  refine hbefore.push ?_ (hstart ▸ hspan) trivial (allLaidOut_element
    ⟨hlies, hvalue, rfl, hopening, htail, hreach, hspan, hprops, ?_,
      hend start _ hlies hbodyLies hstart hbody⟩
    (allLaidOut_finishChildren hlevel.laidOut))
  · have := htail.offset_le
    have := hreach.offset_le
    omega
  · rw [hbody]
    exact content_of_level rfl hsub hkind hlevel

theorem Lossless.closeElement {e : OpenElement} {outer : List OpenElement}
    (hs : byteLength source ≤ maxOffset) (h : r.Lossless source) (hstack : r.stack = e :: outer)
    (hkind : r.cursor.kind = .closingTagOpen)
    (hname : sameName e.name r.cursor.closingName = true) :
    (r.closeElement .preserve e outer).Lossless source := by
  have hstray : ∀ x ∈ r.cursor.readClosingTag.errors, x.isStray = false := fun x hx =>
    ParseError.not_stray_of_isAboutTag (r.cursor.readClosingTag_isAboutTag x hx)
  refine Lossless.close _ hs h hstack hstray r.cursor.reaches_pastTag ?_
  intro start body _ _ _ _
  obtain ⟨text, hover, htext | ⟨hstop, herror⟩⟩ := Cursor.over_ownClosingTag hkind hname
  · exact .closed text hover htext
  · exact .cutShort hstop ⟨⟨.endInsideTag, r.cursor.tokenSpan⟩, by rw [herror]; simp, rfl⟩

theorem Lossless.abandonElement {e : OpenElement} {outer : List OpenElement}
    (hs : byteLength source ≤ maxOffset) (h : r.Lossless source) (hstack : r.stack = e :: outer) :
    (r.abandonElement .preserve e outer).Lossless source := by
  refine Lossless.close _ hs h hstack (by simp [ParseError.isStray])
    (Cursor.Reaches.refl r.cursor) ?_
  intro start body hlies hbodyLies hstart hbody
  refine .unclosed rfl ?_
  have hspan : e.startTagSpan = ⟨start.offset, body.offset⟩ := by
    rw [OpenElement.startTagSpan, ← hstart, ← hbody]
    exact Cursor.spanTo_eq hs hlies hbodyLies
  rw [hspan]
  exact List.mem_append_right _ (List.mem_singleton_self _)

/-! ## Runs -/

theorem Lossless.step (hs : byteLength source ≤ maxOffset) (h : r.Lossless source) :
    (r.step .preserve).Lossless source := by
  apply step_cases
  case done => exact fun _ _ => h
  case text => exact fun htext => h.readText hs (Cursor.rest_ne_nil_of_startsText htext)
  case comment =>
    intro hkind
    exact h.readComment hs (rest_ne_nil_of_kind (by rw [hkind]; decide))
  case interpolation => exact fun hkind => h.readInterpolation hs hkind
  case element => exact fun hkind _ => h.readElement hs hkind
  case skip =>
    intro hkind _
    exact h.skipClosingTag hs (rest_ne_nil_of_kind (by rw [hkind]; decide))
  case close =>
    intro hkind e outer hstack hname
    exact h.closeElement hs hstack hkind hname
  case abandon => exact fun e outer hstack _ => h.abandonElement hs hstack

theorem lossless_ofSource (source : List Char) : (ofSource source).Lossless source :=
  ⟨Cursor.liesIn_ofSource source, level_nil source [] 0⟩

theorem lossless_run (hs : byteLength source ≤ maxOffset) :
    ((ofSource source).run .preserve).Lossless source :=
  run_induction (fun _ _ h => h.step hs) _ (lossless_ofSource source)

end

end Reader

/-! ## Templates -/

/-- The errors of a template that are about stray closing tags, in order. -/
def Template.strays (t : Template) : List ParseError := t.errors.filter ParseError.isStray

theorem Template.read_level {source : List Char} (hs : byteLength source ≤ maxOffset) :
    Level source (Template.read .preserve source).errors 0 (byteLength source)
      (Template.read .preserve source).strays (Template.read .preserve source).nodes.reverse := by
  have hlossless := Reader.lossless_run hs
  have hdone := Reader.isDone_iff.1 (Reader.run_isDone .preserve (Reader.ofSource source))
  have hlevels := hlossless.levels
  rw [hdone.2, hlossless.lies.offset_of_rest_nil hdone.1] at hlevels
  simpa [Template.read, Template.strays, finishSiblings, Levels] using hlevels

/-- **Reading loses nothing.** Let the source be shorter than 2^32 bytes, so that its offsets fit
into spans. Every byte of it lies in exactly one top-level node or one reported stray closing tag,
and these follow each other without gaps. Every element lies in the source as its start tag with
its attributes in order, its content, and its closing tag; between its children lie only closing
tags reported as mismatched. If nothing was reported, an element that can have children is its
start tag, its children and its closing tag. -/
theorem Template.read_lossless (source : List Char) (hs : byteLength source ≤ maxOffset) :
    let t := Template.read .preserve source
    (Tiled 0 (byteLength source) (t.nodes.map Node.span) (t.strays.map ParseError.span) ∧
      ∀ offset < byteLength source,
        (t.nodes.map Node.span ++ t.strays.map ParseError.span).countP (·.covers offset) = 1) ∧
    (∀ tag children, .element tag children ∈ Node.all t.nodes →
      ∃ start body tail stop, LaidOut source t.errors tag children start body tail stop) ∧
    (t.errors = [] → ∀ tag children, .element tag children ∈ Node.all t.nodes →
      tag.selfClosing = false → isVoidElement tag.name = false →
      ∃ (start body tail stop : Cursor) (inner closing : List Char) (missing : List Span),
        start.LiesIn source ∧ tag.span = ⟨start.offset, stop.offset⟩ ∧
        start.Over ('<' :: (tag.name ++ inner)) body ∧ inner.getLast? = some '>' ∧
        MissingBreak source tag missing ∧
        Tiled body.offset tail.offset (missing ++ children.map Node.span) [] ∧
        tail.Over closing stop ∧ IsClosingTag tag.name closing) := by
  intro t
  have hlevel := Template.read_level hs
  have htiled : Tiled 0 (byteLength source) (t.nodes.map Node.span)
      (t.strays.map ParseError.span) := by
    simpa using hlevel.tiled
  have hlaid : AllLaidOut source t.errors t.nodes :=
    hlevel.laidOut.of_subset (List.subset_reverse.2 (List.Subset.refl _))
  refine ⟨⟨htiled, ?_⟩, hlaid, ?_⟩
  · intro offset hoffset
    exact htiled.countP_eq_one (Nat.zero_le _) hoffset
  · intro hnone tag children hmem hself hvoid
    obtain ⟨start, body, tail, stop, hout⟩ := hlaid tag children hmem
    rw [hnone] at hout
    obtain ⟨inner, missing, closing, hinner, hgt, hmissing, hchildren, hover, hclosing⟩ :=
      hout.of_no_errors hself hvoid
    exact ⟨start, body, tail, stop, inner, closing, missing, hout.lies, hout.span, hinner, hgt,
      hmissing, hchildren, hover, hclosing⟩

/-- A stray closing tag in front of an element, and preformatted content without its line break. -/
theorem Template.read_lossless_pre :
    (byteLength "</x><p>a</y>b</p>".toList ≤ maxOffset ∧ Tiled 0 17 [⟨4, 17⟩] [⟨0, 4⟩]) ∧
    byteLength "<pre>\n<b>c</b></pre>".toList ≤ maxOffset ∧
    (Template.read .preserve "<pre>\n<b>c</b></pre>".toList).errors = [] ∧
    ∃ (body tail stop : Cursor) (missing : List Span) (closing : List Char),
      Tiled body.offset tail.offset (missing ++ [⟨6, 14⟩]) [] ∧
      tail.Over closing stop ∧ IsClosingTag "pre".toList closing := by
  have hstray := (Template.read_lossless "</x><p>a</y>b</p>".toList (by decide)).1.1
  have hspans : (Template.read .preserve "</x><p>a</y>b</p>".toList).nodes.map Node.span
      = [⟨4, 17⟩] := by decide +kernel
  have hstrays : (Template.read .preserve "</x><p>a</y>b</p>".toList).strays.map ParseError.span
      = [⟨0, 4⟩] := by decide +kernel
  rw [hspans, hstrays] at hstray
  have hnone : (Template.read .preserve "<pre>\n<b>c</b></pre>".toList).errors = [] := by
    decide +kernel
  obtain ⟨_, body, tail, stop, _, closing, missing, -, -, -, -, -, htiled, hover, hclosing⟩ :=
    (Template.read_lossless "<pre>\n<b>c</b></pre>".toList (by decide)).2.2 hnone
      ⟨⟨0, 20⟩, "pre".toList, [], false⟩
      [.element ⟨⟨6, 14⟩, ['b'], [], false⟩ [.text ⟨9, 10⟩ ['c'] false]]
      (by decide +kernel) rfl (by decide)
  exact ⟨⟨by decide, hstray⟩, by decide, hnone, body, tail, stop, missing, closing, htiled, hover,
    hclosing⟩

end AstroTemplate
