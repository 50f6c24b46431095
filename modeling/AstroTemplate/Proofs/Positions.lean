import AstroTemplate.Lint.PageCheck
import AstroTemplate.Run.Report
import AstroTemplate.Proofs.FrontmatterKept
import AstroTemplate.Proofs.IgnoredDirectives
import AstroTemplate.Proofs.Origins
import AstroTemplate.Proofs.OrphanBranches

set_option autoImplicit false

/-! # Positions of reports

A diagnostic on a template is about an error, an attribute or a directive (`Tag.ReportedAt`), and
so about a span between two places of the template (`Span.Between`). The template is the end of its
page, so each of its places is a place of the page, further on by the length of what stands before
the template (`Cursor.LiesIn.append_left`). Hence every position that is reported for a page exists
there and names the text that the check has seen (`Diagnostic.PlacedIn`).
-/

namespace AstroTemplate

/-- The diagnostics on a template, with places counted from its beginning. -/
def templateDiagnostics (body : List Char) : List Diagnostic :=
  let template := Template.read .condense body
  Diagnostic.sortByPlace (template.errors.map .ofParseError ++ checkNodes {} template.nodes)

/-- The text can be cut at the offset. -/
def OnBoundary (source : List Char) (offset : Nat) : Prop :=
  ∃ before after, source = before ++ after ∧ byteLength before = offset

/-- The diagnostic `d` on the page that `source` holds is about the text that the diagnostic `inner`
on its template is about, and both of its ends are positions of the page. -/
structure Diagnostic.PlacedIn (d : Diagnostic) (source : List Char) (page : Page)
    (inner : Diagnostic) : Prop where
  shifted : d = inner.shift page.bodyOffset
  after_frontmatter : page.bodyOffset ≤ d.span.start
  forward : d.span.start ≤ d.span.stop
  in_source : d.span.stop ≤ byteLength source
  start_boundary : OnBoundary source d.span.start
  stop_boundary : OnBoundary source d.span.stop
  same_text : ∃ text, d.span.slice? source = some text ∧ inner.span.slice? page.body = some text
  start_position : ((LineIndex.ofText source).lineCol? d.span.start).isSome = true
  stop_position : ((LineIndex.ofText source).lineCol? d.span.stop).isSome = true

/-! ## Lines and columns -/

theorem LineIndex.lineCol?_isSome {text : List Char} {offset : Nat} (h : offset ≤ byteLength text) :
    ((ofText text).lineCol? offset).isSome = true := by
  have hle : ¬ offset > (ofText text).length := Nat.not_lt.2 h
  rw [lineCol?, if_neg hle]
  rfl

/-- Lines and columns count from one. -/
theorem LineIndex.one_le_of_lineCol? {text : List Char} {offset : Nat} {place : LineCol}
    (h : (ofText text).lineCol? offset = some place) : 1 ≤ place.line ∧ 1 ≤ place.column := by
  unfold lineCol? at h
  split at h
  · cases h
  · obtain rfl := Option.some.inj h
    refine ⟨?_, Nat.le_add_left 1 _⟩
    -- the first line begins at the beginning of the text
    show 1 ≤ ((0 :: startsAfterBreaks 0 text).takeWhile (· ≤ offset)).length
    rw [List.takeWhile_cons_of_pos (by simp)]
    exact Nat.le_add_left 1 _

/-! ## Places of the end of a text -/

theorem Cursor.LiesIn.append_left {body : List Char} {c : Cursor} (hc : c.LiesIn body)
    (before : List Char) :
    (Cursor.mk (byteLength before + c.offset) c.rest).LiesIn (before ++ body) := by
  obtain ⟨text, rfl, hoffset⟩ := Cursor.liesIn_iff.1 hc
  refine Cursor.liesIn_iff.2 ⟨before ++ text, ?_, ?_⟩
  · exact (List.append_assoc before text c.rest).symm
  · rw [hoffset, byteLength_append]

theorem Cursor.LiesIn.onBoundary {source : List Char} {c : Cursor} (hc : c.LiesIn source) :
    OnBoundary source c.offset := by
  obtain ⟨before, hsource, hoffset⟩ := Cursor.liesIn_iff.1 hc
  exact ⟨before, c.rest, hsource, hoffset.symm⟩

/-- A span between places of the end of a text, moved by the length of what stands before it, lies
between places of the text and covers the same. -/
theorem Span.Between.exists_shift {before body : List Char} {span : Span}
    (hs : byteLength (before ++ body) ≤ maxOffset) (h : span.Between body) :
    ∃ (c d : Cursor) (text : List Char), c.LiesIn (before ++ body) ∧ c.Over text d ∧
      span.shift (byteLength before) = ⟨c.offset, d.offset⟩ ∧ span.slice? body = some text ∧
      byteLength before ≤ c.offset := by
  obtain ⟨c, d, hc, hreach, rfl⟩ := h
  obtain ⟨text, hover⟩ := hreach
  have hbody : byteLength body ≤ maxOffset := by
    rw [byteLength_append] at hs
    omega
  have hd := hc.reaches hover.reaches
  have hc' := hc.append_left before
  have hd' := hd.append_left before
  have hspan := Cursor.spanTo_eq hbody hc hd
  refine ⟨_, ⟨byteLength before + d.offset, d.rest⟩, text, hc', ⟨hover.1, ?_⟩, ?_,
    hc.slice?_spanTo hbody hover, Nat.le_add_right _ _⟩
  · show byteLength before + d.offset = byteLength before + c.offset + byteLength text
    have := hover.2
    omega
  · rw [hspan, Span.shift, Nat.add_comm c.offset, Nat.add_comm d.offset]
    exact Span.ofOffsets_eq (Nat.le_trans hc'.offset_le hs) (Nat.le_trans hd'.offset_le hs)

/-! ## What the checks report -/

/-- The span is that of an attribute or a directive of the tag. -/
def Tag.ReportedAt (tag : Tag) (span : Span) : Prop := ∃ p ∈ tag.props, span = p.span

theorem Tag.reportedAt_of_mem {tag : Tag} {d : Directive} (h : d ∈ tag.directives) :
    tag.ReportedAt d.span := by
  obtain ⟨p, hp, hd⟩ := List.mem_filterMap.1 h
  cases p with
  | plain a => cases hd
  | directive d' =>
      obtain rfl := Option.some.inj hd
      exact ⟨.directive d', hp, rfl⟩

theorem Tag.reportedAt_of_directive? {tag : Tag} {kind : DirectiveKind} {d : Directive}
    (h : tag.directive? kind = some d) : tag.ReportedAt d.span :=
  Tag.reportedAt_of_mem (List.mem_of_find?_eq_some h)

/-- What is repeated is among the members. -/
theorem mem_of_mem_repeated {α β : Type} [DecidableEq β] {key? : α → Option β} {members : List α}
    {a : α} {key : β} (h : (a, key) ∈ repeated key? [] members) : a ∈ members := by
  refine (perm_unrepeated_append key? [] members).mem_iff.2 (List.mem_append_right _ ?_)
  exact List.mem_map.2 ⟨(a, key), h, rfl⟩

section

variable {tag : Tag} {d : Diagnostic}

theorem Tag.reportedAt_repeatedAttributes (h : d ∈ tag.repeatedAttributes) :
    tag.ReportedAt d.span := by
  obtain ⟨⟨prop, name⟩, hmem, rfl⟩ := List.mem_map.1 h
  exact ⟨prop, mem_of_mem_repeated hmem, rfl⟩

theorem Tag.reportedAt_repeatedDirectives (h : d ∈ tag.repeatedDirectives) :
    tag.ReportedAt d.span := by
  obtain ⟨⟨directive, role⟩, hmem, rfl⟩ := List.mem_map.1 h
  exact Tag.reportedAt_of_mem (mem_of_mem_repeated hmem)

/-- A branch without a chain is reported at the directive that makes it a branch. -/
theorem Tag.reportedAt_orphanBranch (h : d ∈ tag.orphanBranch) : tag.ReportedAt d.span := by
  have hspan : d.span ∈ tag.laterBranch?.toList.map Directive.span := by
    rw [← tag.span_orphanBranch]
    exact List.mem_map_of_mem h
  obtain ⟨directive, hdirective, hd⟩ := List.mem_map.1 hspan
  rw [Option.mem_toList] at hdirective
  rw [← hd]
  unfold Tag.laterBranch? at hdirective
  split at hdirective
  · exact Tag.reportedAt_of_directive? hdirective
  · exact Tag.reportedAt_of_directive? hdirective
  · cases hdirective

theorem Tag.reportedAt_checkContent {children : List Node} (h : d ∈ tag.checkContent children) :
    tag.ReportedAt d.span := by
  rcases List.mem_append.1 h with hconflict | hdiscarded
  · split at hconflict
    · rename_i t _ htext
      obtain rfl := List.mem_singleton.1 hconflict
      exact Tag.reportedAt_of_directive? htext
    · cases hconflict
  · split at hdiscarded
    · rename_i directive hcontent
      split at hdiscarded
      · obtain rfl := List.mem_singleton.1 hdiscarded
        rcases Option.or_eq_some_iff.1 hcontent with hhtml | ⟨-, htext⟩
        · exact Tag.reportedAt_of_directive? hhtml
        · exact Tag.reportedAt_of_directive? htext
      · cases hdiscarded
    · cases hdiscarded

theorem Tag.reportedAt_checkVisibility (h : d ∈ tag.checkVisibility) : tag.ReportedAt d.span := by
  unfold Tag.checkVisibility at h
  split at h
  · split at h
    · rename_i directive hfound
      have hmem := List.mem_of_find?_eq_some hfound
      split at h
      · obtain rfl := List.mem_singleton.1 h
        exact Tag.reportedAt_of_mem hmem
      · obtain rfl := List.mem_singleton.1 h
        exact Tag.reportedAt_of_mem hmem
      · cases h
    · cases h
  · cases h

/-- Every report on a directive is at that directive. -/
theorem Directive.span_of_mem_checkMeaning {directive : Directive}
    (h : d ∈ directive.checkMeaning) : d.span = directive.span := by
  unfold Directive.checkMeaning at h
  split at h
  · unfold Directive.checkLoop at h
    split at h
    · rw [List.mem_singleton.1 h]
      rfl
    · simp only at h
      split at h
      · rw [List.mem_singleton.1 h]
        rfl
      · split at h
        · rw [List.mem_singleton.1 h]
          rfl
        · cases h
  · rw [List.mem_singleton.1 h]
    rfl
  · rw [List.mem_singleton.1 h]
    rfl
  · cases h

end

/-- The span is that of an attribute or a directive in one of the nodes. -/
def ReportedIn (nodes : List Node) (span : Span) : Prop :=
  ∃ tag children, .element tag children ∈ nodes ∧ tag.ReportedAt span

theorem ReportedIn.mono {nodes others : List Node} {span : Span} (h : ReportedIn nodes span)
    (hsub : nodes ⊆ others) : ReportedIn others span := by
  obtain ⟨tag, children, hmem, hspan⟩ := h
  exact ⟨tag, children, hsub hmem, hspan⟩

theorem Tag.ReportedAt.reportedIn {tag : Tag} {children : List Node} {span : Span}
    (h : tag.ReportedAt span) : ReportedIn (Node.element tag children).family span :=
  ⟨tag, children, Node.mem_family_element.2 (.inl rfl), h⟩

/-- What the checks of the structure can report on an element itself. -/
def Tag.structureReports (tag : Tag) : List Diagnostic :=
  tag.repeatedAttributes ++ tag.repeatedDirectives ++ tag.orphanBranch

theorem Tag.reportedAt_structureReports {tag : Tag} {d : Diagnostic}
    (h : d ∈ tag.structureReports) : tag.ReportedAt d.span := by
  rcases List.mem_append.1 h with hd | hd
  · rcases List.mem_append.1 hd with hd | hd
    · exact Tag.reportedAt_repeatedAttributes hd
    · exact Tag.reportedAt_repeatedDirectives hd
  · exact Tag.reportedAt_orphanBranch hd

/-- The diagnostic is a report on the structure of one of the nodes itself. -/
def ReportsStructureOf (nodes : List Node) (d : Diagnostic) : Prop :=
  ∃ tag children, .element tag children ∈ nodes ∧ d ∈ tag.structureReports

theorem ReportsStructureOf.mono {nodes others : List Node} {d : Diagnostic}
    (h : ReportsStructureOf nodes d) (hsub : nodes ⊆ others) : ReportsStructureOf others d := by
  obtain ⟨tag, children, hmem, hd⟩ := h
  exact ⟨tag, children, hsub hmem, hd⟩

theorem reportsStructureOf_orphanBranches {siblings : List Node} {d : Diagnostic}
    (h : d ∈ orphanBranches siblings) : ReportsStructureOf siblings d := by
  rw [orphanBranches_eq] at h
  obtain ⟨⟨node, place⟩, hplace, hd⟩ := List.mem_flatMap.1 h
  have hnode : node ∈ siblings := List.fst_mem_of_mem_zipIdx hplace
  split at hd
  · cases hd
  · cases node with
    | element tag children => exact ⟨tag, children, hnode, List.mem_append_right _ hd⟩
    | text => cases hd
    | interpolation => cases hd
    | comment => cases hd

theorem Node.reportsStructureOf_checkStructure (node : Node) :
    ∀ d ∈ node.checkStructure, ReportsStructureOf node.family d := by
  induction node using Node.tree_induction with
  | leaf node hleaf =>
      cases node with
      | element => exact absurd rfl hleaf
      | text => exact List.forall_mem_nil _
      | interpolation => exact List.forall_mem_nil _
      | comment => exact List.forall_mem_nil _
  | element tag children ih =>
      intro d hd
      rw [Node.checkStructure, Node.checkStructures_eq_flatMap] at hd
      rcases List.mem_append.1 hd with hown | hinside
      · exact ⟨tag, children, Node.mem_family_element.2 (.inl rfl), List.mem_append_left _ hown⟩
      · rcases List.mem_append.1 hinside with hd | hd
        · refine (reportsStructureOf_orphanBranches hd).mono fun child hchild => ?_
          exact Node.mem_family_element.2 (.inr (Node.subset_all children hchild))
        · obtain ⟨child, hchild, hd⟩ := List.mem_flatMap.1 hd
          exact (ih child hchild d hd).mono (Node.family_subset_element hchild tag)

theorem reportsStructureOf_checkStructure {nodes : List Node} {d : Diagnostic}
    (h : d ∈ checkStructure nodes) : ReportsStructureOf (Node.all nodes) d := by
  rw [checkStructure, Node.checkStructures_eq_flatMap] at h
  rcases List.mem_append.1 h with hd | hd
  · exact (reportsStructureOf_orphanBranches hd).mono (Node.subset_all nodes)
  · obtain ⟨node, hnode, hd⟩ := List.mem_flatMap.1 hd
    exact (node.reportsStructureOf_checkStructure d hd).mono (Node.family_subset_all hnode)

theorem Node.checkMeanings_eq_flatMap (nodes : List Node) :
    Node.checkMeanings nodes = nodes.flatMap Node.checkMeaning := by
  induction nodes with
  | nil => rfl
  | cons node rest ih => rw [Node.checkMeanings, ih, List.flatMap_cons]

theorem Node.reportedIn_checkMeaning (node : Node) :
    ∀ d ∈ node.checkMeaning, ReportedIn node.family d.span := by
  induction node using Node.tree_induction with
  | leaf node hleaf =>
      cases node with
      | element => exact absurd rfl hleaf
      | text => exact List.forall_mem_nil _
      | interpolation => exact List.forall_mem_nil _
      | comment => exact List.forall_mem_nil _
  | element tag children ih =>
      intro d hd
      rw [Node.checkMeaning, Node.checkMeanings_eq_flatMap] at hd
      rcases List.mem_append.1 hd with hown | hinside
      · rcases List.mem_append.1 hown with hown | hd
        · rcases List.mem_append.1 hown with hd | hd
          · exact (Tag.reportedAt_checkContent hd).reportedIn
          · obtain ⟨directive, hdirective, hd⟩ := List.mem_flatMap.1 hd
            rw [Directive.span_of_mem_checkMeaning hd]
            exact (Tag.reportedAt_of_mem hdirective).reportedIn
        · exact (Tag.reportedAt_checkVisibility hd).reportedIn
      · obtain ⟨child, hchild, hd⟩ := List.mem_flatMap.1 hinside
        exact (ih child hchild d hd).mono (Node.family_subset_element hchild tag)

/-- The checks report attributes and directives of the tree. -/
theorem reportedIn_checkNodes {options : CheckOptions} {nodes : List Node} {d : Diagnostic}
    (h : d ∈ checkNodes options nodes) : ReportedIn (Node.all nodes) d.span := by
  rw [checkNodes, Diagnostic.sortByPlace, List.mem_mergeSort] at h
  rcases List.mem_append.1 h with hd | hd
  · split at hd
    · obtain ⟨tag, children, hmem, hd⟩ := reportsStructureOf_checkStructure hd
      exact ⟨tag, children, hmem, Tag.reportedAt_structureReports hd⟩
    · cases hd
  · split at hd
    · rw [checkMeaning, Node.checkMeanings_eq_flatMap] at hd
      obtain ⟨node, hnode, hd⟩ := List.mem_flatMap.1 hd
      exact (node.reportedIn_checkMeaning d hd).mono (Node.family_subset_all hnode)
    · cases hd

/-! ## Diagnostics on a template and on a page -/

theorem TagProp.ReadFrom.between {source : List Char} {prop : TagProp} (h : prop.ReadFrom source) :
    prop.span.Between source := by
  obtain ⟨x, c, -, hfollows, rfl⟩ := h
  rw [readProp_span]
  exact hfollows.liesIn.between_spanTo (reaches_readProp c)

theorem mem_templateDiagnostics {body : List Char} {d : Diagnostic} :
    d ∈ templateDiagnostics body ↔
      d ∈ (Template.read .condense body).errors.map Diagnostic.ofParseError ∨
        d ∈ checkNodes {} (Template.read .condense body).nodes := by
  rw [templateDiagnostics, Diagnostic.sortByPlace, List.mem_mergeSort, List.mem_append]

/-- Every diagnostic on a template is about a span between two of its places. -/
theorem between_templateDiagnostics {body : List Char} {d : Diagnostic}
    (h : d ∈ templateDiagnostics body) : d.span.Between body := by
  rcases mem_templateDiagnostics.1 h with hd | hd
  · obtain ⟨e, he, rfl⟩ := List.mem_map.1 hd
    exact Template.errors_between .condense body e he
  · obtain ⟨tag, children, hmem, p, hp, hspan⟩ := reportedIn_checkNodes hd
    rw [hspan]
    exact (Template.read_readFrom .condense body _ hmem p hp).between

/-- Reports come in the order of their places. -/
theorem Diagnostic.pairwise_sortByPlace (ds : List Diagnostic) :
    (sortByPlace ds).Pairwise fun d e => d.span.start ≤ e.span.start := by
  have hsorted : (sortByPlace ds).Pairwise fun d e =>
      decide (d.span.start ≤ e.span.start) = true := by
    apply List.pairwise_mergeSort
    · intro d e f hde hef
      exact decide_eq_true (Nat.le_trans (of_decide_eq_true hde) (of_decide_eq_true hef))
    · intro d e
      rw [Bool.or_eq_true, decide_eq_true_eq, decide_eq_true_eq]
      exact Nat.le_total _ _
  exact hsorted.imp fun h => of_decide_eq_true h

theorem pairwise_pageDiagnostics (source : List Char) :
    (pageDiagnostics source).Pairwise fun d e => d.span.start ≤ e.span.start := by
  unfold pageDiagnostics
  split
  · exact List.Pairwise.nil
  · rename_i page _
    refine List.pairwise_map.2 ((Diagnostic.pairwise_sortByPlace _).imp ?_)
    intro d e hle
    show min (d.span.start + page.bodyOffset) maxOffset
      ≤ min (e.span.start + page.bodyOffset) maxOffset
    omega

/-- The diagnostics on a page are those on its template, moved to where the template is. -/
theorem mem_pageDiagnostics {source : List Char} {d : Diagnostic} :
    d ∈ pageDiagnostics source ↔ ∃ page inner, Page.split? source = some page ∧
      inner ∈ templateDiagnostics page.body ∧ d = inner.shift page.bodyOffset := by
  constructor
  · intro h
    unfold pageDiagnostics at h
    split at h
    · cases h
    · rename_i page hpage
      obtain ⟨inner, hinner, rfl⟩ := List.mem_map.1 h
      exact ⟨page, inner, hpage, hinner, rfl⟩
  · rintro ⟨page, inner, hpage, hinner, rfl⟩
    unfold pageDiagnostics
    rw [hpage]
    exact List.mem_map_of_mem hinner

theorem Diagnostic.placedIn_shift {source : List Char} {page : Page} {inner : Diagnostic}
    (hs : byteLength source ≤ maxOffset) (hpage : Page.split? source = some page)
    (hinner : inner ∈ templateDiagnostics page.body) :
    (inner.shift page.bodyOffset).PlacedIn source page inner := by
  obtain ⟨separator, hparts⟩ := Page.exists_assembles hpage
  have hsource : source = (page.block ++ separator) ++ page.body := by
    rw [hparts.parts, List.append_assoc]
  have hoffset : page.bodyOffset = byteLength (page.block ++ separator) := by
    rw [hparts.offset, byteLength_append]
  obtain ⟨c, d, text, hc, hover, hspan, hslice, hle⟩ :=
    (between_templateDiagnostics hinner).exists_shift (hsource ▸ hs)
  rw [← hsource] at hc
  rw [← hoffset] at hspan hle
  have hd := hc.reaches hover.reaches
  have hshift : (inner.shift page.bodyOffset).span = ⟨c.offset, d.offset⟩ := hspan
  refine ⟨rfl, ?_, ?_, ?_, ?_, ?_, ⟨text, ?_, hslice⟩, ?_, ?_⟩
  all_goals rw [hshift]
  · exact hle
  · exact hover.reaches.offset_le
  · exact hd.offset_le
  · exact hc.onBoundary
  · exact hd.onBoundary
  · exact hc.slice?_of_over hover
  · exact LineIndex.lineCol?_isSome hc.offset_le
  · exact LineIndex.lineCol?_isSome hd.offset_le

theorem Finding.one_le_position {source : List Char} {offset : Nat}
    (h : ((LineIndex.ofText source).lineCol? offset).isSome = true) :
    1 ≤ (position (LineIndex.ofText source) offset).line ∧
      1 ≤ (position (LineIndex.ofText source) offset).column := by
  obtain ⟨place, hplace⟩ := Option.isSome_iff_exists.1 h
  rw [position, hplace, Option.getD_some]
  exact LineIndex.one_le_of_lineCol? hplace

/-- **Reported positions are positions of the page.** Let the page be shorter than 2^32 bytes. Its
diagnostics come in the order of their beginnings. They are the diagnostics on its template, moved
by the offset of the template; each lies in the template, both of its ends can be cut at and have a
line and a column, and it covers in the page what it covered in the template. So no position is
shown as line zero or column zero. -/
theorem pageDiagnostics_positions (source : List Char) (hs : byteLength source ≤ maxOffset) :
    ((pageDiagnostics source).Pairwise fun d e => d.span.start ≤ e.span.start) ∧
    (∀ d, d ∈ pageDiagnostics source ↔ ∃ page inner, Page.split? source = some page ∧
      inner ∈ templateDiagnostics page.body ∧ d.PlacedIn source page inner) ∧
    ∀ path, ∀ f ∈ Finding.ofDiagnostics path source (pageDiagnostics source),
      (1 ≤ f.start.line ∧ 1 ≤ f.start.column) ∧ 1 ≤ f.stop.line ∧ 1 ≤ f.stop.column := by
  have hplaced : ∀ d, d ∈ pageDiagnostics source ↔ ∃ page inner, Page.split? source = some page ∧
      inner ∈ templateDiagnostics page.body ∧ d.PlacedIn source page inner := by
    intro d
    rw [mem_pageDiagnostics]
    constructor
    · rintro ⟨page, inner, hpage, hinner, rfl⟩
      exact ⟨page, inner, hpage, hinner, Diagnostic.placedIn_shift hs hpage hinner⟩
    · rintro ⟨page, inner, hpage, hinner, h⟩
      exact ⟨page, inner, hpage, hinner, h.shifted⟩
  refine ⟨pairwise_pageDiagnostics source, hplaced, ?_⟩
  intro path f hf
  obtain ⟨d, hd, rfl⟩ := List.mem_map.1 hf
  obtain ⟨page, inner, -, -, h⟩ := (hplaced d).1 hd
  exact ⟨Finding.one_le_position h.start_position, Finding.one_le_position h.stop_position⟩

/-- A closing tag without an element, after a line break of two bytes and a character of two. -/
theorem pageDiagnostics_positions_stray :
    ∃ d ∈ pageDiagnostics "---\n---\r\né</q>".toList, d.span = ⟨11, 15⟩ ∧
      ∃ page inner, Page.split? "---\n---\r\né</q>".toList = some page ∧
        inner ∈ templateDiagnostics page.body ∧
        d.PlacedIn "---\n---\r\né</q>".toList page inner := by
  have hmem : (Diagnostic.ofParseError ⟨.strayClosingTag ['q'], ⟨2, 6⟩⟩).shift 9
      ∈ pageDiagnostics "---\n---\r\né</q>".toList := by
    refine mem_pageDiagnostics.2
      ⟨⟨"---\n---".toList, "é</q>".toList, 9⟩, _, by decide +kernel, ?_, rfl⟩
    exact mem_templateDiagnostics.2 (.inl (List.mem_map_of_mem (by decide +kernel)))
  exact ⟨_, hmem, by decide, ((pageDiagnostics_positions _ (by decide)).2.1 _).1 hmem⟩

end AstroTemplate
