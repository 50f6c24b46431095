import AstroTemplate.Proofs.FarPlaces

set_option autoImplicit false

/-! # Steps and runs of the reader by tokens

Each part of a step of the reader by tokens adds a node, or opens or closes an element, and comes by
one move to the place after it. Together they are what a step can be (`StepsTo`); whatever is shown
of the reader along a run is shown by cases on that. All of this is for sources of any size. A step
leads from a place that the walk can be at to another such place, and makes less of what is left of
the source or of the open elements (`StepsTo.goesOn`). So more turns change nothing of a run
(`run?_add`).
-/

namespace AstroTemplate

namespace TokenReader

variable {source : List Char} {c d : Cursor} {w : Walk} {t next : TokenReader} {checked : Bool}
  {mode : WhitespaceMode}

/-! ## What the parts of a step do -/

theorem offset_lt_byteLength (hw : w.At source c) (hne : c.rest ≠ []) :
    w.offset source < byteLength source := by
  have hrest := hw.lies.byteLength_rest
  have hpos : byteLength c.rest ≠ 0 := fun hzero => hne (byteLength_eq_zero.1 hzero)
  rw [hw.offset_eq_min]
  omega

/-- A move to an offset greater than the one of the walk leads on. -/
theorem shorter_of_lands {stop : Nat} {w' : Walk} (hw : w.At source c) (hne : c.rest ≠ [])
    (h : Walk.Lands source c stop w' d) (hlt : w.offset source < stop) :
    d.rest.length < c.rest.length := by
  refine h.shorter hne ?_
  rw [hw.offset_eq_min] at hlt
  omega

/-- A text that is read begins at the offset of the walk. -/
theorem readText?_lands (hw : t.walk.At source c) (h : t.readText? source = some next) :
    ∃ m x s last after d, Cursor.LiesIn m source ∧ m.offset = t.walk.offset source ∧
      m.rest = x :: s ∧ m.Over (x :: textRun s) last ∧
      Walk.Lands source c last.offset after d ∧
      next = t.pushText (m.spanTo last) (x :: textRun s) after := by
  simp only [readText?, Option.bind_eq_bind, Option.bind_eq_some_iff] at h
  obtain ⟨after, hsync, data, hslice, heq⟩ := h
  obtain rfl := Option.some.inj heq
  obtain ⟨d, hd⟩ := hw.sync? (by rw [textStop]; omega) hsync
  -- the text is cut at the offset of the walk, which need not be the place that the walk is at
  obtain ⟨m, last, hm, hover, hspan⟩ := Cursor.exists_over_of_slice? hslice
  obtain ⟨hstart, hstop⟩ := Span.mk.inj hspan
  cases hrest : m.rest with
  | nil =>
      -- after the end there is nothing that could be cut off
      have hend := hm.offset_of_rest_nil hrest
      have hcut := hd.cut
      rw [textStop] at hcut
      omega
  | cons x s =>
      obtain ⟨after', hsplit, -⟩ := exists_textRun_append s
      have hrest' : m.rest = x :: textRun s ++ after' := by
        rw [hrest, List.cons_append, ← hsplit]
      have htext := Cursor.over_drop_length hrest'
      have hlast : last = m.drop (x :: textRun s).length := by
        refine hover.reaches.eq_of_offset htext.reaches ?_
        rw [← hstop, hstart, textStop_eq hm hrest, htext.2]
      have hdata : data = x :: textRun s := by
        rw [hlast] at hover
        exact List.append_cancel_right (hover.1.symm.trans htext.1)
      rw [hstop] at hd ⊢
      rw [hstart]
      exact ⟨m, x, s, last, after, d, hm, rfl, hrest, hdata ▸ hover, hd, hdata ▸ rfl⟩

theorem readComment?_lands (hw : t.walk.At source c) (h : t.readComment? source = some next) :
    ∃ stop after d errors span data, Walk.Lands source c stop after d ∧
      t.walk.offset source < stop ∧
      next = (t.report errors).push (.comment span data) after := by
  simp only [readComment?, Option.bind_eq_bind, Option.bind_eq_some_iff] at h
  obtain ⟨body, hbody, h⟩ := h
  have hle := (Cursor.liesIn_of_dropBytes? hbody).offset_le
  simp only at hle
  cases hfind : find? ['-', '-', '>'] body with
  | none =>
      simp only [hfind] at h
      obtain ⟨after, hsync, data, -, heq⟩ := h
      obtain rfl := Option.some.inj heq
      obtain ⟨d, hd⟩ := hw.sync? (by omega) hsync
      exact ⟨_, after, d, _, _, data, hd, by omega, rfl⟩
  | some size =>
      simp only [hfind] at h
      obtain ⟨after, hsync, data, -, heq⟩ := h
      obtain rfl := Option.some.inj heq
      obtain ⟨d, hd⟩ := hw.sync? (by omega) hsync
      exact ⟨_, after, d, _, _, data, hd, by omega, rfl⟩

/-- Opening braces are text where no closing ones follow. -/
theorem readInterpolation?_lands (hw : t.walk.At source c)
    (h : t.readInterpolation? source = some next) :
    (∃ stop after d span inner expr, Walk.Lands source c stop after d ∧
        t.walk.offset source < stop ∧
        next = t.push (.interpolation span inner expr) after) ∨
      ∃ inner after d errors, dropBytes? (t.walk.offset source + 2) source = some inner ∧
        cutAt? ['\x7d', '\x7d'] inner = none ∧
        Walk.Lands source c (t.walk.offset source + 2) after d ∧
        next = (t.report errors).pushText
          (.ofOffsets (t.walk.offset source) (t.walk.offset source + 2)) ['\x7b', '\x7b'] after := by
  simp only [readInterpolation?, Option.bind_eq_bind, Option.bind_eq_some_iff] at h
  obtain ⟨inner, hinner, h⟩ := h
  cases hfind : find? ['\x7d', '\x7d'] inner with
  | none =>
      rw [hfind] at h
      simp only [Option.bind_eq_some_iff] at h
      obtain ⟨after, hsync, heq⟩ := h
      obtain rfl := Option.some.inj heq
      obtain ⟨d, hd⟩ := hw.sync? (by omega) hsync
      exact .inr ⟨inner, after, d, _, hinner, Option.map_eq_none_iff.1 hfind, hd, rfl⟩
  | some size =>
      rw [hfind] at h
      simp only [Option.bind_eq_some_iff] at h
      obtain ⟨raw, -, after, hsync, heq⟩ := h
      obtain rfl := Option.some.inj heq
      obtain ⟨d, hd⟩ := hw.sync? (by omega) hsync
      exact .inl ⟨_, after, d, _, _, _, hd, by omega, rfl⟩

theorem closingTagStop?_lt {start stop : Nat} (hlt : start < byteLength source)
    (h : closingTagStop? source start = some stop) : start < stop := by
  simp only [closingTagStop?, Option.bind_eq_bind, Option.bind_eq_some_iff] at h
  obtain ⟨rest, -, heq⟩ := h
  obtain rfl := Option.some.inj heq
  cases find? ['>'] rest with
  | none => exact hlt
  | some size =>
      simp only [Option.map_some, Option.getD_some]
      omega

theorem le_closingTagStop? {start stop : Nat} (h : closingTagStop? source start = some stop) :
    start ≤ stop := by
  simp only [closingTagStop?, Option.bind_eq_bind, Option.bind_eq_some_iff] at h
  obtain ⟨rest, hrest, heq⟩ := h
  obtain rfl := Option.some.inj heq
  cases find? ['>'] rest with
  | none => exact (Cursor.liesIn_of_dropBytes? hrest).offset_le
  | some size =>
      simp only [Option.map_some, Option.getD_some]
      omega

theorem readClosingTag?_lands {tag : Scan Unit} (hw : w.At source c)
    (h : readClosingTag? source w = some tag) :
    ∃ stop d, Walk.Lands source c stop tag.walk d ∧
      (c.rest ≠ [] → w.offset source < stop) := by
  simp only [readClosingTag?, Option.bind_eq_bind, Option.bind_eq_some_iff] at h
  obtain ⟨rest, -, stop, hstop, after, hsync, heq⟩ := h
  obtain rfl := Option.some.inj heq
  obtain ⟨d, hd⟩ := hw.sync? (le_closingTagStop? hstop) hsync
  exact ⟨stop, d, hd, fun hne => closingTagStop?_lt (offset_lt_byteLength hw hne) hstop⟩

theorem skipClosingTag?_lands (hw : t.walk.At source c) (hne : c.rest ≠ [])
    (h : t.skipClosingTag? source = some next) :
    ∃ stop after d errors, Walk.Lands source c stop after d ∧ t.walk.offset source < stop ∧
      next = { t.report errors with walk := after } := by
  simp only [skipClosingTag?, Option.bind_eq_bind, Option.bind_eq_some_iff] at h
  obtain ⟨found, -, stop, hstop, after, hsync, heq⟩ := h
  obtain rfl := Option.some.inj heq
  obtain ⟨d, hd⟩ := hw.sync? (le_closingTagStop? hstop) hsync
  exact ⟨stop, after, d, _, hd, closingTagStop?_lt (offset_lt_byteLength hw hne) hstop, rfl⟩

/-- The content of a raw text element begins at the offset of the walk. It ends at the closing tag
that the search finds, which is read then, or at the end of the source. -/
theorem readRawText?_lands {name : List Char} {span : Span} {raw : Scan (List Node)}
    (hw : w.At source c) (h : readRawText? source name span w = some raw) :
    ∃ m content last d, Cursor.LiesIn m source ∧ m.offset = w.offset source ∧
      m.Over content last ∧ raw.value = m.rawNodes content last ∧
      raw.walk.At source d ∧ c.Reaches d ∧ d.Settled ∧
      (rawContent? name m.rest = some content ∧
          (∃ atTag tag, w.sync? source last.offset = some atTag ∧
            readClosingTag? source atTag = some tag ∧ raw.errors = tag.errors ∧
            raw.walk = tag.walk) ∨
        rawContent? name m.rest = none ∧ last.rest = [] ∧ d.rest = [] ∧
          raw.errors = [⟨.unclosedTag name, span⟩]) := by
  simp only [readRawText?, Option.bind_eq_bind, Option.bind_eq_some_iff] at h
  obtain ⟨rest, hrest, found, hfound, last, hsync, content, hslice, h⟩ := h
  have hfind : found = (rawContent? name rest).map fun content => 0 + byteLength content :=
    Option.some.inj (hfound.symm.trans
      (findClosingTag?_offset name (Cursor.liesIn_ofSource rest) (Nat.lt_succ_self _)))
  have hm := Cursor.liesIn_of_dropBytes? hrest
  have hle : w.offset source ≤ byteLength source := hm.offset_le
  generalize hcursor : Cursor.mk (w.offset source) rest = m at hm
  obtain ⟨hoffset, hmrest⟩ : m.offset = w.offset source ∧ m.rest = rest := by
    subst hcursor
    exact ⟨rfl, rfl⟩
  rw [← hmrest] at hfind
  rw [← hoffset] at hsync hslice h hle
  cases hraw : rawContent? name m.rest with
  | none =>
      -- there is no closing tag, and all of the rest is content
      have hover := m.over_toEnd
      rw [hraw, Option.map_none] at hfind
      subst hfind
      simp only [Option.map_none, Option.getD_none, ← hm.toEnd_offset] at hsync hslice h
      obtain rfl := Option.some.inj (hslice.symm.trans (hm.slice?_of_over hover))
      obtain rfl := Option.some.inj h
      obtain ⟨d, hd⟩ := hw.sync? (hoffset ▸ hover.reaches.offset_le) hsync
      have hend : d.rest = [] := by
        rcases hd.place with ⟨hd', -⟩ | ⟨hnil, -⟩
        · have hsize := hd.lies.byteLength_rest
          rw [hd', hm.toEnd_offset, Nat.sub_self] at hsize
          exact byteLength_eq_zero.1 hsize
        · exact hnil
      exact ⟨m, m.rest, m.toEnd, d, hm, hoffset, hover, rawNodes_of_over hover, hd.toAt, hd.reaches,
        hd.settled, .inr ⟨hraw, rfl, hend, rfl⟩⟩
  | some text =>
      obtain ⟨after, hsplit, -⟩ := eq_append_of_rawContent? hraw
      have hover := Cursor.over_drop_length hsplit
      rw [hraw, Option.map_some, Nat.zero_add] at hfind
      subst hfind
      simp only [Option.map_some, Option.getD_some, ← hover.2] at hsync hslice h
      obtain rfl := Option.some.inj (hslice.symm.trans (hm.slice?_of_over hover))
      obtain ⟨closing, hclosing, heq⟩ := Option.bind_eq_some_iff.1 h
      obtain rfl := Option.some.inj heq
      obtain ⟨d, hd⟩ := hw.sync? (hoffset ▸ hover.reaches.offset_le) hsync
      obtain ⟨stop, e, he, -⟩ := readClosingTag?_lands hd.toAt hclosing
      exact ⟨m, _, _, e, hm, hoffset, hover, rawNodes_of_over hover, he.toAt,
        hd.reaches.trans he.reaches, he.settled,
        .inl ⟨hraw, last, closing, hsync, hclosing, rfl, rfl⟩⟩

theorem closeElement?_lands {e : OpenElement} {outer : List OpenElement} (hw : t.walk.At source c)
    (hne : c.rest ≠ []) (h : t.closeElement? source mode e outer = some next) :
    ∃ stop after d errors, Walk.Lands source c stop after d ∧ t.walk.offset source < stop ∧
      next = { t.report errors with
        walk := after
        nodes := e.close (after.offset source) (e.finishChildren mode outer t.nodes.reverse)
          :: e.before
        stack := outer } := by
  simp only [closeElement?, Option.bind_eq_bind, Option.bind_eq_some_iff] at h
  obtain ⟨tag, htag, heq⟩ := h
  obtain ⟨stop, d, hd, hlt⟩ := readClosingTag?_lands hw htag
  exact ⟨stop, tag.walk, d, tag.errors, hd, hlt hne, (Option.some.inj heq).symm⟩

/-- What is read at a start tag: an element without content, one with raw text, or one that is
opened. -/
theorem readElement?_eq_some (h : t.readElement? source checked = some next) :
    ∃ tag, readStartTag? source checked t.walk = some tag ∧
      ((tag.value.selfClosing || isVoidElement tag.value.name) = true ∧
          next = (t.report tag.errors).push (.element
            ⟨.ofOffsets (t.walk.offset source) (tag.walk.offset source), tag.value.name,
              tag.value.props, tag.value.selfClosing⟩ []) tag.walk ∨
        (tag.value.selfClosing = false ∧ isRawTextElement tag.value.name = true ∧
          ∃ raw, readRawText? source tag.value.name
              (.ofOffsets (t.walk.offset source) (tag.walk.offset source)) tag.walk = some raw ∧
            next = ((t.report tag.errors).report raw.errors).push (.element
              ⟨.ofOffsets (t.walk.offset source) (raw.walk.offset source), tag.value.name,
                tag.value.props, false⟩ raw.value) raw.walk) ∨
        isRawTextElement tag.value.name = false ∧
          next = { t.report tag.errors with
            walk := tag.walk
            nodes := []
            stack := ⟨t.walk.offset source, tag.walk.offset source, tag.value.name,
              tag.value.props, t.nodes⟩ :: t.stack }) := by
  simp only [readElement?, Option.bind_eq_bind, Option.bind_eq_some_iff] at h
  obtain ⟨tag, htag, h⟩ := h
  refine ⟨tag, htag, ?_⟩
  split at h
  · rename_i hempty
    exact .inl ⟨hempty, (Option.some.inj h).symm⟩
  · rename_i hfull
    have hself : tag.value.selfClosing = false := by
      simp only [Bool.or_eq_true, not_or] at hfull
      simpa using hfull.1
    split at h
    · rename_i hraw
      obtain ⟨raw, hread, heq⟩ := Option.bind_eq_some_iff.1 h
      rw [hself] at heq
      exact .inr (.inl ⟨hself, hraw, raw, hread, (Option.some.inj heq).symm⟩)
    · rename_i hraw
      exact .inr (.inr ⟨by simpa using hraw, (Option.some.inj h).symm⟩)

/-! ## What a step can be -/

/-- What a step of a reader `t` at the place of `c` can be: the reader is done, or it has come to
the reader after something was read, after a closing tag, or after an element was given up. -/
inductive StepsTo (source : List Char) (checked : Bool) (mode : WhitespaceMode) (t : TokenReader)
    (c : Cursor) : TokenReader → Prop where
  | done : c.rest = [] → t.stack = [] → StepsTo source checked mode t c t
  | text {m last d : Cursor} {x : Char} {s : List Char} {after : Walk} :
      c.rest ≠ [] → (c.offset ≤ maxOffset → c.startsText = true) → m.LiesIn source →
      m.offset = t.walk.offset source → m.rest = x :: s → m.Over (x :: textRun s) last →
      Walk.Lands source c last.offset after d →
      StepsTo source checked mode t c (t.pushText (m.spanTo last) (x :: textRun s) after)
  | comment {stop : Nat} {after : Walk} {d : Cursor} {errors : List ParseError} {span : Span}
      {data : List Char} : c.rest ≠ [] → Walk.Lands source c stop after d →
      t.walk.offset source < stop →
      StepsTo source checked mode t c ((t.report errors).push (.comment span data) after)
  | interpolation {stop : Nat} {after : Walk} {d : Cursor} {span inner : Span}
      {expr : List Char} : c.rest ≠ [] → Walk.Lands source c stop after d →
      t.walk.offset source < stop →
      StepsTo source checked mode t c (t.push (.interpolation span inner expr) after)
  | braces {inner : List Char} {after : Walk} {d : Cursor} {errors : List ParseError} :
      c.kind = .mustacheOpen → dropBytes? (t.walk.offset source + 2) source = some inner →
      cutAt? ['\x7d', '\x7d'] inner = none →
      Walk.Lands source c (t.walk.offset source + 2) after d →
      StepsTo source checked mode t c ((t.report errors).pushText
        (.ofOffsets (t.walk.offset source) (t.walk.offset source + 2)) ['\x7b', '\x7b'] after)
  | element {next : TokenReader} : c.kind = .tagOpen → opensElement source t.walk = true →
      t.readElement? source checked = some next → StepsTo source checked mode t c next
  | skip {stop : Nat} {after : Walk} {d : Cursor} {errors : List ParseError} : c.rest ≠ [] →
      Walk.Lands source c stop after d → t.walk.offset source < stop →
      StepsTo source checked mode t c { t.report errors with walk := after }
  | close {e : OpenElement} {outer : List OpenElement} {stop : Nat} {after : Walk} {d : Cursor}
      {errors : List ParseError} : c.rest ≠ [] → t.stack = e :: outer →
      Walk.Lands source c stop after d → t.walk.offset source < stop →
      StepsTo source checked mode t c
        { t.report errors with
          walk := after
          nodes := e.close (after.offset source) (e.finishChildren mode outer t.nodes.reverse)
            :: e.before
          stack := outer }
  | abandon {e : OpenElement} {outer : List OpenElement} : t.stack = e :: outer →
      StepsTo source checked mode t c (t.abandonElement source mode e outer)

theorem StepsTo.of_readText? (hw : t.walk.At source c) (hne : c.rest ≠ [])
    (hstarts : c.offset ≤ maxOffset → c.startsText = true) (h : t.readText? source = some next) :
    StepsTo source checked mode t c next := by
  obtain ⟨m, x, s, last, after, d, hm, hoffset, hrest, hover, hd, rfl⟩ := readText?_lands hw h
  exact .text hne hstarts hm hoffset hrest hover hd

theorem StepsTo.of_skipClosingTag? (hw : t.walk.At source c) (hne : c.rest ≠ [])
    (h : t.skipClosingTag? source = some next) : StepsTo source checked mode t c next := by
  obtain ⟨stop, after, d, errors, hd, hlt, rfl⟩ := skipClosingTag?_lands hw hne h
  exact .skip hne hd hlt

theorem stepsTo_of_step? (hw : t.walk.At source c) (h : t.step? source checked mode = some next) :
    StepsTo source checked mode t c next := by
  unfold step? at h
  rw [hw.current_kind] at h
  split at h
  · rename_i hkind
    split at h
    · rename_i hstack
      obtain rfl := Option.some.inj h
      exact .done (Reader.kind_eq_endOfFile.1 hkind) hstack
    · rename_i e outer hstack
      obtain rfl := Option.some.inj h
      exact .abandon hstack
  · rename_i hkind
    have hne : c.rest ≠ [] := Reader.rest_ne_nil_of_kind (by rw [hkind]; decide)
    simp only [readClosing?, Option.bind_eq_bind, Option.bind_eq_some_iff] at h
    obtain ⟨found, -, h⟩ := h
    split at h
    · exact .of_skipClosingTag? hw hne h
    · rename_i e outer hstack
      split at h
      · obtain ⟨stop, after, d, errors, hd, hlt, rfl⟩ := closeElement?_lands hw hne h
        exact .close hne hstack hd hlt
      · split at h
        · obtain rfl := Option.some.inj h
          exact .abandon hstack
        · exact .of_skipClosingTag? hw hne h
  · rename_i hkind
    obtain ⟨stop, after, d, errors, span, data, hd, hlt, rfl⟩ := readComment?_lands hw h
    exact .comment (Reader.rest_ne_nil_of_kind (by rw [hkind]; decide)) hd hlt
  · rename_i hkind
    rcases readInterpolation?_lands hw h with ⟨stop, after, d, span, inner, expr, hd, hlt, rfl⟩ |
      ⟨inner, after, d, errors, hinner, hcut, hd, rfl⟩
    · exact .interpolation (Reader.rest_ne_nil_of_kind (by rw [hkind]; decide)) hd hlt
    · exact .braces hkind hinner hcut hd
  · rename_i hkind
    split at h
    · rename_i hopens
      exact .element hkind hopens h
    · rename_i hopens
      refine .of_readText? hw (Reader.rest_ne_nil_of_kind (by rw [hkind]; decide)) (fun hle => ?_) h
      rw [opensElement_eq hw hle hkind] at hopens
      simp [Cursor.startsText, hkind, hopens]
  · rename_i hend hclosing hcomment hmustache htag
    refine .of_readText? hw (Reader.rest_ne_nil_of_kind hend) (fun _ => ?_) h
    unfold Cursor.startsText
    split <;> simp_all

/-! ## Every step moves on -/

@[simp] theorem pushText_walk (t : TokenReader) (span : Span) (data : List Char) (after : Walk) :
    (t.pushText span data after).walk = after := by
  unfold pushText
  split
  · split <;> rfl
  · rfl

@[simp] theorem pushText_stack (t : TokenReader) (span : Span) (data : List Char) (after : Walk) :
    (t.pushText span data after).stack = t.stack := by
  unfold pushText
  split
  · split <;> rfl
  · rfl

/-- Text is added as a node of its own, or it makes the text before it longer if it touches it. -/
theorem pushText_nodes (t : TokenReader) (span : Span) (data : List Char) (after : Walk) :
    ((t.pushText span data after).nodes = .text span data (isTagBlank data) :: t.nodes ∧
        ∀ node ∈ t.nodes.head?, node.sort = .text → node.span.stop ≠ span.start) ∨
      ∃ before old blank older, t.nodes = .text before old blank :: older ∧
        before.stop = span.start ∧
        (t.pushText span data after).nodes
          = .text (before.cover span) (old ++ data) (blank && isTagBlank data) :: older := by
  unfold pushText
  split
  · rename_i before old blank older hnodes
    split
    · rename_i htouch
      exact .inr ⟨before, old, blank, older, hnodes, htouch, rfl⟩
    · rename_i hapart
      refine .inl ⟨rfl, fun node hnode _ => ?_⟩
      rw [hnodes, List.head?_cons, Option.mem_some_iff] at hnode
      subst hnode
      exact hapart
  · rename_i hnone
    refine .inl ⟨rfl, fun node hnode htext => ?_⟩
    obtain ⟨older, hnodes⟩ := List.head?_eq_some_iff.1 hnode
    cases node with
    | text span data blank => exact absurd hnodes (hnone span data blank older)
    | interpolation => cases htext
    | comment => cases htext
    | element => cases htext

/-- The nodes read so far that belong to no node yet. -/
def siblings (t : TokenReader) : List Node := t.nodes ++ t.stack.flatMap OpenElement.before

/-- What is left to read and to close for a reader at the place of `c`. Every step makes it
smaller. -/
def size (t : TokenReader) (c : Cursor) : Nat := 2 * c.rest.length + t.stack.length

/-- From `t` at the place of `c` the reader has come to `next`, at a place that its walk can be at.
If `t` was not done, less is left to do. -/
def GoesOn (source : List Char) (c : Cursor) (t next : TokenReader) : Prop :=
  ∃ d, next.walk.Placed source d ∧ c.Reaches d ∧
    (¬ (c.rest = [] ∧ t.stack = []) → next.size d < t.size c)

/-- Moving on is enough, even where an element is opened. -/
theorem GoesOn.of_shorter (hd : next.walk.Placed source d) (hreach : c.Reaches d)
    (hshorter : d.rest.length < c.rest.length)
    (hstack : next.stack.length ≤ t.stack.length + 1) : GoesOn source c t next := by
  refine ⟨d, hd, hreach, fun _ => ?_⟩
  unfold size
  omega

theorem GoesOn.of_lands {stop : Nat} {after : Walk} (hw : t.walk.At source c) (hne : c.rest ≠ [])
    (hd : Walk.Lands source c stop after d) (hlt : t.walk.offset source < stop)
    (hafter : next.walk = after) (hstack : next.stack.length ≤ t.stack.length) :
    GoesOn source c t next := by
  subst hafter
  exact .of_shorter hd.placed hd.reaches (shorter_of_lands hw hne hd hlt)
    (Nat.le_succ_of_le hstack)

theorem StepsTo.goesOn (hw : t.walk.Placed source c) (h : StepsTo source checked mode t c next) :
    GoesOn source c t next := by
  cases h with
  | done hrest hstack =>
      exact ⟨c, hw, Cursor.Reaches.refl c, fun hbusy => absurd ⟨hrest, hstack⟩ hbusy⟩
  | @text m last d x s after hne _ _ hoffset _ hover hd =>
      refine .of_lands hw.toAt hne hd ?_ (pushText_walk t _ _ after) (by simp)
      exact hoffset ▸ hover.offset_lt (List.cons_ne_nil _ _)
  | comment hne hd hlt => exact .of_lands hw.toAt hne hd hlt rfl (Nat.le_refl _)
  | interpolation hne hd hlt => exact .of_lands hw.toAt hne hd hlt rfl (Nat.le_refl _)
  | @braces inner after d errors hkind _ _ hd =>
      have hne : c.rest ≠ [] := Reader.rest_ne_nil_of_kind (by rw [hkind]; decide)
      exact .of_lands hw.toAt hne hd (by omega) (pushText_walk _ _ _ after) (by simp [report])
  | element hkind _ hread =>
      obtain ⟨tag, htag, hcase⟩ := readElement?_eq_some hread
      obtain ⟨d, hd, hreach, hshorter⟩ := readStartTag?_placed hw.toAt hkind htag
      rcases hcase with ⟨-, rfl⟩ | ⟨-, -, raw, hraw, rfl⟩ | ⟨-, rfl⟩
      · exact .of_shorter hd hreach hshorter (Nat.le_succ _)
      · obtain ⟨-, -, -, e, -, -, -, -, he, hreach', hsettled, -⟩ := readRawText?_lands hd.toAt hraw
        exact .of_shorter (he.placed hsettled) (hreach.trans hreach')
          (Nat.lt_of_le_of_lt hreach'.rest_le hshorter) (Nat.le_succ _)
      · exact .of_shorter hd hreach hshorter (Nat.le_refl _)
  | skip hne hd hlt => exact .of_lands hw.toAt hne hd hlt rfl (Nat.le_refl _)
  | close hne hstack hd hlt =>
      -- the stack gets smaller too, but the move alone is enough
      refine .of_lands hw.toAt hne hd hlt rfl ?_
      rw [hstack]
      exact Nat.le_succ _
  | abandon hstack =>
      -- the place stays, and one element less is open
      refine ⟨c, hw, Cursor.Reaches.refl c, fun _ => ?_⟩
      simp [size, abandonElement, hstack]

theorem step?_goesOn (hw : t.walk.Placed source c)
    (h : t.step? source checked mode = some next) : GoesOn source c t next :=
  (stepsTo_of_step? hw.toAt h).goesOn hw

/-! ## Runs -/

theorem isDone_iff (hw : t.walk.At source c) :
    ((t.walk.current source).kind = .endOfFile ∧ t.stack = []) ↔ c.rest = [] ∧ t.stack = [] := by
  rw [hw.current_kind, Reader.kind_eq_endOfFile]

/-- A bound above the size of the reader is as good as every greater one. So where a run has no
result, this is because a step has none. -/
theorem run?_add {bound : Nat} (hw : t.walk.Placed source c) (hbound : t.size c < bound)
    (more : Nat) :
    run? source checked mode (bound + more) t = run? source checked mode bound t := by
  induction bound generalizing t c with
  | zero => omega
  | succ bound ih =>
      rw [Nat.succ_add, run?, run?]
      split
      · rfl
      · rename_i hbusy
        rw [isDone_iff hw.toAt] at hbusy
        cases hnext : t.step? source checked mode with
        | none => rfl
        | some next =>
            obtain ⟨d, hd, -, hsize⟩ := step?_goesOn hw hnext
            have := hsize hbusy
            simp only [Option.bind_eq_bind, Option.bind_some, ih hd (by omega)]

/-- The readers that reading `source` comes to. -/
inductive Reached (source : List Char) (mode : WhitespaceMode) : TokenReader → Prop where
  | start : Reached source mode ⟨.ofSource source, [], [], []⟩
  | step {t next : TokenReader} : Reached source mode t → t.step? source false mode = some next →
      Reached source mode next

theorem placed_ofSource (source : List Char) :
    (Walk.ofSource source).Placed source (.ofSource source) :=
  (Walk.at_ofSource source).placed (.inl (show 0 < maxOffset by decide))

/-- A run that has a result has come from step to step to where the reader is done. -/
theorem Reached.of_run? {bound : Nat} {last : TokenReader} (h : Reached source mode t)
    (hrun : run? source false mode bound t = some last) : Reached source mode last := by
  induction bound generalizing t with
  | zero => cases hrun
  | succ bound ih =>
      rw [run?] at hrun
      split at hrun
      · obtain rfl := Option.some.inj hrun
        exact h
      · obtain ⟨next, hnext, hrun⟩ := Option.bind_eq_some_iff.1 hrun
        rw [if_pos (by simp)] at hrun
        exact ih (h.step hnext) hrun

/-- From wherever it has come, reading goes on to the same end. -/
theorem Reached.run?_eq (h : Reached source mode t) :
    ∃ c, t.walk.Placed source c ∧ ∀ bound, t.size c < bound →
      run? source false mode bound t = readToEnd? source false mode := by
  induction h with
  | start =>
      refine ⟨_, placed_ofSource source, fun bound hbound => ?_⟩
      have hsize : size ⟨.ofSource source, [], [], []⟩ (.ofSource source)
          < 2 * byteLength source + 1 := by
        have := length_le_byteLength source
        show 2 * source.length + 0 < 2 * byteLength source + 1
        omega
      rw [readToEnd?, ← run?_add (placed_ofSource source) hbound (2 * byteLength source + 1),
        Nat.add_comm, run?_add (placed_ofSource source) hsize]
  | @step t next _ hnext ih =>
      obtain ⟨c, hc, hrun⟩ := ih
      obtain ⟨d, hd, -, hsize⟩ := step?_goesOn hc hnext
      by_cases hdone : c.rest = [] ∧ t.stack = []
      · -- a reader that is done steps to itself
        have hsame : next = t := by
          rw [step?, hc.toAt.current_kind, Reader.kind_eq_endOfFile.2 hdone.1, hdone.2] at hnext
          exact (Option.some.inj hnext).symm
        exact hsame ▸ ⟨c, hc, hrun⟩
      · refine ⟨d, hd, fun bound hbound => ?_⟩
        -- one more turn, which is the step
        have hturn : run? source false mode (bound + t.size c + 1) t
            = run? source false mode (bound + t.size c) next := by
          rw [run?, if_neg (by rwa [isDone_iff hc.toAt]), hnext, Option.bind_eq_bind,
            Option.bind_some, if_pos (by simp)]
        rw [← run?_add hd hbound (t.size c), ← hturn]
        exact hrun _ (by omega)

theorem Reached.readToEnd?_of_done (h : Reached source mode t)
    (hdone : (t.walk.current source).kind = .endOfFile ∧ t.stack = []) :
    readToEnd? source false mode = some t := by
  obtain ⟨c, hc, hrun⟩ := h.run?_eq
  obtain ⟨hrest, hstack⟩ := (isDone_iff hc.toAt).1 hdone
  have hsize : t.size c < 1 := by
    rw [size, hrest, hstack]
    exact Nat.zero_lt_one
  rw [← hrun 1 hsize]
  exact if_pos hdone

end TokenReader

end AstroTemplate
