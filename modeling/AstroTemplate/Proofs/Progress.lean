import AstroTemplate.Proofs.TextBytes

set_option autoImplicit false

/-! # Reading always comes to a result

The reader by tokens and offsets goes the way of the reader, step by step (`step?_follows`): no step
cuts the source where it cannot be cut, every step that closes no element moves on, and so no bound
is ever used up (`run?_follows`). The result is the template that is read (`Template.read_total`).
-/

namespace AstroTemplate

namespace TokenReader

variable {source : List Char} {c : Cursor} {w : Walk}

/-! ## Closing tags and raw text -/

theorem closingNameAt?_offset (hc : c.LiesIn source) (hkind : c.kind = .closingTagOpen) :
    closingNameAt? source c.offset = some c.closingName := by
  obtain ⟨t, hrest⟩ := c.rest_of_kind hkind rfl
  have hname := hc.reaches (c.over_drop 2).reaches
  have htwo : (c.drop 2).offset = c.offset + 2 := (Cursor.over_drop_length hrest).2
  have hover := (c.drop 2).over_takeWhile fun x => !endsClosingName x
  rw [closingNameAt?, ← htwo, Nat.min_eq_left hname.offset_le, hname.dropBytes?]
  simp only [Option.bind_eq_bind, Option.bind_some, findChar?_getD]
  conv => lhs; arg 2; rw [hover.1]
  exact takeBytes?_append _ _

theorem closingTagStop?_offset (hc : c.LiesIn source) :
    closingTagStop? source c.offset = some c.pastTag.offset := by
  rw [closingTagStop?, hc.dropBytes?, Cursor.pastTag]
  simp only [Option.bind_eq_bind, Option.bind_some, find?_rest]
  cases hcut : c.cutAt? ['>'] with
  | none =>
      rw [← hc.toEnd_offset]
      rfl
  | some found =>
      obtain ⟨before, next⟩ := found
      obtain ⟨m, hbefore, hnext⟩ := Cursor.exists_over_of_cutAt? hcut
      simp only [Option.map_some, Option.getD_some, hnext.2, hbefore.2]
      rfl

theorem readClosingTag?_follows (hs : byteLength source ≤ maxOffset) (hw : w.Follows source c) :
    ∃ w', readClosingTag? source w = some (scan w' c.readClosingTag) ∧
      w.Leads source w' c.pastTag := by
  have hoccurs : occurs ['>'] c.rest = (c.cutAt? ['>']).isSome := by
    rw [occurs, Cursor.cutAt?, Option.isSome_map]
  obtain ⟨w', hsync, hleads⟩ := hw.sync? hs c.reaches_pastTag
  refine ⟨w', ?_, hleads⟩
  rw [readClosingTag?, hw.toAt.offset_eq hs, hw.lies.dropBytes?]
  simp only [Option.bind_eq_bind, Option.bind_some, closingTagStop?_offset hw.lies, hsync, hoccurs,
    hw.toAt.current_span]
  rfl

theorem findClosingTag?_offset {s : List Char} (name : List Char) (hc : c.LiesIn s) {bound : Nat}
    (hbound : byteLength s < bound + c.offset) :
    findClosingTag? name s bound c.offset
      = some ((rawContent? name c.rest).map fun content => c.offset + byteLength content) := by
  induction bound generalizing c with
  | zero =>
      have := hc.offset_le
      omega
  | succ bound ih =>
      rw [findClosingTag?, hc.dropBytes?, rawContent?_eq]
      simp only [Option.bind_eq_bind, Option.bind_some, find?]
      cases hcut : cutAt? ['<', '/'] c.rest with
      | none => rfl
      | some found =>
          obtain ⟨before, after⟩ := found
          have hcursor : c.cutAt? ['<', '/']
              = some (before, ⟨c.offset + byteLength before + 2, after⟩) := by
            rw [Cursor.cutAt?, hcut]
            rfl
          -- the search goes on after this `</`, two bytes nearer to the end
          obtain ⟨m, hbefore, hnext⟩ := Cursor.exists_over_of_cutAt? hcursor
          have hm := hc.reaches hbefore.reaches
          have hmore := ih (hm.reaches hnext.reaches) (by simp only; omega)
          simp only [Option.map_some, ← hbefore.2, hm.dropBytes?, Option.bind_some, hnext.1]
          split
          · rw [hbefore.2]
            rfl
          · have hsize : ∀ content : List Char,
                c.offset + byteLength before + 2 + byteLength content
                  = c.offset + byteLength (before ++ (['<', '/'] ++ content)) := by
              intro content
              rw [byteLength_append, byteLength_append, show byteLength ['<', '/'] = 2 from rfl]
              omega
            rw [hbefore.2, hmore, Option.map_map]
            simp only [hsize]
            rfl

/-- Raw content is a text if its end lies after its beginning. -/
theorem rawNodes_of_over {content : List Char} {last : Cursor} (hover : c.Over content last) :
    (if c.offset < last.offset
      then [Node.text (.ofOffsets c.offset last.offset) content (isTagBlank content)] else [])
      = c.rawNodes content last := by
  rw [Cursor.rawNodes, hover.2]
  cases content with
  | nil => simp
  | cons x content => simp [Nat.ne_of_gt x.utf8Size_pos, Cursor.spanTo, hover.2]

theorem readRawText?_follows (hs : byteLength source ≤ maxOffset) (hw : w.Follows source c)
    (name : List Char) (span : Span) :
    ∃ w', readRawText? source name span w = some (scan w' (c.readRawText name span)) ∧
      w.Leads source w' (c.readRawText name span).next := by
  have hfind : findClosingTag? name c.rest (byteLength c.rest + 1) 0
      = some ((rawContent? name c.rest).map fun content => 0 + byteLength content) :=
    findClosingTag?_offset name (Cursor.liesIn_ofSource c.rest) (Nat.lt_succ_self _)
  have hc := hw.lies
  rw [readRawText?, hw.toAt.offset_eq hs, hc.dropBytes?]
  simp only [Option.bind_eq_bind, Option.bind_some, hfind, Nat.zero_add]
  unfold Cursor.readRawText
  cases hraw : rawContent? name c.rest with
  | none =>
      have hover : c.Over c.rest (c.drop c.rest.length) :=
        Cursor.over_drop_length (List.append_nil c.rest).symm
      have hstop : byteLength source = (c.drop c.rest.length).offset :=
        ((hc.reaches hover.reaches).offset_of_rest_nil (by simp [Cursor.drop])).symm
      obtain ⟨w', hsync, hleads⟩ := hw.sync? hs hover.reaches
      simp only [Option.map_none, Option.getD_none, hstop]
      rw [hsync, hc.slice?_of_over hover, Option.bind_some, Option.bind_some, rawNodes_of_over hover]
      exact ⟨w', rfl, hleads⟩
  | some content =>
      obtain ⟨after, hrest, -⟩ := eq_append_of_rawContent? hraw
      have hover := Cursor.over_drop_length hrest
      obtain ⟨w₁, hsync, hleads₁⟩ := hw.sync? hs hover.reaches
      obtain ⟨w₂, hclosing, hleads₂⟩ := readClosingTag?_follows hs hleads₁.follows
      simp only [Option.map_some, Option.getD_some, ← hover.2]
      rw [hsync, hc.slice?_of_over hover, Option.bind_some, Option.bind_some, rawNodes_of_over hover,
        hclosing]
      exact ⟨w₂, rfl, hleads₁.trans hleads₂⟩

/-! ## Steps -/

/-- The reader by tokens with what a reader has read, at the place of a walk. -/
def ofReader (w : Walk) (r : Reader) : TokenReader := ⟨w, r.nodes, r.stack, r.errors⟩

@[simp] theorem ofReader_walk (w : Walk) (r : Reader) : (ofReader w r).walk = w := rfl

@[simp] theorem ofReader_stack (w : Walk) (r : Reader) : (ofReader w r).stack = r.stack := rfl

variable {r : Reader} {checked : Bool}

theorem pushText_ofReader (w w' : Walk) (r : Reader) (data : List Char) (next : Cursor) :
    (ofReader w r).pushText (r.cursor.spanTo next) data w'
      = ofReader w' (r.pushText data next) := by
  obtain ⟨cursor, nodes, stack, errors⟩ := r
  rcases nodes with - | ⟨node, older⟩
  · rfl
  · cases node with
    | text before old blank =>
        simp only [ofReader, pushText, Reader.pushText]
        split <;> rfl
    | interpolation => rfl
    | comment => rfl
    | element => rfl

theorem readText?_follows (hs : byteLength source ≤ maxOffset) (hw : w.Follows source r.cursor)
    (hne : r.cursor.rest ≠ []) :
    ∃ w', (ofReader w r).readText? source = some (ofReader w' r.readText) ∧
      w.Leads source w' r.readText.cursor := by
  obtain ⟨x, t, hrest⟩ := List.exists_cons_of_ne_nil hne
  have hover := r.cursor.over_text
  obtain ⟨w', hsync, hleads⟩ := hw.sync? hs hover.reaches
  have hdata : r.cursor.rest.take 1 ++ textRun (r.cursor.rest.drop 1) = x :: textRun t := by
    rw [hrest]
    rfl
  have hcursor : r.readText.cursor = _ := Reader.pushText_cursor r _ _
  refine ⟨w', ?_, hcursor ▸ hleads⟩
  rw [hdata] at hover hsync
  rw [readText?, Reader.readText, hdata, ← pushText_ofReader w]
  simp only [ofReader_walk, hw.toAt.offset_eq hs, textStop_eq hw.lies hrest, ← hover.2, hsync,
    hw.lies.slice?_of_over hover, Option.bind_eq_bind, Option.bind_some]
  rfl

theorem readComment?_follows (hs : byteLength source ≤ maxOffset) (hw : w.Follows source r.cursor)
    (hkind : r.cursor.kind = .commentOpen) :
    ∃ w', (ofReader w r).readComment? source = some (ofReader w' r.readComment) ∧
      w.Leads source w' r.readComment.cursor := by
  obtain ⟨t, hrest⟩ := r.cursor.rest_of_kind hkind rfl
  have hopen := (r.cursor.over_drop 4).reaches
  have hbody := hw.lies.reaches hopen
  have hfour : (r.cursor.drop 4).offset = r.cursor.offset + 4 := (Cursor.over_drop_length hrest).2
  rw [readComment?, Reader.readComment]
  simp only [ofReader_walk, hw.toAt.offset_eq hs, ← hfour, hbody.dropBytes?, Option.bind_eq_bind,
    Option.bind_some, find?_rest, hw.toAt.current_span]
  cases hcut : (r.cursor.drop 4).cutAt? ['-', '-', '>'] with
  | none =>
      have hend := (r.cursor.drop 4).over_toEnd
      obtain ⟨w', hsync, hleads⟩ := hw.sync? hs (hopen.trans hend.reaches)
      simp only [Option.map_none, ← hbody.toEnd_offset, hbody.slice?_of_over hend, hsync,
        Option.bind_some]
      exact ⟨w', rfl, hleads⟩
  | some found =>
      obtain ⟨data, next⟩ := found
      obtain ⟨m, hdata, hnext⟩ := Cursor.exists_over_of_cutAt? hcut
      have hlast : m.offset + 3 = next.offset := hnext.2.symm
      obtain ⟨w', hsync, hleads⟩ :=
        hw.sync? hs (hopen.trans (hdata.reaches.trans hnext.reaches))
      simp only [Option.map_some, ← hdata.2, hlast, hbody.slice?_of_over hdata, hsync,
        Option.bind_some]
      exact ⟨w', rfl, hleads⟩

theorem readInterpolation?_follows (hs : byteLength source ≤ maxOffset)
    (hw : w.Follows source r.cursor) (hkind : r.cursor.kind = .mustacheOpen) :
    ∃ w', (ofReader w r).readInterpolation? source = some (ofReader w' r.readInterpolation) ∧
      w.Leads source w' r.readInterpolation.cursor := by
  obtain ⟨t, hrest⟩ := r.cursor.rest_of_kind hkind rfl
  have hopen := (r.cursor.over_drop 2).reaches
  have hinner := hw.lies.reaches hopen
  have htwo : (r.cursor.drop 2).offset = r.cursor.offset + 2 := (Cursor.over_drop_length hrest).2
  rw [readInterpolation?, Reader.readInterpolation]
  simp only [ofReader_walk, hw.toAt.offset_eq hs, ← htwo, hinner.dropBytes?, Option.bind_eq_bind,
    Option.bind_some, find?_rest, hw.toAt.current_span]
  cases hcut : (r.cursor.drop 2).cutAt? ['\x7d', '\x7d'] with
  | none =>
      obtain ⟨w', hsync, hleads⟩ := hw.sync? hs hopen
      simp only [Option.map_none, hsync, Option.bind_some]
      refine ⟨w', congrArg some (pushText_ofReader w w' (r.report _) _ (r.cursor.drop 2)), ?_⟩
      rw [Reader.pushText_cursor]
      exact hleads
  | some found =>
      obtain ⟨raw, next⟩ := found
      obtain ⟨m, hraw, hnext⟩ := Cursor.exists_over_of_cutAt? hcut
      have hlast : m.offset + 2 = next.offset := hnext.2.symm
      have hblank : byteLength raw - byteLength (raw.dropWhile isBlank)
          = byteLength (raw.takeWhile isBlank) := by
        have hsplit := congrArg byteLength
          (List.takeWhile_append_dropWhile (p := isBlank) (l := raw))
        rw [byteLength_append] at hsplit
        omega
      obtain ⟨w', hsync, hleads⟩ := hw.sync? hs (hopen.trans (hraw.reaches.trans hnext.reaches))
      simp only [Option.map_some, ← hraw.2, hlast, hinner.slice?_of_over hraw, hsync,
        Option.bind_some, hblank]
      exact ⟨w', rfl, hleads⟩

theorem readElement?_follows (hs : byteLength source ≤ maxOffset) (hw : w.Follows source r.cursor)
    (hkind : r.cursor.kind = .tagOpen) :
    ∃ w', (ofReader w r).readElement? source checked = some (ofReader w' r.readElement) ∧
      w.Leads source w' r.readElement.cursor := by
  obtain ⟨w₁, htag, hleads₁⟩ := readStartTag?_follows hs checked hw hkind
  obtain ⟨w₂, hraw, hleads₂⟩ := readRawText?_follows hs hleads₁.follows
    (readStartTag r.cursor).value.name (r.cursor.spanTo (readStartTag r.cursor).next)
  rw [readElement?, Reader.readElement]
  simp only [ofReader_walk, hw.toAt.offset_eq hs, htag, Option.bind_eq_bind, Option.bind_some,
    scan_value, scan_errors, scan_walk, hleads₁.follows.toAt.offset_eq hs]
  split
  · exact ⟨w₁, rfl, hleads₁⟩
  · split
    · rw [show Span.ofOffsets _ _ = r.cursor.spanTo (readStartTag r.cursor).next from rfl, hraw]
      simp only [Option.bind_some, scan_walk, hleads₂.follows.toAt.offset_eq hs]
      exact ⟨w₂, rfl, hleads₁.trans hleads₂⟩
    · exact ⟨w₁, rfl, hleads₁⟩

theorem skipClosingTag?_follows (hs : byteLength source ≤ maxOffset)
    (hw : w.Follows source r.cursor) (hkind : r.cursor.kind = .closingTagOpen) :
    ∃ w', (ofReader w r).skipClosingTag? source = some (ofReader w' r.skipClosingTag) ∧
      w.Leads source w' r.cursor.pastTag := by
  obtain ⟨w', hsync, hleads⟩ := hw.sync? hs r.cursor.reaches_pastTag
  refine ⟨w', ?_, hleads⟩
  rw [skipClosingTag?, Reader.skipClosingTag]
  simp only [ofReader_walk, hw.toAt.offset_eq hs, closingNameAt?_offset hw.lies hkind,
    closingTagStop?_offset hw.lies, hsync, Option.bind_eq_bind, Option.bind_some]
  rfl

theorem closeElement?_follows (hs : byteLength source ≤ maxOffset)
    (hw : w.Follows source r.cursor) (mode : WhitespaceMode) (e : OpenElement)
    (outer : List OpenElement) :
    ∃ w', (ofReader w r).closeElement? source mode e outer
        = some (ofReader w' (r.closeElement mode e outer)) ∧
      w.Leads source w' r.cursor.pastTag := by
  obtain ⟨w', hread, hleads⟩ := readClosingTag?_follows hs hw
  have hoffset : w'.offset source = r.cursor.readClosingTag.next.offset :=
    hleads.follows.toAt.offset_eq hs
  refine ⟨w', ?_, hleads⟩
  rw [closeElement?, Reader.closeElement]
  simp only [ofReader_walk, hread, Option.bind_eq_bind, Option.bind_some, scan_errors, scan_walk,
    hoffset]
  rfl

theorem abandonElement_ofReader (hs : byteLength source ≤ maxOffset)
    (hw : w.Follows source r.cursor) (mode : WhitespaceMode) (e : OpenElement)
    (outer : List OpenElement) :
    (ofReader w r).abandonElement source mode e outer
      = ofReader w (r.abandonElement mode e outer) := by
  rw [abandonElement, Reader.abandonElement]
  simp only [ofReader_walk, hw.toAt.offset_eq hs]
  rfl

theorem readClosing?_follows (hs : byteLength source ≤ maxOffset) (hw : w.Follows source r.cursor)
    (hkind : r.cursor.kind = .closingTagOpen) (mode : WhitespaceMode) :
    ∃ w', (ofReader w r).readClosing? source mode = some (ofReader w' (r.readClosing mode)) ∧
      w.Leads source w' (r.readClosing mode).cursor := by
  have hskip := skipClosingTag?_follows hs hw hkind
  rw [readClosing?, Reader.readClosing]
  simp only [ofReader_walk, ofReader_stack, hw.toAt.offset_eq hs,
    closingNameAt?_offset hw.lies hkind, Option.bind_eq_bind, Option.bind_some]
  cases r.stack with
  | nil => exact hskip
  | cons e outer =>
      by_cases hsame : sameName e.name r.cursor.closingName = true
      · simp only [if_pos hsame]
        exact closeElement?_follows hs hw mode e outer
      · simp only [if_neg hsame]
        by_cases houter : outer.any (sameName ·.name r.cursor.closingName) = true
        · simp only [if_pos houter]
          exact ⟨w, congrArg some (abandonElement_ofReader hs hw mode e outer), hw.leads⟩
        · simp only [if_neg houter]
          exact hskip

/-- The reader by tokens takes the step of the reader. -/
theorem step?_follows (hs : byteLength source ≤ maxOffset) (hw : w.Follows source r.cursor)
    (mode : WhitespaceMode) :
    ∃ w', (ofReader w r).step? source checked mode = some (ofReader w' (r.step mode)) ∧
      w.Leads source w' (r.step mode).cursor := by
  have hle : r.cursor.offset ≤ maxOffset := Nat.le_trans hw.lies.offset_le hs
  rw [step?, Reader.step]
  simp only [ofReader_walk, ofReader_stack, hw.toAt.current_kind]
  cases hcase : r.cursor.kind
  case endOfFile =>
    cases r.stack with
    | nil => exact ⟨w, rfl, hw.leads⟩
    | cons e outer =>
        exact ⟨w, congrArg some (abandonElement_ofReader hs hw mode e outer), hw.leads⟩
  case closingTagOpen => exact readClosing?_follows hs hw hcase mode
  case commentOpen => exact readComment?_follows hs hw hcase
  case mustacheOpen => exact readInterpolation?_follows hs hw hcase
  case tagOpen =>
    simp only [opensElement_eq hw.toAt hle hcase]
    split
    · exact readElement?_follows hs hw hcase
    · exact readText?_follows hs hw (Reader.rest_ne_nil_of_kind (by rw [hcase]; decide))
  all_goals exact readText?_follows hs hw (Reader.rest_ne_nil_of_kind (by rw [hcase]; decide))

/-! ## Runs -/

/-- A reader is done where its tokens are used up and nothing is open. -/
theorem isDone_ofReader (hw : w.At source r.cursor) :
    (((ofReader w r).walk.current source).kind = .endOfFile ∧ (ofReader w r).stack = [])
      ↔ r.isDone = true := by
  rw [ofReader_walk, hw.current_kind, Reader.kind_eq_endOfFile, Reader.isDone_iff]
  rfl

/-- With a bound above the size of the reader, the reader by tokens runs to where the reader runs,
by way of all the places where that is between two steps. -/
theorem run?_follows (hs : byteLength source ≤ maxOffset) (hw : w.Follows source r.cursor)
    (mode : WhitespaceMode) {bound : Nat} (hbound : r.size < bound) :
    ∃ w', run? source checked mode bound (ofReader w r) = some (ofReader w' (r.run mode)) ∧
      w.Leads source w' (r.run mode).cursor ∧
      ∀ n, ∃ wₙ : Walk, wₙ.moves <+: w'.moves ∧
        wₙ.Follows source ((Reader.step mode)^[n] r).cursor := by
  -- a step makes the reader smaller, so that the bound stays above its size
  induction bound generalizing r w with
  | zero => omega
  | succ bound ih =>
      rw [run?]
      split
      · rename_i hbusy
        have hdone := (isDone_ofReader hw.toAt).1 hbusy
        obtain ⟨hrest, hstack⟩ := Reader.isDone_iff.1 hdone
        have hstep : r.step mode = r := by
          rw [Reader.step, Reader.kind_eq_endOfFile.2 hrest, hstack]
        rw [Reader.run_of_isDone hdone]
        refine ⟨w, rfl, hw.leads, fun n => ⟨w, List.prefix_rfl, ?_⟩⟩
        rwa [Function.iterate_fixed hstep]
      · rename_i hbusy
        have hdone : r.isDone = false := by
          rw [isDone_ofReader hw.toAt] at hbusy
          simpa using hbusy
        have hsize := Reader.step_size_lt mode hdone
        obtain ⟨w₁, hstep, hleads₁⟩ := step?_follows hs hw mode
        obtain ⟨w₂, hrun, hleads₂, hplaces⟩ := ih hleads₁.follows (by omega)
        have hadvances : checked → Advances source (ofReader w r) (ofReader w₁ (r.step mode)) := by
          intro _
          rw [Advances, ofReader_walk, ofReader_walk, hw.toAt.offset_eq hs,
            hleads₁.follows.toAt.offset_eq hs]
          exact Reader.step_advances mode hdone
        rw [hstep]
        simp only [Option.bind_eq_bind, Option.bind_some, if_pos hadvances]
        rw [hrun, Reader.run_step]
        refine ⟨w₂, rfl, Reader.run_step mode r ▸ hleads₁.trans hleads₂, fun n => ?_⟩
        cases n with
        | zero => exact ⟨w, hleads₁.1.trans hleads₂.1, hw⟩
        | succ n => exact hplaces n

theorem length_le_byteLength (s : List Char) : s.length ≤ byteLength s := by
  induction s with
  | nil => exact Nat.le_refl 0
  | cons c s ih =>
      have := c.utf8Size_pos
      rw [List.length_cons, byteLength_cons]
      omega

theorem readToEnd?_follows (checked : Bool) (hs : byteLength source ≤ maxOffset)
    (mode : WhitespaceMode) :
    ∃ w, readToEnd? source checked mode
        = some (ofReader w ((Reader.ofSource source).run mode)) ∧
      w.Follows source ((Reader.ofSource source).run mode).cursor ∧
      ∀ n, ∃ wₙ : Walk, wₙ.moves <+: w.moves ∧
        wₙ.Follows source ((Reader.step mode)^[n] (Reader.ofSource source)).cursor := by
  have hsize : (Reader.ofSource source).size < 2 * byteLength source + 1 := by
    have := length_le_byteLength source
    show 2 * source.length + 0 < 2 * byteLength source + 1
    omega
  obtain ⟨w, hrun, hleads, hplaces⟩ := run?_follows hs (Walk.follows_ofSource hs) mode hsize
  exact ⟨w, hrun, hleads.follows, hplaces⟩

/-- Reading by tokens and offsets has a result, the template that is read. -/
theorem read?_eq (hs : byteLength source ≤ maxOffset) (mode : WhitespaceMode) :
    read? source mode = some (Template.read mode source) := by
  obtain ⟨w, hread, -⟩ := readToEnd?_follows true hs mode
  rw [read?, hread]
  rfl

theorem readAnySize?_eq (hs : byteLength source ≤ maxOffset) (mode : WhitespaceMode) :
    readAnySize? source mode = some (Template.read mode source) := by
  obtain ⟨w, hread, -⟩ := readToEnd?_follows false hs mode
  rw [readAnySize?, hread]
  rfl

end TokenReader

namespace Reader

theorem liesIn_iterate (mode : WhitespaceMode) (source : List Char) (k : Nat) :
    ((step mode)^[k] (ofSource source)).cursor.LiesIn source := by
  induction k with
  | zero => exact Cursor.liesIn_ofSource source
  | succ k ih =>
      rw [Function.iterate_succ_apply']
      exact ih.reaches (reaches_step mode _)

end Reader

/-- **Reading is total and always makes progress.** On a source shorter than 2^32 bytes, whose
offsets fit into spans:

* reading by tokens and offsets has a result, the template that is read: it never cuts the source
  inside a character or past its end, it never cuts into tokens from such an offset, and none of its
  bounded loops runs out of turns or takes a turn that does not move on;
* the reader is done after finitely many steps. Until then each step moves on in the source, or
  stays where it is and closes an element;
* all places on the way are places of the source;
* the loop over attributes takes turns until it ends, and each turn that does not end it moves on
  to a place of the source. -/
theorem Template.read_total (mode : WhitespaceMode) (source : List Char)
    (hs : byteLength source ≤ maxOffset) :
    TokenReader.read? source mode = some (Template.read mode source) ∧
      (∃ n ≤ 2 * source.length,
        (Reader.ofSource source).run mode = (Reader.step mode)^[n] (Reader.ofSource source) ∧
        ((Reader.step mode)^[n] (Reader.ofSource source)).isDone = true ∧
        ∀ k < n, ∀ r, r = (Reader.step mode)^[k] (Reader.ofSource source) →
          r.cursor.offset < (r.step mode).cursor.offset ∨
            r.cursor.offset = (r.step mode).cursor.offset ∧
              (r.step mode).stack.length < r.stack.length) ∧
      (∀ k, ((Reader.step mode)^[k] (Reader.ofSource source)).cursor.LiesIn source) ∧
      ∀ c : Cursor, c.LiesIn source →
        (propTurn? c = none → readProps c = ⟨[], [], c.skipSpace⟩) ∧
        ∀ turn, propTurn? c = some turn →
          readProps c = ⟨turn.value ++ (readProps turn.next).value,
            turn.errors ++ (readProps turn.next).errors, (readProps turn.next).next⟩ ∧
          c.offset < turn.next.offset ∧ turn.next.LiesIn source := by
  obtain ⟨n, hn, hrun, hbusy⟩ := Reader.run_eq_iterate mode (.ofSource source)
  refine ⟨TokenReader.read?_eq hs mode, ⟨n, hn, hrun, ?_, ?_⟩, ?_, ?_⟩
  · rw [← hrun]
    exact Reader.run_isDone mode (.ofSource source)
  · rintro k hk r rfl
    exact Reader.step_advances mode (hbusy k hk)
  · exact Reader.liesIn_iterate mode source
  · intro c hc
    refine ⟨?_, ?_⟩
    · intro hturn
      rw [readProps_eq, hturn]
    · intro turn hturn
      refine ⟨?_, TokenReader.propTurn?_offset_lt hturn, hc.reaches (reaches_propTurn? hturn)⟩
      rw [readProps_eq c, hturn]

/-- A source that ends inside an attribute value, after characters of two and three bytes. -/
theorem Template.read_total_unended :
    byteLength ['€', '<', 'é', '\x7b', '\x7b', '<', 'p', ' ', 'ü', '=', '"', '€'] ≤ maxOffset ∧
      TokenReader.read? ['€', '<', 'é', '\x7b', '\x7b', '<', 'p', ' ', 'ü', '=', '"', '€'] .condense
        = some (Template.read .condense
            ['€', '<', 'é', '\x7b', '\x7b', '<', 'p', ' ', 'ü', '=', '"', '€']) := by
  have hsize : byteLength ['€', '<', 'é', '\x7b', '\x7b', '<', 'p', ' ', 'ü', '=', '"', '€']
      ≤ maxOffset := by decide
  exact ⟨hsize, (Template.read_total .condense _ hsize).1⟩

end AstroTemplate
