import AstroTemplate.Proofs.Cuts

set_option autoImplicit false

/-! # Cursors move over the source

A reading function takes a cursor and leaves one further on. `Cursor.Over c text d` says that `d`
is `c` moved over exactly `text`: the text stood in front of it, and its bytes were counted.
`Cursor.Reaches c d` leaves the text open, and `c.LiesIn source` says that `c` is reached from the
beginning of `source`. Each reading function of the library has a lemma here that says how its
cursor moves; later modules use these and do not unfold the functions again.
-/

namespace AstroTemplate

namespace Cursor

/-- The cursor `d` is the cursor `c` moved over the characters `text`. -/
def Over (c : Cursor) (text : List Char) (d : Cursor) : Prop :=
  c.rest = text ++ d.rest ∧ d.offset = c.offset + byteLength text

theorem Over.refl (c : Cursor) : c.Over [] c := ⟨rfl, rfl⟩

theorem Over.trans {c d e : Cursor} {s t : List Char} (hcd : c.Over s d) (hde : d.Over t e) :
    c.Over (s ++ t) e := by
  obtain ⟨hs, hso⟩ := hcd
  obtain ⟨ht, hto⟩ := hde
  refine ⟨?_, ?_⟩
  · rw [hs, ht, List.append_assoc]
  · rw [hto, hso, byteLength_append, Nat.add_assoc]

/-- To go over two texts is to go over the one and then over the other. -/
theorem Over.exists_of_append {c e : Cursor} {s t : List Char} (h : c.Over (s ++ t) e) :
    ∃ d : Cursor, c.Over s d ∧ d.Over t e := by
  obtain ⟨hrest, hoffset⟩ := h
  rw [List.append_assoc] at hrest
  rw [byteLength_append, ← Nat.add_assoc] at hoffset
  exact ⟨⟨c.offset + byteLength s, t ++ e.rest⟩, ⟨hrest, rfl⟩, rfl, hoffset⟩

/-- A cursor is determined by what it was moved over. -/
theorem Over.eq {c d e : Cursor} {s : List Char} (hd : c.Over s d) (he : c.Over s e) : d = e := by
  obtain ⟨hd, hdo⟩ := hd
  obtain ⟨he, heo⟩ := he
  cases d
  cases e
  simp_all

/-- Going over some text takes a cursor to a greater offset. -/
theorem Over.offset_lt {c d : Cursor} {text : List Char} (h : c.Over text d) (hne : text ≠ []) :
    c.offset < d.offset := by
  have hpos : byteLength text ≠ 0 := mt byteLength_eq_zero.1 hne
  have hoffset := h.2
  omega

theorem over_drop (c : Cursor) (count : Nat) : c.Over (c.rest.take count) (c.drop count) :=
  ⟨(List.take_append_drop count c.rest).symm, rfl⟩

/-- Moving over as many characters as a text in front has is moving over that text. -/
theorem over_drop_length {c : Cursor} {text rest : List Char} (h : c.rest = text ++ rest) :
    c.Over text (c.drop text.length) := by
  have hd := c.over_drop text.length
  rwa [h, List.take_left] at hd

theorem over_takeWhile (c : Cursor) (p : Char → Bool) :
    c.Over (c.takeWhile p).1 (c.takeWhile p).2 :=
  ⟨List.takeWhile_append_dropWhile.symm, rfl⟩

theorem over_skipSpace (c : Cursor) : c.Over (c.rest.takeWhile isTagSpace) c.skipSpace :=
  c.over_takeWhile isTagSpace

/-- After white space has been skipped there is none. -/
theorem head_skipSpace (c : Cursor) : c.skipSpace.rest.head?.any isTagSpace = false :=
  head?_dropWhile_any isTagSpace c.rest

/-- No space is skipped where there is none. -/
theorem skipSpace_eq_self {c : Cursor} (h : c.rest.head?.any isTagSpace = false) :
    c.skipSpace = c := by
  obtain ⟨offset, rest⟩ := c
  cases rest with
  | nil => rfl
  | cons x rest =>
      have hx : isTagSpace x = false := h
      simp [skipSpace, takeWhile, hx]

theorem over_toEnd (c : Cursor) : c.Over c.rest c.toEnd := ⟨(List.append_nil _).symm, rfl⟩

theorem over_of_cutAt? {c d : Cursor} {p before : List Char} (h : c.cutAt? p = some (before, d)) :
    c.Over (before ++ p) d := by
  obtain ⟨⟨b, a⟩, hcut, he⟩ := Option.map_eq_some_iff.1 h
  obtain ⟨rfl, rfl⟩ := Prod.mk.inj he
  refine ⟨eq_append_of_cutAt? hcut, ?_⟩
  rw [byteLength_append, Nat.add_assoc]

/-- A cut goes over what stands before the pattern, and then over the pattern. -/
theorem exists_over_of_cutAt? {c d : Cursor} {p before : List Char}
    (h : c.cutAt? p = some (before, d)) : ∃ m : Cursor, c.Over before m ∧ m.Over p d :=
  (over_of_cutAt? h).exists_of_append

/-- The cursor `d` is further on than `c`, or the same. -/
def Reaches (c d : Cursor) : Prop := ∃ text, c.Over text d

theorem Over.reaches {c d : Cursor} {text : List Char} (h : c.Over text d) : c.Reaches d :=
  ⟨text, h⟩

theorem Reaches.refl (c : Cursor) : c.Reaches c := (Over.refl c).reaches

theorem Reaches.trans {c d e : Cursor} (hcd : c.Reaches d) (hde : d.Reaches e) : c.Reaches e := by
  obtain ⟨s, hs⟩ := hcd
  obtain ⟨t, ht⟩ := hde
  exact (hs.trans ht).reaches

theorem Reaches.offset_le {c d : Cursor} (h : c.Reaches d) : c.offset ≤ d.offset := by
  obtain ⟨text, -, ho⟩ := h
  omega

theorem Reaches.rest_le {c d : Cursor} (h : c.Reaches d) : d.rest.length ≤ c.rest.length := by
  obtain ⟨text, hrest, -⟩ := h
  rw [hrest, List.length_append]
  exact Nat.le_add_left _ _

/-- A source has one end. -/
theorem Reaches.toEnd_eq {c d : Cursor} (h : c.Reaches d) : d.toEnd = c.toEnd := by
  obtain ⟨text, hrest, hoffset⟩ := h
  rw [toEnd, toEnd, hrest, hoffset, byteLength_append, Nat.add_assoc]

/-- A cursor with less text in front of it has a greater offset. -/
theorem Reaches.offset_lt {c d : Cursor} (h : c.Reaches d)
    (hlt : d.rest.length < c.rest.length) : c.offset < d.offset := by
  obtain ⟨text, hover⟩ := h
  refine hover.offset_lt ?_
  rintro rfl
  rw [hover.1] at hlt
  exact Nat.lt_irrefl _ hlt

/-- Where a cursor has moved to depends on how far it has moved. -/
theorem Reaches.eq_of_offset {c d e : Cursor} (hd : c.Reaches d) (he : c.Reaches e)
    (h : d.offset = e.offset) : d = e := by
  obtain ⟨s, hs, hso⟩ := hd
  obtain ⟨t, ht, hto⟩ := he
  -- as many bytes are taken from the same text
  have hst : dropBytes? (byteLength s) c.rest = dropBytes? (byteLength t) c.rest := by
    rw [show byteLength s = byteLength t by omega]
  rw [congrArg (dropBytes? (byteLength s)) hs, congrArg (dropBytes? (byteLength t)) ht,
    dropBytes?_append, dropBytes?_append] at hst
  cases d
  cases e
  simp_all

/-! ## Places of a source -/

/-- The cursor stands at a place of `source`, with the rest of `source` in front of it. -/
def LiesIn (c : Cursor) (source : List Char) : Prop := (ofSource source).Reaches c

theorem liesIn_ofSource (source : List Char) : (ofSource source).LiesIn source := Reaches.refl _

theorem LiesIn.reaches {source : List Char} {c d : Cursor} (h : c.LiesIn source)
    (hcd : c.Reaches d) : d.LiesIn source := Reaches.trans h hcd

/-- A place cuts the source in two. -/
theorem liesIn_iff {source : List Char} {c : Cursor} :
    c.LiesIn source ↔ ∃ before, source = before ++ c.rest ∧ c.offset = byteLength before := by
  simp [LiesIn, Reaches, Over, ofSource]

theorem LiesIn.offset_le {source : List Char} {c : Cursor} (h : c.LiesIn source) :
    c.offset ≤ byteLength source := by
  obtain ⟨before, rfl, ho⟩ := liesIn_iff.1 h
  rw [ho, byteLength_append]
  exact Nat.le_add_right _ _

/-- The offset of a place can be cut at, and the rest of the source follows there. -/
theorem LiesIn.dropBytes? {source : List Char} {c : Cursor} (h : c.LiesIn source) :
    dropBytes? c.offset source = some c.rest := by
  obtain ⟨before, rfl, ho⟩ := liesIn_iff.1 h
  rw [ho, dropBytes?_append]

/-- At the end of the text the offset is the length of the source. -/
theorem LiesIn.offset_of_rest_nil {source : List Char} {c : Cursor} (h : c.LiesIn source)
    (hc : c.rest = []) : c.offset = byteLength source := by
  obtain ⟨before, hs, ho⟩ := liesIn_iff.1 h
  rw [ho, hs, hc, List.append_nil]

theorem LiesIn.toEnd_offset {source : List Char} {c : Cursor} (h : c.LiesIn source) :
    c.toEnd.offset = byteLength source :=
  (h.reaches c.over_toEnd.reaches).offset_of_rest_nil rfl

/-- The span between two places of a source that spans can address. -/
theorem spanTo_eq {source : List Char} {c d : Cursor} (hs : byteLength source ≤ maxOffset)
    (hc : c.LiesIn source) (hd : d.LiesIn source) : c.spanTo d = ⟨c.offset, d.offset⟩ :=
  Span.ofOffsets_eq (Nat.le_trans hc.offset_le hs) (Nat.le_trans hd.offset_le hs)

/-- Of two places of a source the one with the greater offset is reached from the other. -/
theorem LiesIn.reaches_of_le {source : List Char} {c d : Cursor} (hc : c.LiesIn source)
    (hd : d.LiesIn source) (hle : c.offset ≤ d.offset) : c.Reaches d := by
  obtain ⟨s, hs, hso⟩ := liesIn_iff.1 hc
  obtain ⟨t, ht, hto⟩ := liesIn_iff.1 hd
  rcases List.append_eq_append_iff.1 (hs.symm.trans ht) with ⟨u, hu, hrest⟩ | ⟨u, hu, hrest⟩
  · refine ⟨u, hrest, ?_⟩
    rw [hto, hso, hu, byteLength_append]
  · -- `d` is not before `c`, so nothing lies between them
    have hzero : byteLength u = 0 := by
      rw [hso, hto, hu, byteLength_append] at hle
      omega
    obtain rfl := byteLength_eq_zero.1 hzero
    refine ⟨[], hrest.symm, ?_⟩
    rw [hto, hso, hu, List.append_nil, byteLength_nil, Nat.add_zero]

/-- The text that a cursor is moved over is the slice of the source between the two places. -/
theorem LiesIn.slice?_of_over {source text : List Char} {c d : Cursor} (hc : c.LiesIn source)
    (h : c.Over text d) : (Span.mk c.offset d.offset).slice? source = some text := by
  have hle : c.offset ≤ d.offset := by
    have := h.2
    omega
  have hsize : d.offset - c.offset = byteLength text := by
    have := h.2
    omega
  rw [Span.slice?, if_pos hle, hc.dropBytes?, Option.bind_some, hsize, h.1, takeBytes?_append]

theorem LiesIn.slice_of_over {source text : List Char} {c d : Cursor} (hc : c.LiesIn source)
    (h : c.Over text d) : (Span.mk c.offset d.offset).slice source = text := by
  rw [Span.slice, hc.slice?_of_over h, Option.getD_some]

theorem LiesIn.slice?_spanTo {source text : List Char} {c d : Cursor}
    (hs : byteLength source ≤ maxOffset) (hc : c.LiesIn source) (h : c.Over text d) :
    (c.spanTo d).slice? source = some text := by
  rw [spanTo_eq hs hc (hc.reaches h.reaches)]
  exact hc.slice?_of_over h

/-- A span that covers a part of the source runs from one place of it to another. -/
theorem exists_over_of_slice? {source text : List Char} {span : Span}
    (h : span.slice? source = some text) :
    ∃ c d : Cursor, c.LiesIn source ∧ c.Over text d ∧ span = ⟨c.offset, d.offset⟩ := by
  rw [Span.slice?] at h
  split at h
  · rename_i hle
    obtain ⟨rest, hrest, htake⟩ := Option.bind_eq_some_iff.1 h
    obtain ⟨before, hsource, hstart⟩ := eq_append_of_dropBytes? hrest
    obtain ⟨after, rfl, hsize⟩ := eq_append_of_takeBytes? htake
    refine ⟨⟨span.start, text ++ after⟩, ⟨span.stop, after⟩, ?_, ⟨rfl, ?_⟩, rfl⟩
    · exact liesIn_iff.2 ⟨before, hsource, hstart.symm⟩
    · show span.stop = span.start + byteLength text
      omega
  · cases h

/-- What lies between a place and the end. -/
theorem LiesIn.byteLength_rest {source : List Char} {c : Cursor} (hc : c.LiesIn source) :
    byteLength c.rest = byteLength source - c.offset := by
  obtain ⟨before, rfl, ho⟩ := liesIn_iff.1 hc
  rw [byteLength_append, ho, Nat.add_sub_cancel_left]

/-! ## Text, tags and raw text -/

theorem over_text (c : Cursor) :
    c.Over (c.rest.take 1 ++ textRun (c.rest.drop 1))
      (c.drop (c.rest.take 1 ++ textRun (c.rest.drop 1)).length) := by
  obtain ⟨after, hafter, -⟩ := exists_textRun_append (c.rest.drop 1)
  have hrest : c.rest = c.rest.take 1 ++ textRun (c.rest.drop 1) ++ after := by
    rw [List.append_assoc, ← hafter, List.take_append_drop]
  exact over_drop_length hrest

theorem reaches_pastTag (c : Cursor) : c.Reaches c.pastTag := by
  unfold pastTag
  split
  · rename_i h
    exact (over_of_cutAt? h).reaches
  · exact c.over_toEnd.reaches

/-- The nodes for raw content that the cursor is moved over. -/
def rawNodes (c : Cursor) (content : List Char) (last : Cursor) : List Node :=
  if content.isEmpty then [] else [.text (c.spanTo last) content (isTagBlank content)]

/-- Raw content goes up to a closing tag, which is read too, or to the end of the source. -/
theorem readRawText_cases (c : Cursor) (name : List Char) (span : Span) :
    ∃ content last, c.Over content last ∧
      (c.readRawText name span).value = c.rawNodes content last ∧
      (closesHere name last.rest = true ∧
          (c.readRawText name span).errors = last.readClosingTag.errors ∧
          (c.readRawText name span).next = last.pastTag ∨
        last.rest = [] ∧ (c.readRawText name span).errors = [⟨.unclosedTag name, span⟩] ∧
          (c.readRawText name span).next = last) := by
  unfold readRawText
  cases hraw : rawContent? name c.rest with
  | none =>
      have hover : c.Over c.rest (c.drop c.rest.length) :=
        over_drop_length (List.append_nil c.rest).symm
      exact ⟨c.rest, c.drop c.rest.length, hover, rfl, .inr ⟨by simp [drop], rfl, rfl⟩⟩
  | some content =>
      obtain ⟨after, hrest, hcloses⟩ := eq_append_of_rawContent? hraw
      have hover := over_drop_length hrest
      have hlast : (c.drop content.length).rest = after := by
        have := hover.1
        rw [hrest] at this
        exact (List.append_cancel_left this).symm
      exact ⟨content, c.drop content.length, hover, rfl, .inl ⟨hlast ▸ hcloses, rfl, rfl⟩⟩

theorem reaches_readRawText (c : Cursor) (name : List Char) (span : Span) :
    c.Reaches (c.readRawText name span).next := by
  obtain ⟨content, last, hover, -, ⟨-, -, hnext⟩ | ⟨-, -, hnext⟩⟩ := c.readRawText_cases name span
  · rw [hnext]
    exact hover.reaches.trans last.reaches_pastTag
  · rw [hnext]
    exact hover.reaches

end Cursor

/-! ## Start tags -/

theorem reaches_readValue (c : Cursor) : c.Reaches (readValue c).next := by
  unfold readValue
  split
  · exact Cursor.Reaches.refl c
  · split
    · split
      · rename_i h
        exact (c.over_drop 1).reaches.trans (Cursor.over_of_cutAt? h).reaches
      · exact c.over_toEnd.reaches
    · split
      · exact Cursor.Reaches.refl c
      · exact (c.over_takeWhile isUnquotedChar).reaches

theorem reaches_readProp (c : Cursor) : c.Reaches (readProp c).next := by
  have hname := (c.over_takeWhile isPropNameChar).reaches
  unfold readProp
  simp only
  split
  · have hspace := (Cursor.over_skipSpace (c.takeWhile isPropNameChar).2).reaches
    have hequals := (Cursor.over_drop (c.takeWhile isPropNameChar).2.skipSpace 1).reaches
    have hvalue := (Cursor.over_skipSpace
      ((c.takeWhile isPropNameChar).2.skipSpace.drop 1)).reaches
    exact hname.trans (hspace.trans (hequals.trans (hvalue.trans (reaches_readValue _))))
  · exact hname

/-- One turn of the loop over attributes and directives: what it reads, or nothing where the loop
ends. -/
def propTurn? (c : Cursor) : Option (Reading (List TagProp)) :=
  match c.skipSpace.rest with
  | [] => none
  | first :: rest =>
    if first = '=' then
      some ⟨[], [⟨.invalidAttribute .missingName, c.skipSpace.tokenSpan⟩], c.skipSpace.drop 1⟩
    else if first = '/' ∧ rest.head? ≠ some '>' then some ⟨[], [], c.skipSpace.drop 1⟩
    else if first ≠ '<' ∧ isPropNameChar first = true then
      let prop := readProp c.skipSpace
      some ⟨[prop.value], prop.errors, prop.next⟩
    else none

/-- What a turn of the loop can be: it goes over one character that is no attribute, or it reads
an attribute. -/
theorem propTurn?_cases {c : Cursor} {turn : Reading (List TagProp)}
    (h : propTurn? c = some turn) :
    ∃ first rest, c.skipSpace.rest = first :: rest ∧
      (turn.value = [] ∧ turn.next = c.skipSpace.drop 1 ∧
          (turn.errors = [] ∨
            turn.errors = [⟨.invalidAttribute .missingName, c.skipSpace.tokenSpan⟩]) ∨
        isPropNameChar first = true ∧ turn.value = [(readProp c.skipSpace).value] ∧
          turn.errors = (readProp c.skipSpace).errors ∧
          turn.next = (readProp c.skipSpace).next) := by
  unfold propTurn? at h
  split at h
  · cases h
  · rename_i first rest hrest
    refine ⟨first, rest, hrest, ?_⟩
    split at h
    · obtain rfl := Option.some.inj h
      exact .inl ⟨rfl, rfl, .inr rfl⟩
    · split at h
      · obtain rfl := Option.some.inj h
        exact .inl ⟨rfl, rfl, .inl rfl⟩
      · split at h
        · rename_i hname
          obtain rfl := Option.some.inj h
          exact .inr ⟨hname.2, rfl, rfl, rfl⟩
        · cases h

/-- A turn that does not end the loop leaves less of the source. -/
theorem propTurn?_rest_lt {c : Cursor} {turn : Reading (List TagProp)}
    (h : propTurn? c = some turn) : turn.next.rest.length < c.rest.length := by
  obtain ⟨first, rest, hrest, hturn⟩ := propTurn?_cases h
  have hspace := c.skipSpace_rest_le
  rcases hturn with ⟨-, hnext, -⟩ | ⟨hname, -, -, hnext⟩
  · rw [hnext, Cursor.drop, hrest]
    rw [hrest, List.length_cons] at hspace
    simp only [List.drop_succ_cons, List.drop_zero]
    omega
  · rw [hnext]
    exact Nat.lt_of_lt_of_le (readProp_rest_lt hrest hname) hspace

theorem reaches_propTurn? {c : Cursor} {turn : Reading (List TagProp)}
    (h : propTurn? c = some turn) : c.Reaches turn.next := by
  obtain ⟨first, rest, -, hturn⟩ := propTurn?_cases h
  have hspace := c.over_skipSpace.reaches
  rcases hturn with ⟨-, hnext, -⟩ | ⟨-, -, -, hnext⟩
  · rw [hnext]
    exact hspace.trans (c.skipSpace.over_drop 1).reaches
  · rw [hnext]
    exact hspace.trans (reaches_readProp c.skipSpace)

/-- Reading attributes is taking turns until the loop ends. -/
theorem readProps_eq (c : Cursor) :
    readProps c = match propTurn? c with
      | none => ⟨[], [], c.skipSpace⟩
      | some turn =>
        ⟨turn.value ++ (readProps turn.next).value, turn.errors ++ (readProps turn.next).errors,
          (readProps turn.next).next⟩ := by
  rw [readProps, propTurn?]
  split
  · rename_i h
    rw [h]
  · rename_i first rest h
    simp only [h]
    split
    · rfl
    · split
      · rfl
      · split
        · rfl
        · rfl

/-- To show something of what the loop reads, show it of a loop that ends at once, and show that
one more turn in front keeps it. -/
theorem readProps_induction {motive : Cursor → Reading (List TagProp) → Prop}
    (leave : ∀ c, propTurn? c = none → motive c ⟨[], [], c.skipSpace⟩)
    (turn : ∀ c one more, propTurn? c = some one → motive one.next more →
      motive c ⟨one.value ++ more.value, one.errors ++ more.errors, more.next⟩)
    (c : Cursor) : motive c (readProps c) := by
  -- by induction on how much of the source is left, as every turn leaves less
  induction hn : c.rest.length using Nat.strongRecOn generalizing c with
  | ind n ih =>
      rw [readProps_eq]
      cases hturn : propTurn? c with
      | none => exact leave c hturn
      | some one =>
          have hlt := propTurn?_rest_lt hturn
          exact turn c one _ hturn (ih _ (hn ▸ hlt) one.next rfl)

theorem reaches_readProps (c : Cursor) : c.Reaches (readProps c).next := by
  refine readProps_induction (motive := fun c read => c.Reaches read.next) ?_ ?_ c
  · intro c _
    exact c.over_skipSpace.reaches
  · intro c one more hone hmore
    exact (reaches_propTurn? hone).trans hmore

/-- The cursor at the attributes of the start tag under the cursor. -/
def Cursor.atProps (c : Cursor) : Cursor := ((c.drop 1).takeWhile isTagNameChar).2

theorem Cursor.reaches_atProps (c : Cursor) : c.Reaches c.atProps :=
  (c.over_drop 1).reaches.trans ((c.drop 1).over_takeWhile isTagNameChar).reaches

/-- A start tag ends where its attributes end, or after the `>` or `/>` there. -/
theorem readProps_reaches_readStartTag (c : Cursor) :
    (readProps c.atProps).next.Reaches (readStartTag c).next := by
  unfold readStartTag
  simp only
  split
  · exact (Cursor.over_drop _ 2).reaches
  · exact (Cursor.over_drop _ 1).reaches
  · exact Cursor.Reaches.refl _
  · exact Cursor.Reaches.refl _

theorem reaches_readStartTag (c : Cursor) : c.Reaches (readStartTag c).next :=
  c.reaches_atProps.trans
    ((reaches_readProps c.atProps).trans (readProps_reaches_readStartTag c))

end AstroTemplate
