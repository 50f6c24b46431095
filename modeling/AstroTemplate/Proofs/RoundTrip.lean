import AstroTemplate.Proofs.PlainMarkup
import AstroTemplate.Proofs.TokenSteps

set_option autoImplicit false

/-! # Reading undoes generating on plain markup

Plain nodes, written and read again, are the same nodes up to their spans (`read_generate`). The
proof follows the tree: a reader with a written node in front of it, whatever elements are open and
whatever follows, goes on to the text after the node with that node read (`Reader.run_node`), and
the same holds of a list of siblings (`Reader.run_nodes`).
-/

namespace AstroTemplate

/-! ## Trees without their spans -/

def Value.withoutSpan (v : Value) : Value := { v with span := .emptyAt 0 }

def Attribute.withoutSpans (a : Attribute) : Attribute :=
  { a with span := .emptyAt 0, value := a.value.map Value.withoutSpan }

def Argument.withoutSpan (a : Argument) : Argument := { a with span := .emptyAt 0 }

def Directive.withoutSpans (d : Directive) : Directive :=
  { d with
    span := .emptyAt 0
    argument := d.argument.map Argument.withoutSpan
    value := d.value.map Value.withoutSpan }

def TagProp.withoutSpans : TagProp → TagProp
  | .plain a => .plain a.withoutSpans
  | .directive d => .directive d.withoutSpans

def Tag.withoutSpans (tag : Tag) : Tag :=
  { tag with span := .emptyAt 0, props := tag.props.map TagProp.withoutSpans }

mutual

/-- The node with every span in it made the empty one at the beginning. -/
def Node.withoutSpans : Node → Node
  | .text _ data blank => .text (.emptyAt 0) data blank
  | .interpolation _ _ expression => .interpolation (.emptyAt 0) (.emptyAt 0) expression
  | .comment _ data => .comment (.emptyAt 0) data
  | .element tag children => .element tag.withoutSpans (Node.allWithoutSpans children)

/-- Siblings without their spans. -/
def Node.allWithoutSpans : List Node → List Node
  | [] => []
  | node :: rest => node.withoutSpans :: Node.allWithoutSpans rest

end

/-! ## Escaped values -/

theorem quote_not_mem_escapeAttr (s : List Char) : '"' ∉ escapeAttr s := by
  intro hmem
  obtain ⟨c, -, hc⟩ := List.mem_flatMap.1 hmem
  unfold escapeAttrChar at hc
  split at hc
  · exact absurd hc (by decide)
  · exact absurd hc (by decide)
  · rename_i hquote
    rw [List.mem_singleton] at hc
    exact hquote hc.symm

theorem decodeEntities_reference {s rest : List Char} {d : Char}
    (h : reference? s = some (d, rest)) :
    decodeEntities ('&' :: s) = d :: decodeEntities rest := by
  rw [decodeEntities, if_pos rfl]
  split
  · rename_i heq
    rw [h] at heq
    obtain ⟨rfl, rfl⟩ := Prod.mk.inj (Option.some.inj heq)
    rfl
  · rename_i heq
    rw [h] at heq
    cases heq

/-- Decoding undoes escaping. -/
theorem decodeEntities_escapeAttr (s : List Char) : decodeEntities (escapeAttr s) = s := by
  induction s with
  | nil => rw [escapeAttr, List.flatMap_nil, decodeEntities]
  | cons c s ih =>
      -- escaping writes two characters as references, and decoding meets no others
      have hamp : reference? ("amp;".toList ++ escapeAttr s) = some ('&', escapeAttr s) := rfl
      have hquot : reference? ("quot;".toList ++ escapeAttr s) = some ('"', escapeAttr s) := rfl
      rw [escapeAttr, List.flatMap_cons, ← escapeAttr]
      unfold escapeAttrChar
      split
      · exact (decodeEntities_reference hamp).trans (by rw [ih])
      · exact (decodeEntities_reference hquot).trans (by rw [ih])
      · rename_i hne _
        rw [List.singleton_append, decodeEntities, if_neg hne, ih]

/-! ## Names -/

/-- A character of a plain name. -/
def isPlainNameChar (c : Char) : Bool := c.isAlphanum || c == '-'

theorem IsPlainName.all {name : List Char} (h : IsPlainName name) :
    ∀ c ∈ name, isPlainNameChar c = true := by
  intro c hc
  cases name with
  | nil => cases hc
  | cons first rest =>
      obtain ⟨hfirst, hrest⟩ := h
      rcases List.mem_cons.1 hc with rfl | hc
      · simp [isPlainNameChar, Char.isAlphanum, hfirst]
      · simpa [isPlainNameChar] using hrest c hc

/-- A plain name begins with a letter. -/
theorem IsPlainName.exists_cons {name : List Char} (h : IsPlainName name) :
    ∃ first rest, name = first :: rest ∧ first.isAlpha = true ∧ isPlainNameChar first = true := by
  cases name with
  | nil => exact h.elim
  | cons first rest => exact ⟨first, rest, rfl, h.1, h.all first List.mem_cons_self⟩

theorem isPlainName_of_all {c : Char} {cs : List Char} (hc : c.isAlpha = true)
    (hcs : cs.all isPlainNameChar = true) : IsPlainName (c :: cs) := by
  refine ⟨hc, ?_⟩
  intro d hd
  simpa [isPlainNameChar] using List.all_eq_true.1 hcs d hd

theorem ne_of_plain {c x : Char} (h : isPlainNameChar c = true)
    (hx : isPlainNameChar x = false) : c ≠ x := by
  rintro rfl
  rw [h] at hx
  cases hx

theorem isTagNameChar_of_plain {c : Char} (h : isPlainNameChar c = true) :
    isTagNameChar c = true := by
  simp only [isTagNameChar, isTagSpace, Bool.and_eq_true, Bool.not_eq_true', Bool.or_eq_false_iff,
    bne_iff_ne, beq_eq_false_iff_ne, ne_eq]
  refine ⟨⟨⟨⟨⟨⟨?_, ?_⟩, ?_⟩, ?_⟩, ?_⟩, ?_⟩, ?_⟩
  all_goals exact ne_of_plain h (by decide)

theorem isPropNameChar_of_plain {c : Char} (h : isPlainNameChar c = true) :
    isPropNameChar c = true := by
  have htag := isTagNameChar_of_plain h
  have heq : c ≠ '=' := ne_of_plain h (by decide)
  simp_all [isTagNameChar, isPropNameChar]

theorem not_endsClosingName_of_plain {c : Char} (h : isPlainNameChar c = true) :
    endsClosingName c = false := by
  have htag := isTagNameChar_of_plain h
  simp_all [isTagNameChar, endsClosingName]

theorem not_isTagSpace_of_plain {c : Char} (h : isPlainNameChar c = true) :
    isTagSpace c = false := by
  have htag := isTagNameChar_of_plain h
  simp_all [isTagNameChar]

/-- A name is taken whole, up to a character that cannot belong to it. -/
theorem Cursor.takeWhile_append {c : Cursor} {s t : List Char} {p : Char → Bool}
    (hc : c.rest = s ++ t) (hs : ∀ x ∈ s, p x = true) (ht : ∀ x, t.head? = some x → p x = false) :
    ∃ d : Cursor, c.takeWhile p = (s, d) ∧ d.rest = t := by
  have htake : t.takeWhile p = [] ∧ t.dropWhile p = t := by
    cases t with
    | nil => exact ⟨rfl, rfl⟩
    | cons x t =>
        have hx := ht x rfl
        exact ⟨List.takeWhile_cons_of_neg (by simp [hx]), List.dropWhile_cons_of_neg (by simp [hx])⟩
  refine ⟨⟨c.offset + byteLength s, t⟩, ?_, rfl⟩
  rw [Cursor.takeWhile, hc, List.takeWhile_append_of_pos hs, List.dropWhile_append_of_pos hs,
    htake.1, htake.2, List.append_nil]

/-! ## Attributes and start tags -/

/-- What follows an attribute in a written start tag: more attributes and a `>`. -/
def TagRest (tail : List Char) : Prop :=
  ∃ (props : List TagProp) (t : List Char), ArePlainProps props ∧
    tail = props.flatMap TagProp.written ++ '>' :: t

theorem TagRest.head {tail : List Char} (h : TagRest tail) :
    tail.head? = some ' ' ∨ tail.head? = some '>' := by
  obtain ⟨props, t, hprops, rfl⟩ := h
  cases props with
  | nil => exact .inr rfl
  | cons p props =>
      obtain ⟨a, rfl, -⟩ := hprops p List.mem_cons_self
      exact .inl rfl

/-- No value follows. -/
theorem TagRest.no_value {tail : List Char} (h : TagRest tail) :
    (tail.dropWhile isTagSpace).head? ≠ some '=' := by
  obtain ⟨props, t, hprops, rfl⟩ := h
  cases props with
  | nil =>
      rw [List.flatMap_nil, List.nil_append, List.dropWhile_cons_of_neg (by decide)]
      simp
  | cons p props =>
      obtain ⟨a, rfl, ha, -⟩ := hprops p List.mem_cons_self
      obtain ⟨first, rest, hname, -, hfirst⟩ := ha.exists_cons
      have hspace := not_isTagSpace_of_plain hfirst
      have hne : first ≠ '=' := ne_of_plain hfirst (by decide)
      rw [List.flatMap_cons, TagProp.written, hname]
      simp only [List.cons_append]
      rw [List.dropWhile_cons_of_pos (by decide), List.dropWhile_cons_of_neg (by simp [hspace])]
      simpa using hne

theorem DirectiveName.read?_plain {name : List Char} (h : IsPlainName name)
    (hv : ¬ ['v', '-'] <+: name) : DirectiveName.read? name = none := by
  unfold DirectiveName.read?
  split
  · rename_i s
    exact absurd ⟨s, rfl⟩ hv
  · exact absurd h.1 (by decide)
  · exact absurd h.1 (by decide)
  · exact absurd h.1 (by decide)
  · exact absurd h.1 (by decide)
  · rfl

/-- A written value is read back. -/
theorem readValue_written {c : Cursor} {v tail : List Char}
    (hc : c.rest = '"' :: (escapeAttr v ++ '"' :: tail)) :
    ∃ d : Cursor, d.rest = tail ∧
      readValue c = ⟨.ofRaw (c.drop 1).offset (escapeAttr v), [], d⟩ := by
  have hdrop : (c.drop 1).rest = escapeAttr v ++ '"' :: tail := by
    rw [Cursor.drop, hc]
    rfl
  have hcut : cutAt? ['"'] (c.drop 1).rest = some (escapeAttr v, tail) := by
    rw [hdrop, cutAt?_append_of_not_mem (quote_not_mem_escapeAttr v), cutAt?_cons, if_pos rfl]
    simp
  refine ⟨⟨(c.drop 1).offset + byteLength (escapeAttr v) + byteLength ['"'], tail⟩, rfl, ?_⟩
  unfold readValue
  rw [hc]
  simp only [true_or, if_true, Cursor.cutAt?, hcut, Option.map_some]

theorem readProp_bare {c after : Cursor} {name : List Char}
    (hname : c.takeWhile isPropNameChar = (name, after))
    (hno : after.skipSpace.rest.head? ≠ some '=') :
    readProp c = ⟨.ofName (c.spanTo after) c.offset name none, [], after⟩ := by
  unfold readProp
  simp only [hname, if_neg hno]

theorem readProp_valued {c after : Cursor} {name : List Char} {value : Reading Value}
    (hname : c.takeWhile isPropNameChar = (name, after))
    (heq : after.skipSpace.rest.head? = some '=')
    (hvalue : readValue (after.skipSpace.drop 1).skipSpace = value) :
    readProp c = ⟨.ofName (c.spanTo value.next) c.offset name (some value.value), value.errors,
      value.next⟩ := by
  unfold readProp
  simp only [hname, if_pos heq, hvalue]

/-- A written attribute is read back, up to spans. -/
theorem readProp_written {c : Cursor} {a : Attribute} {tail : List Char} (ha : a.IsPlain)
    (htail : TagRest tail) (hc : c.rest = a.name ++ (Value.written a.value ++ tail)) :
    (readProp c).errors = [] ∧ (readProp c).next.rest = tail ∧
      (readProp c).value.withoutSpans = (TagProp.plain a).withoutSpans := by
  obtain ⟨hname, hv, -⟩ := ha
  have hread := DirectiveName.read?_plain hname hv
  have hall : ∀ x ∈ a.name, isPropNameChar x = true :=
    fun x hx => isPropNameChar_of_plain (hname.all x hx)
  cases hvalue : a.value with
  | none =>
      rw [hvalue, Value.written, List.nil_append] at hc
      obtain ⟨after, htake, hafter⟩ := Cursor.takeWhile_append hc hall (by
        intro x hx
        rcases htail.head with h | h <;> (rw [h] at hx; cases hx; decide))
      have hno : after.skipSpace.rest.head? ≠ some '=' := by
        show (after.rest.dropWhile isTagSpace).head? ≠ some '='
        rw [hafter]
        exact htail.no_value
      rw [readProp_bare htake hno]
      exact ⟨rfl, hafter, by
        simp [TagProp.ofName, hread, TagProp.withoutSpans, Attribute.withoutSpans, hvalue]⟩
  | some v =>
      rw [hvalue, Value.written] at hc
      obtain ⟨after, htake, hafter⟩ := Cursor.takeWhile_append hc hall (by
        intro x hx
        cases hx
        decide)
      -- the value begins right after `=`, with its quote
      have heq : after.skipSpace = after := Cursor.skipSpace_eq_self (by rw [hafter]; rfl)
      have hquote : (after.drop 1).rest = '"' :: (escapeAttr v.content ++ '"' :: tail) := by
        rw [Cursor.drop, hafter]
        simp
      have hskip : (after.drop 1).skipSpace = after.drop 1 :=
        Cursor.skipSpace_eq_self (by rw [hquote]; rfl)
      obtain ⟨d, hd, hreadValue⟩ := readValue_written hquote
      rw [readProp_valued htake (by rw [heq, hafter]; rfl) rfl, heq, hskip, hreadValue]
      refine ⟨rfl, hd, ?_⟩
      simp [TagProp.ofName, hread, TagProp.withoutSpans, Attribute.withoutSpans, hvalue,
        Value.withoutSpan, Value.ofRaw, decodeEntities_escapeAttr]

/-- Where a name begins after white space, the loop over attributes reads an attribute. -/
theorem propTurn?_of_name {c : Cursor} {name t : List Char} (hname : IsPlainName name)
    (hc : c.skipSpace.rest = name ++ t) :
    propTurn? c = some ⟨[(readProp c.skipSpace).value], (readProp c.skipSpace).errors,
      (readProp c.skipSpace).next⟩ := by
  obtain ⟨first, rest, rfl, -, hfirst⟩ := hname.exists_cons
  have hchar := isPropNameChar_of_plain hfirst
  have heq : first ≠ '=' := ne_of_plain hfirst (by decide)
  have hslash : first ≠ '/' := ne_of_plain hfirst (by decide)
  have hopen : first ≠ '<' := ne_of_plain hfirst (by decide)
  unfold propTurn?
  rw [hc, List.cons_append]
  simp only [heq, hslash, hopen, hchar, if_false, false_and, ne_eq, not_false_eq_true, true_and,
    if_true]

/-- Written attributes are read back, up to spans, and nothing after them is touched. -/
theorem readProps_written {props : List TagProp} (hprops : ArePlainProps props) {c : Cursor}
    {t : List Char} (hc : c.rest = props.flatMap TagProp.written ++ '>' :: t) :
    (readProps c).errors = [] ∧ (readProps c).next.rest = '>' :: t ∧
      (readProps c).value.map TagProp.withoutSpans = props.map TagProp.withoutSpans := by
  induction props generalizing c with
  | nil =>
      have hspace : c.skipSpace = c := Cursor.skipSpace_eq_self (by rw [hc]; rfl)
      have hturn : propTurn? c = none := by
        rw [propTurn?, hspace, hc]
        rfl
      rw [readProps_eq, hturn]
      exact ⟨rfl, by rw [hspace]; exact hc, rfl⟩
  | cons p props ih =>
      obtain ⟨a, rfl, ha⟩ := hprops p List.mem_cons_self
      have hrest : ArePlainProps props := fun q hq => hprops q (List.mem_cons_of_mem _ hq)
      have hspace : c.skipSpace.rest
          = a.name ++ (Value.written a.value ++ (props.flatMap TagProp.written ++ '>' :: t)) := by
        show c.rest.dropWhile isTagSpace = _
        obtain ⟨first, rest, hname, -, hfirst⟩ := ha.1.exists_cons
        rw [hc, List.flatMap_cons, TagProp.written, hname]
        simp [not_isTagSpace_of_plain hfirst, show isTagSpace ' ' = true by decide]
      obtain ⟨herrors, hnext, hvalue⟩ := readProp_written ha ⟨props, t, hrest, rfl⟩ hspace
      obtain ⟨hmoreErrors, hmoreNext, hmore⟩ := ih hrest hnext
      rw [readProps_eq, propTurn?_of_name ha.1 hspace]
      refine ⟨?_, hmoreNext, ?_⟩
      · simp [herrors, hmoreErrors]
      · simp [hvalue, hmore]

/-- A written start tag is read back, up to spans. -/
theorem readStartTag_written {tag : Tag} (hname : IsPlainName tag.name)
    (hprops : ArePlainProps tag.props) {c : Cursor} {t : List Char}
    (hc : c.rest = '<' :: (tag.name ++ (tag.props.flatMap TagProp.written ++ '>' :: t))) :
    (readStartTag c).errors = [] ∧ (readStartTag c).next.rest = t ∧
      (readStartTag c).value.name = tag.name ∧ (readStartTag c).value.selfClosing = false ∧
      (readStartTag c).value.props.map TagProp.withoutSpans
        = tag.props.map TagProp.withoutSpans := by
  have hrest : TagRest (tag.props.flatMap TagProp.written ++ '>' :: t) :=
    ⟨tag.props, t, hprops, rfl⟩
  have hdrop : (c.drop 1).rest = tag.name ++ (tag.props.flatMap TagProp.written ++ '>' :: t) := by
    rw [Cursor.drop, hc]
    rfl
  obtain ⟨atProps, htake, hatProps⟩ := Cursor.takeWhile_append hdrop
    (fun x hx => isTagNameChar_of_plain (hname.all x hx)) (by
      intro x hx
      rcases hrest.head with h | h <;> (rw [h] at hx; cases hx; decide))
  obtain ⟨herrors, hnext, hvalue⟩ := readProps_written hprops hatProps
  have hkind : (readProps atProps).next.kind = .tagClose := by
    rw [Cursor.kind, hnext]
    rfl
  unfold readStartTag
  simp only [htake, hkind, true_and]
  refine ⟨herrors, ?_, hvalue⟩
  rw [Cursor.drop, hnext]
  rfl

/-! ## What a reader does with written nodes -/

theorem startsWithText_cons (node : Node) (rest : List Node) :
    startsWithText (node :: rest) = startsWithText [node] := by
  cases node <;> rfl

theorem startsWithText_eq {a b : Node} (h : a.withoutSpans = b.withoutSpans) :
    startsWithText [a] = startsWithText [b] := by
  cases a <;> cases b <;> simp_all [startsWithText, Node.withoutSpans]

/-- Written siblings that do not begin with text begin where a text is over. -/
theorem textStop_generate {nodes : List Node} (h : Node.ArePlain nodes)
    (hstart : startsWithText nodes = false) {tail : List Char} (htail : TextStop tail) :
    TextStop (generate nodes ++ tail) := by
  cases nodes with
  | nil => rwa [generate_nil, List.nil_append]
  | cons node rest =>
      obtain ⟨hnode, -, -⟩ := h
      rw [generate_cons hnode.props]
      cases node with
      | text span data blank => cases hstart
      | interpolation span inner expression => exact hnode.elim
      | comment span data => exact .inr ⟨rfl, rfl⟩
      | element tag children =>
          obtain ⟨first, more, hname, halpha, -⟩ := hnode.1.name.exists_cons
          rw [content_element hnode.1.props, hname]
          exact .inr ⟨rfl, by simp [endsText, halpha]⟩

namespace Reader

variable (mode : WhitespaceMode)

/-- A written text is read back. -/
theorem step_text {r : Reader} {data tail : List Char} (hne : data ≠ []) (hlt : '<' ∉ data)
    (hbraces : ¬ ['\x7b', '\x7b'] <:+: data) (hrest : r.cursor.rest = data ++ tail)
    (htail : TextStop tail) (hfresh : startsWithText r.nodes = false) :
    ∃ d : Cursor, d.rest = tail ∧
      r.step mode = r.push (.text (r.cursor.spanTo d) data (isTagBlank data)) d := by
  obtain ⟨c, more, rfl⟩ := List.exists_cons_of_ne_nil hne
  have hdata : r.cursor.rest.take 1 ++ textRun (r.cursor.rest.drop 1) = c :: more := by
    rw [hrest]
    show c :: textRun (more ++ tail) = c :: more
    rw [textRun_append (fun hin => hlt (List.mem_cons_of_mem _ hin))
      (fun hin => hbraces (List.infix_cons hin)) htail]
  have hstarts : r.cursor.startsText = true := by
    refine Cursor.startsText_of_not_endsText (by simp [hrest]) ?_
    rw [hrest, List.cons_append]
    exact not_endsText_append hlt hbraces htail
  refine ⟨r.cursor.drop (c :: more).length, by simp [Cursor.drop, hrest], ?_⟩
  rw [step_of_startsText hstarts, readText, hdata, pushText]
  -- the last node is no text that this one could be joined to
  split
  · rename_i hnodes
    rw [hnodes] at hfresh
    cases hfresh
  · rfl

/-- A written comment is read back. -/
theorem step_comment {r : Reader} {data tail : List Char} (hdata : ¬ ['-', '-', '>'] <:+: data)
    (hrest : r.cursor.rest = ['<', '!', '-', '-'] ++ (data ++ (['-', '-', '>'] ++ tail))) :
    ∃ d : Cursor, d.rest = tail ∧
      r.step .preserve = r.push (.comment (r.cursor.spanTo d) data) d := by
  have hkind : r.cursor.kind = .commentOpen := by
    rw [Cursor.kind, hrest]
    rfl
  have hbody : (r.cursor.drop 4).rest = data ++ (['-', '-', '>'] ++ tail) := by
    rw [Cursor.drop, hrest]
    rfl
  refine ⟨⟨(r.cursor.drop 4).offset + byteLength data + byteLength ['-', '-', '>'], tail⟩, rfl, ?_⟩
  rw [step, hkind]
  show r.readComment = _
  rw [readComment, Cursor.cutAt?, hbody, cutAt?_comment hdata]
  rfl

/-- A written start tag opens its element. -/
theorem step_open {r : Reader} {tag : Tag} (hname : IsPlainName tag.name)
    (hprops : ArePlainProps tag.props) (hvoid : isVoidElement tag.name = false)
    (hraw : isRawTextElement tag.name = false) {tail : List Char}
    (hrest : r.cursor.rest
      = '<' :: (tag.name ++ (tag.props.flatMap TagProp.written ++ '>' :: tail))) :
    ∃ (d : Cursor) (e : OpenElement), d.rest = tail ∧ e.name = tag.name ∧ e.before = r.nodes ∧
      e.props.map TagProp.withoutSpans = tag.props.map TagProp.withoutSpans ∧
      r.step mode = { r with cursor := d, nodes := [], stack := e :: r.stack } := by
  obtain ⟨herrors, hnext, hread, hself, hsame⟩ := readStartTag_written hname hprops hrest
  have hopens : r.cursor.kind = .tagOpen ∧ r.cursor.opensElement = true := by
    obtain ⟨first, more, hcase, halpha, hfirst⟩ := hname.exists_cons
    have hslash : first ≠ '/' := ne_of_plain hfirst (by decide)
    have hbang : first ≠ '!' := ne_of_plain hfirst (by decide)
    rw [Cursor.kind, Cursor.opensElement, hrest, hcase]
    exact ⟨by simp [firstToken?, hslash, hbang], halpha⟩
  refine ⟨(readStartTag r.cursor).next, ⟨r.cursor.offset, (readStartTag r.cursor).next.offset,
    tag.name, (readStartTag r.cursor).value.props, r.nodes⟩, hnext, rfl, rfl, hsame, ?_⟩
  rw [step, hopens.1]
  show (if r.cursor.opensElement then r.readElement else r.readText) = _
  rw [if_pos hopens.2, readElement]
  simp [herrors, hread, hself, hvoid, hraw]

/-- A written closing tag closes its element. -/
theorem step_close {r : Reader} {e : OpenElement} {outer : List OpenElement} {tail : List Char}
    (hname : IsPlainName e.name) (hstack : r.stack = e :: outer)
    (hrest : r.cursor.rest = ['<', '/'] ++ (e.name ++ '>' :: tail)) :
    ∃ d : Cursor, d.rest = tail ∧ r.step mode
      = { r with
          cursor := d
          nodes := e.close d.offset (e.finishChildren mode outer r.nodes.reverse) :: e.before
          stack := outer } := by
  have hkind : r.cursor.kind = .closingTagOpen := by
    rw [Cursor.kind, hrest]
    rfl
  have hclosing : r.cursor.closingName = e.name := by
    rw [Cursor.closingName, hrest]
    show (e.name ++ '>' :: tail).takeWhile _ = e.name
    rw [List.takeWhile_append_of_pos
        fun x hx => by rw [not_endsClosingName_of_plain (hname.all x hx), Bool.not_false],
      List.takeWhile_cons_of_neg (by decide), List.append_nil]
  have hgt : '>' ∉ ['<', '/'] ++ e.name := by
    intro hmem
    rcases List.mem_append.1 hmem with hmem | hmem
    · exact absurd hmem (by decide)
    · exact absurd (hname.all _ hmem) (by decide)
  have hcut : cutAt? ['>'] r.cursor.rest = some (['<', '/'] ++ e.name, tail) := by
    rw [hrest, ← List.append_assoc, cutAt?_append_of_not_mem hgt, cutAt?_cons, if_pos rfl]
    simp
  refine ⟨r.cursor.pastTag, ?_, ?_⟩
  · simp [Cursor.pastTag, Cursor.cutAt?, hcut]
  · rw [step, hkind]
    show r.readClosing mode = _
    rw [readClosing, hstack]
    simp [hclosing, closeElement, Cursor.readClosingTag, Cursor.cutAt?, hcut]

mutual

/-- A reader with a written node in front of it reads that node, whatever is open. -/
theorem run_node (node : Node) (hnode : node.IsPlain) (r : Reader) (tail : List Char)
    (hrest : r.cursor.rest = node.piece.content ++ tail)
    (htail : startsWithText [node] = true → TextStop tail ∧ startsWithText r.nodes = false) :
    ∃ (d : Cursor) (read : Node), d.rest = tail ∧ read.withoutSpans = node.withoutSpans ∧
      r.run .preserve = (r.push read d).run .preserve := by
  cases node with
  | text span data blank =>
      obtain ⟨hne, hlt, hbraces, rfl⟩ := hnode
      obtain ⟨hstop, hfresh⟩ := htail rfl
      obtain ⟨d, hd, hstep⟩ := step_text .preserve hne hlt hbraces hrest hstop hfresh
      exact ⟨d, .text (r.cursor.spanTo d) data (isTagBlank data), hd, rfl, by
        rw [← run_step, hstep]⟩
  | interpolation span inner expression => exact hnode.elim
  | comment span data =>
      have hrest' : r.cursor.rest
          = ['<', '!', '-', '-'] ++ (data ++ (['-', '-', '>'] ++ tail)) := by
        rw [hrest, Node.piece, List.append_assoc, List.append_assoc]
        rfl
      obtain ⟨d, hd, hstep⟩ := step_comment hnode hrest'
      exact ⟨d, .comment (r.cursor.spanTo d) data, hd, rfl, by rw [← run_step, hstep]⟩
  | element tag children =>
      obtain ⟨htag, hchildren⟩ := hnode
      have hopen : r.cursor.rest = '<' :: (tag.name ++ (tag.props.flatMap TagProp.written ++ '>' ::
          (generate children ++ (['<', '/'] ++ (tag.name ++ '>' :: tail))))) := by
        rw [hrest, content_element htag.props]
        simp
      obtain ⟨d, e, hd, hname, hbefore, hprops, hstep⟩ :=
        step_open .preserve htag.name htag.props htag.notVoid htag.notRaw hopen
      -- the children are read inside the new element, and the closing tag stops their last text
      obtain ⟨atEnd, read, hatEnd, hread, hrun⟩ := run_nodes children hchildren
        { r with cursor := d, nodes := [], stack := e :: r.stack } _ hd (.inr ⟨rfl, rfl⟩)
        (fun _ => rfl)
      rw [← hname] at hatEnd
      obtain ⟨last, hlast, hclose⟩ := step_close .preserve
        (r := { r with cursor := atEnd, nodes := read.reverse ++ [], stack := e :: r.stack })
        (hname ▸ htag.name) rfl hatEnd
      have hchildren : e.finishChildren .preserve r.stack read = read := by
        rw [OpenElement.finishChildren, hname, htag.notPre]
        rfl
      refine ⟨last, e.close last.offset read, hlast, ?_, ?_⟩
      · simp [OpenElement.close, Node.withoutSpans, Tag.withoutSpans, hname, hprops, hread,
          htag.notSelfClosing]
      · rw [← run_step, hstep, hrun, ← run_step, hclose]
        simp [push, hbefore, hchildren]

/-- A reader with written siblings in front of it reads them, whatever is open. -/
theorem run_nodes (nodes : List Node) (hnodes : Node.ArePlain nodes) (r : Reader)
    (tail : List Char) (hrest : r.cursor.rest = generate nodes ++ tail) (htail : TextStop tail)
    (hfresh : startsWithText nodes = true → startsWithText r.nodes = false) :
    ∃ (d : Cursor) (read : List Node), d.rest = tail ∧
      Node.allWithoutSpans read = Node.allWithoutSpans nodes ∧
      r.run .preserve = { r with cursor := d, nodes := read.reverse ++ r.nodes }.run .preserve := by
  cases nodes with
  | nil =>
      rw [generate_nil] at hrest
      exact ⟨r.cursor, [], hrest, rfl, rfl⟩
  | cons node rest =>
      obtain ⟨hnode, hapart, hplain⟩ := hnodes
      rw [generate_cons hnode.props, List.append_assoc] at hrest
      -- two texts in a row would be read as one, and there are none
      obtain ⟨d, read, hd, hread, hrun⟩ := run_node node hnode r _ hrest fun htext =>
        ⟨textStop_generate hplain (by simpa [htext] using hapart) htail,
          hfresh (startsWithText_cons node rest ▸ htext)⟩
      obtain ⟨last, more, hlast, hmore, hruns⟩ :=
        run_nodes rest hplain (r.push read d) tail hd htail fun htext => by
          rw [push, startsWithText_cons, startsWithText_eq hread]
          simpa [htext] using hapart
      refine ⟨last, read :: more, hlast, ?_, ?_⟩
      · rw [Node.allWithoutSpans, Node.allWithoutSpans, hread, hmore]
      · rw [hrun, hruns]
        simp [push]

end

end Reader

/-! ## The whole source -/

/-- What a reader has read of written siblings. -/
theorem Reader.run_generate (nodes : List Node) (h : Node.ArePlain nodes) :
    ∃ (d : Cursor) (read : List Node),
      (Reader.ofSource (generate nodes)).run .preserve = ⟨d, read.reverse, [], []⟩ ∧
      Node.allWithoutSpans read = Node.allWithoutSpans nodes := by
  obtain ⟨d, read, hd, hread, hrun⟩ := Reader.run_nodes nodes h (.ofSource (generate nodes)) []
    (List.append_nil _).symm (.inl rfl) (fun _ => rfl)
  refine ⟨d, read, ?_, hread⟩
  rw [← List.append_nil read.reverse]
  exact hrun.trans (Reader.run_of_isDone (Reader.isDone_iff.2 ⟨hd, rfl⟩))

/-- **Reading undoes generating on plain markup.** Plain siblings whose written form is shorter than
2^32 bytes, so that its offsets fit into spans, are written and read again. Reading has a result, in
which the siblings come back without an error, and all that differs is where they stand. -/
theorem Template.read_generate (nodes : List Node) (h : Node.ArePlain nodes)
    (hs : byteLength (generate nodes) ≤ maxOffset) :
    TokenReader.readAnySize? (generate nodes) .preserve
        = some (Template.read .preserve (generate nodes)) ∧
      (Template.read .preserve (generate nodes)).errors = [] ∧
      Node.allWithoutSpans (Template.read .preserve (generate nodes)).nodes
        = Node.allWithoutSpans nodes := by
  obtain ⟨d, read, hrun, hread⟩ := Reader.run_generate nodes h
  refine ⟨TokenReader.readAnySize?_eq hs .preserve, ?_, ?_⟩
  · rw [Template.read, hrun]
    rfl
  · rw [Template.read, hrun]
    simp [finishSiblings, hread]

/-- The tag of a paragraph with two attributes. -/
def paragraphTag : Tag :=
  ⟨.emptyAt 0, ['p'], [
    .plain ⟨.emptyAt 0, ['i', 'd'], some ⟨.emptyAt 0, ['"', '&', '>', '&', 'l', 't', ';']⟩⟩,
    .plain ⟨.emptyAt 0, ['x', '-', '1'], none⟩], false⟩

def boldTag : Tag := ⟨.emptyAt 0, ['b'], [], false⟩

theorem isPlain_boldTag : boldTag.IsPlain :=
  ⟨isPlainName_of_all rfl rfl, by decide, by decide, by decide, rfl, by rintro p ⟨⟩⟩

/-- A paragraph after a line break, with text, a comment and an element in it. -/
def paragraphMarkup : List Node :=
  [.text (.emptyAt 0) ['\n'] true,
    .element paragraphTag
      [.text (.emptyAt 0) ['>', '\x7b', 'a', '\x7d', '\x7d'] false,
        .comment (.emptyAt 0) ['-', '-', '<', 'p', '>'],
        .element boldTag []]]

theorem Template.read_generate_paragraph :
    Node.ArePlain paragraphMarkup ∧ byteLength (generate paragraphMarkup) ≤ maxOffset ∧
      TokenReader.readAnySize? (generate paragraphMarkup) .preserve
        = some (Template.read .preserve (generate paragraphMarkup)) ∧
      (Template.read .preserve (generate paragraphMarkup)).errors = [] ∧
      Node.allWithoutSpans (Template.read .preserve (generate paragraphMarkup)).nodes
        = Node.allWithoutSpans paragraphMarkup := by
  have hprops : ArePlainProps paragraphTag.props := by
    simp only [ArePlainProps, paragraphTag, List.mem_cons, List.not_mem_nil, or_false]
    rintro p (rfl | rfl)
    · exact ⟨_, rfl, isPlainName_of_all rfl rfl, by decide, by rintro v ⟨⟩; decide⟩
    · exact ⟨_, rfl, isPlainName_of_all rfl rfl, by decide, by rintro v ⟨⟩⟩
  have hparagraph : paragraphTag.IsPlain :=
    ⟨isPlainName_of_all rfl rfl, by decide, by decide, by decide, rfl, hprops⟩
  have hplain : Node.ArePlain paragraphMarkup := by
    simp only [paragraphMarkup, Node.ArePlain, Node.IsPlain, hparagraph, isPlain_boldTag]
    decide
  have hsize : byteLength (generate paragraphMarkup) ≤ maxOffset := by decide +kernel
  exact ⟨hplain, hsize, Template.read_generate paragraphMarkup hplain hsize⟩

/-! ## Beyond the greatest offset -/

namespace TokenReader

variable {source : List Char} {c last : Cursor} {t : TokenReader} {mode : WhitespaceMode}

theorem step?_of_startsText {checked : Bool} (hw : t.walk.At source c)
    (hle : c.offset ≤ maxOffset) (h : c.startsText = true) :
    t.step? source checked mode = t.readText? source := by
  unfold Cursor.startsText at h
  rw [step?, hw.current_kind]
  cases hkind : c.kind
  case tagOpen =>
    rw [hkind] at h
    simp only [opensElement_eq hw hle hkind]
    exact if_neg (by simpa using h)
  case endOfFile | closingTagOpen | commentOpen | mustacheOpen =>
    rw [hkind] at h
    cases h
  all_goals rfl

/-- At a place whose offset is not beyond the greatest one, a text is read. -/
theorem readText?_eq_some {x : Char} {s : List Char} (hw : t.walk.At source c)
    (hle : c.offset ≤ maxOffset) (hrest : c.rest = x :: s) (hover : c.Over (x :: textRun s) last) :
    ∃ after d, Walk.Lands source c last.offset after d ∧
      t.readText? source = some (t.pushText (c.spanTo last) (x :: textRun s) after) := by
  have hlast := hw.lies.reaches hover.reaches
  have hsync : t.walk.sync? source last.offset
      = some (t.walk.move source (.syncTo last.offset)) := by
    rw [Walk.sync?, hlast.dropBytes?, Option.map_some]
  have hoffset : t.walk.offset source = c.offset := by
    rw [hw.offset_eq_min, Nat.min_eq_left hle]
  obtain ⟨d, hd⟩ := hw.sync? (hoffset ▸ hover.reaches.offset_le) hsync
  refine ⟨_, d, hd, ?_⟩
  rw [readText?]
  simp only [hoffset, textStop_eq hw.lies hrest, ← hover.2, hsync, hw.lies.slice?_of_over hover,
    Option.bind_eq_bind, Option.bind_some]
  rfl

/-- A text that goes up to the greatest offset is all that is read. What follows it is lost, and
nothing is reported. -/
theorem readAnySize?_far_text {data tail : List Char} (hlt : '<' ∉ data)
    (hbraces : ¬ ['\x7b', '\x7b'] <:+: data) (htail : TextStop tail)
    (hfar : maxOffset ≤ byteLength data) :
    readAnySize? (data ++ tail) .preserve
      = some ⟨.ofOffsets 0 (byteLength (data ++ tail)),
          [.text (.ofOffsets 0 (byteLength data)) data (isTagBlank data)], []⟩ := by
  obtain ⟨x, more, rfl⟩ : ∃ x more, data = x :: more := by
    refine List.exists_cons_of_ne_nil ?_
    rintro rfl
    exact absurd hfar (by decide)
  have hw := Walk.at_ofSource (x :: more ++ tail)
  have hstarts : (Cursor.ofSource (x :: more ++ tail)).startsText = true :=
    Cursor.startsText_of_not_endsText (List.cons_ne_nil _ _) (not_endsText_append hlt hbraces htail)
  have hrun : textRun (more ++ tail) = more :=
    textRun_append (fun hin => hlt (List.mem_cons_of_mem _ hin))
      (fun hin => hbraces (List.infix_cons hin)) htail
  have hover : (Cursor.ofSource (x :: more ++ tail)).Over (x :: textRun (more ++ tail))
      ⟨byteLength (x :: more), tail⟩ := by
    rw [hrun]
    exact ⟨rfl, (Nat.zero_add _).symm⟩
  obtain ⟨after, d, hd, hread⟩ := readText?_eq_some (t := ⟨.ofSource _, [], [], []⟩)
    (s := more ++ tail) hw (Nat.zero_le _) rfl hover
  rw [hrun] at hread
  have hreached : Reached (x :: more ++ tail) .preserve _ :=
    .step .start ((step?_of_startsText hw (Nat.zero_le _) hstarts).trans hread)
  have hend : (after.current (x :: more ++ tail)).kind = .endOfFile := by
    rw [hd.toAt.current_kind, Reader.kind_eq_endOfFile]
    exact hd.rest_nil hfar
  rw [readAnySize?, hreached.readToEnd?_of_done ⟨hend, rfl⟩]
  rfl

end TokenReader

/-- A text of `n` letters, and an element after it. -/
def textThenElement (n : Nat) : List Node :=
  [.text (.emptyAt 0) (List.replicate n 'a') false, .element boldTag []]

theorem arePlain_textThenElement {n : Nat} (hn : n ≠ 0) : Node.ArePlain (textThenElement n) := by
  have hblank : false = isTagBlank (List.replicate n 'a') := by
    cases n with
    | zero => exact absurd rfl hn
    | succ n => rfl
  have hbraces : ¬ ['\x7b', '\x7b'] <:+: List.replicate n 'a' := by
    intro hin
    have := List.eq_of_mem_replicate (hin.subset List.mem_cons_self)
    exact absurd this (by decide)
  refine ⟨⟨by simpa using hn, by simp, hbraces, hblank⟩, by simp [startsWithText],
    ⟨isPlain_boldTag, trivial⟩, by simp [startsWithText], trivial⟩

theorem byteLength_replicate (n : Nat) : byteLength (List.replicate n 'a') = n := by
  induction n with
  | zero => rfl
  | succ n ih =>
      rw [List.replicate_succ, byteLength_cons, ih, show 'a'.utf8Size = 1 by decide, Nat.add_comm]

theorem generate_textThenElement (n : Nat) :
    generate (textThenElement n) = List.replicate n 'a' ++ ['<', 'b', '>', '<', '/', 'b', '>'] := by
  have hnone : ArePlainProps boldTag.props := isPlain_boldTag.props
  rw [textThenElement, generate_cons (by rintro tag ⟨⟩),
    generate_cons (by rintro tag ⟨⟩; exact hnone), content_element hnone, generate_nil,
    List.append_nil]
  rfl

/-- Beyond the greatest offset reading does not undo generating. A text of 2^32 - 1 letters and an
element after it are plain markup, but what is read of their written form is the text alone, and no
error says so. -/
theorem Template.read_generate_far :
    Node.ArePlain (textThenElement maxOffset) ∧
      ∃ template,
        TokenReader.readAnySize? (generate (textThenElement maxOffset)) .preserve = some template ∧
        template.errors = [] ∧
        Node.allWithoutSpans template.nodes
          ≠ Node.allWithoutSpans (textThenElement maxOffset) := by
  have hplain := arePlain_textThenElement (n := maxOffset) (by decide)
  obtain ⟨-, hlt, hbraces, -⟩ := hplain.1
  have hsize : byteLength (List.replicate maxOffset 'a') = maxOffset := byteLength_replicate _
  have hstop : TextStop ['<', 'b', '>', '<', '/', 'b', '>'] := .inr ⟨rfl, rfl⟩
  have hread := TokenReader.readAnySize?_far_text hlt hbraces hstop (Nat.le_of_eq hsize.symm)
  rw [generate_textThenElement]
  refine ⟨hplain, _, hread, rfl, fun hsame => ?_⟩
  have hlength := congrArg List.length hsame
  simp [Node.allWithoutSpans, textThenElement] at hlength

end AstroTemplate
