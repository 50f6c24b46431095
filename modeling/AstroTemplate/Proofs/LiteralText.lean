import AstroTemplate.Proofs.Origins
import AstroTemplate.Proofs.TokenSteps
import Mathlib.Data.List.Chain

set_option autoImplicit false

/-! # Texts hold no markup

A text is put together from several stretches of the source: runs of plain characters, a `<` that
opens nothing, declarations, and opening braces without closing ones. At no place inside a stretch
does a tag, a comment or a closed interpolation begin (`OpensNothing`, `LiteralBefore`), and
stretches are joined only where one ends at the place at which the next one begins. So the same
holds of the text (`CleanText`).

This is so in a source of any size. From the greatest offset of spans on all offsets are the same,
and texts could touch there that lie apart. But after a text that reaches so far the reader is at
the end of the source, and adds nothing to it (`LiteralUpTo`). Where its offset is behind its place,
the character that it begins a text with is a sign of a start tag (`Walk.Placed`), with which
nothing begins either.
-/

namespace AstroTemplate

/-! ## Places where only text begins -/

/-- Neither a tag nor a comment begins with `s`, and no interpolation that is closed. -/
structure OpensNothing (s : List Char) : Prop where
  startTag : ∀ x : Char, x.isAlpha = true → ¬ ['<', x] <+: s
  closingTag : ¬ ['<', '/'] <+: s
  comment : ¬ ['<', '!', '-', '-'] <+: s
  mustache : ['\x7b', '\x7b'] <+: s → ¬ ['\x7d', '\x7d'] <:+: s.drop 2

/-- Nothing begins inside `text` if `rest` follows it. -/
def LiteralBefore (text rest : List Char) : Prop :=
  ∀ left right, text = left ++ right → right ≠ [] → OpensNothing (right ++ rest)

theorem literalBefore_nil (rest : List Char) : LiteralBefore [] rest := by
  intro left right h hright
  exact absurd (List.append_eq_nil_iff.1 h.symm).2 hright

theorem LiteralBefore.cons {c : Char} {text rest : List Char}
    (hc : OpensNothing (c :: (text ++ rest))) (h : LiteralBefore text rest) :
    LiteralBefore (c :: text) rest := by
  intro left right heq hright
  cases left with
  | nil =>
      rw [List.nil_append] at heq
      rw [← heq]
      exact hc
  | cons x left => exact h left right (List.cons.inj heq).2 hright

theorem LiteralBefore.append {s t rest : List Char} (hs : LiteralBefore s (t ++ rest))
    (ht : LiteralBefore t rest) : LiteralBefore (s ++ t) rest := by
  induction s with
  | nil => exact ht
  | cons c s ih =>
      refine LiteralBefore.cons ?_ (ih ?_)
      · simpa using hs [] (c :: s) rfl (List.cons_ne_nil c s)
      · intro left right heq hright
        exact hs (c :: left) right (congrArg (c :: ·) heq) hright

/-- Where text may go on, nothing begins. -/
theorem opensNothing_of_not_endsText {s : List Char} (h : endsText s = false) : OpensNothing s where
  startTag := by
    rintro x hx ⟨t, rfl⟩
    simp [endsText, hx] at h
  closingTag := by
    rintro ⟨t, rfl⟩
    simp [endsText] at h
  comment := by
    rintro ⟨t, rfl⟩
    simp [endsText] at h
  mustache := by
    rintro ⟨t, rfl⟩
    simp [endsText] at h

/-- Where text begins, nothing else does. -/
theorem Cursor.opensNothing_of_startsText {c : Cursor} (h : c.startsText = true) :
    OpensNothing c.rest where
  startTag := by
    rintro x hx ⟨t, hrest⟩
    have hopens : c.opensElement = true := by
      rw [opensElement, ← hrest]
      exact hx
    rcases c.kind_of_lt (by rw [← hrest]; rfl) with hkind | hkind | hkind
    · simp [startsText, hkind] at h
    · simp [startsText, hkind] at h
    · simp [startsText, hkind, hopens] at h
  closingTag := by
    rintro ⟨t, hrest⟩
    have hkind : c.kind = .closingTagOpen := by
      rw [kind, ← hrest]
      rfl
    simp [startsText, hkind] at h
  comment := by
    rintro ⟨t, hrest⟩
    have hkind : c.kind = .commentOpen := by
      rw [kind, ← hrest]
      rfl
    simp [startsText, hkind] at h
  mustache := by
    rintro ⟨t, hrest⟩
    have hkind : c.kind = .mustacheOpen := by
      rw [kind, ← hrest]
      rfl
    simp [startsText, hkind] at h

theorem literalBefore_textRun {s after : List Char} (h : s = textRun s ++ after) :
    LiteralBefore (textRun s) after := by
  induction s with
  | nil => exact literalBefore_nil after
  | cons c s ih =>
      rw [textRun] at h ⊢
      split
      · exact literalBefore_nil after
      · rename_i hgoes
        rw [if_neg hgoes] at h
        have hs : s = textRun s ++ after := (List.cons.inj h).2
        refine LiteralBefore.cons ?_ (ih hs)
        rw [← hs]
        exact opensNothing_of_not_endsText (Bool.not_eq_true _ ▸ hgoes)

/-- A text that is read holds nothing else if nothing else begins with its first character. -/
theorem Cursor.Over.literalBefore {c d : Cursor} {x : Char} {s : List Char}
    (hover : c.Over (x :: textRun s) d) (hrest : c.rest = x :: s) (hfirst : OpensNothing c.rest) :
    LiteralBefore (x :: textRun s) d.rest := by
  have hs : s = textRun s ++ d.rest := by
    have hall := hover.1
    rw [hrest] at hall
    exact (List.cons.inj hall).2
  refine LiteralBefore.cons ?_ (literalBefore_textRun hs)
  rwa [← hs, ← hrest]

/-- Nothing begins with a sign of a start tag. -/
theorem opensNothing_of_isTagMark {x : Char} (h : isTagMark x = true) (s : List Char) :
    OpensNothing (x :: s) := by
  have hne : x ≠ '<' ∧ x ≠ '\x7b' := by
    constructor <;> rintro rfl <;> exact absurd h (by decide)
  refine ⟨?_, ?_, ?_, ?_⟩
  · exact fun _ _ hx => hne.1 (List.cons_prefix_cons.1 hx).1.symm
  · exact fun hx => hne.1 (List.cons_prefix_cons.1 hx).1.symm
  · exact fun hx => hne.1 (List.cons_prefix_cons.1 hx).1.symm
  · exact fun hx => absurd (List.cons_prefix_cons.1 hx).1.symm hne.2

/-- Opening braces hold nothing else if no closing ones follow. -/
theorem literalBefore_braces {rest : List Char} (h : ¬ ['\x7d', '\x7d'] <:+: rest) :
    LiteralBefore ['\x7b', '\x7b'] rest := by
  have hbrace : ∀ s, (['\x7b', '\x7b'] <+: '\x7b' :: s → ¬ ['\x7d', '\x7d'] <:+: s.drop 1) →
      OpensNothing ('\x7b' :: s) := by
    intro s hs
    refine ⟨?_, ?_, ?_, hs⟩
    · rintro x - hx
      cases (List.cons_prefix_cons.1 hx).1
    · intro hx
      cases (List.cons_prefix_cons.1 hx).1
    · intro hx
      cases (List.cons_prefix_cons.1 hx).1
  refine LiteralBefore.cons (hbrace _ fun _ => h) (LiteralBefore.cons (hbrace _ fun _ => ?_)
    (literalBefore_nil rest))
  exact fun hin => h (hin.trans (List.drop_suffix 1 rest).isInfix)

/-! ## What is said of a text -/

/-- Nowhere in the text does a tag or a comment begin. -/
structure NoMarkup (data : List Char) : Prop where
  startTag : ∀ x : Char, x.isAlpha = true → ¬ ['<', x] <:+: data
  closingTag : ¬ ['<', '/'] <:+: data
  comment : ¬ ['<', '!', '-', '-'] <:+: data

/-- The text `data` with the span `span` holds no markup, and wherever its span covers opening
braces, no closing ones follow in the source. -/
structure CleanText (source : List Char) (span : Span) (data : List Char) : Prop where
  noMarkup : NoMarkup data
  mustache : ∀ p, span.start ≤ p → p + 2 ≤ span.stop → StandsAt ['\x7b', '\x7b'] source p →
    ∀ q, p + 2 ≤ q → ¬ StandsAt ['\x7d', '\x7d'] source q

theorem LiteralBefore.noMarkup {text rest : List Char} (h : LiteralBefore text rest) :
    NoMarkup text := by
  have hplace : ∀ {pattern : List Char}, pattern ≠ [] → pattern <:+: text →
      ∃ t, OpensNothing (pattern ++ t) := by
    rintro pattern hne ⟨left, right, heq⟩
    refine ⟨right ++ rest, ?_⟩
    rw [← List.append_assoc]
    exact h left (pattern ++ right) (by rw [← heq, List.append_assoc]) (by simp [hne])
  refine ⟨?_, ?_, ?_⟩
  · intro x hx hin
    obtain ⟨t, hopens⟩ := hplace (List.cons_ne_nil _ _) hin
    exact hopens.startTag x hx (List.prefix_append _ t)
  · intro hin
    obtain ⟨t, hopens⟩ := hplace (List.cons_ne_nil _ _) hin
    exact hopens.closingTag (List.prefix_append _ t)
  · intro hin
    obtain ⟨t, hopens⟩ := hplace (List.cons_ne_nil _ _) hin
    exact hopens.comment (List.prefix_append _ t)

theorem NoMarkup.of_part {part data : List Char} (h : NoMarkup data) (hpart : part <:+: data) :
    NoMarkup part :=
  ⟨fun x hx hin => h.startTag x hx (hin.trans hpart), fun hin => h.closingTag (hin.trans hpart),
    fun hin => h.comment (hin.trans hpart)⟩

theorem dropBreak_suffix (s : List Char) : dropBreak s <:+ s := by
  unfold dropBreak
  split
  · exact ⟨['\r', '\n'], rfl⟩
  · exact ⟨['\n'], rfl⟩
  · exact List.suffix_refl s

theorem CleanText.dropBreak {source : List Char} {span : Span} {data : List Char}
    (h : CleanText source span data) : CleanText source span (dropBreak data) :=
  ⟨h.noMarkup.of_part (dropBreak_suffix data).isInfix, h.mustache⟩

/-! ## Where a text was read -/

section

variable {source : List Char}

/-- What stands in the source at or after a place stands in the text from there on. -/
theorem Cursor.LiesIn.infix_of_standsAt {p : List Char} {c : Cursor} {q : Nat}
    (hc : c.LiesIn source) (hq : c.offset ≤ q) (h : StandsAt p source q) : p <:+: c.rest := by
  obtain ⟨before, after, heq, hoffset⟩ := h
  have hd : (⟨q, p ++ after⟩ : Cursor).LiesIn source :=
    Cursor.liesIn_iff.2 ⟨before, heq, hoffset.symm⟩
  obtain ⟨text, hrest, -⟩ := hc.reaches_of_le hd hq
  exact ⟨text, after, by rw [hrest, List.append_assoc]⟩

/-- What was read as text says nothing else. -/
theorem Cursor.LiesIn.cleanText {text : List Char} {c d : Cursor} (hc : c.LiesIn source)
    (hover : c.Over text d) (htext : LiteralBefore text d.rest) :
    CleanText source (c.spanTo d) text := by
  have hd : d.LiesIn source := hc.reaches hover.reaches
  have hstart : (c.spanTo d).start = min c.offset maxOffset := rfl
  have hstop : (c.spanTo d).stop = min d.offset maxOffset := rfl
  refine ⟨htext.noMarkup, ?_⟩
  intro p hp hp' hbraces q hq hclosed
  obtain ⟨before, after, heq, hoffset⟩ := hbraces
  have hm : (⟨p, ['\x7b', '\x7b'] ++ after⟩ : Cursor).LiesIn source :=
    Cursor.liesIn_iff.2 ⟨before, heq, hoffset.symm⟩
  -- the braces stand inside the text, so the text from there on begins with them
  obtain ⟨left, hleft⟩ := hc.reaches_of_le hm (show c.offset ≤ p by omega)
  obtain ⟨right, hright⟩ := hm.reaches_of_le hd (show p ≤ d.offset by omega)
  have hsplit : text = left ++ right := by
    have hboth := hover.1.symm.trans (hleft.trans hright).1
    exact List.append_cancel_right hboth
  have hne : right ≠ [] := by
    rintro rfl
    have hsame : d.offset = p := hright.2
    omega
  have hopens := htext left right hsplit hne
  rw [← hright.1] at hopens
  have hinner : (⟨p + 2, after⟩ : Cursor).LiesIn source :=
    hm.reaches (Cursor.Over.reaches ⟨rfl, rfl⟩)
  exact hopens.mustache (List.prefix_append _ after) (hinner.infix_of_standsAt hq hclosed)

/-- The text was read from one place of the source to another one, which is not beyond `limit` and
before the greatest offset of spans. -/
def LiteralUpTo (source : List Char) (limit : Nat) (span : Span) (data : List Char) : Prop :=
  ∃ c d : Cursor, c.LiesIn source ∧ c.Over data d ∧ LiteralBefore data d.rest ∧
    d.offset ≤ limit ∧ d.offset < maxOffset ∧ span = c.spanTo d

variable {data : List Char} {limit : Nat} {span : Span}

theorem LiteralUpTo.mono {limit' : Nat} (h : LiteralUpTo source limit span data)
    (hle : limit ≤ limit') : LiteralUpTo source limit' span data := by
  obtain ⟨c, d, hc, hover, htext, hlimit, hrest⟩ := h
  exact ⟨c, d, hc, hover, htext, Nat.le_trans hlimit hle, hrest⟩

/-- A text ends where it was read. -/
theorem LiteralUpTo.stop_le (h : LiteralUpTo source limit span data) :
    span.stop ≤ min limit maxOffset := by
  obtain ⟨c, d, -, -, -, hlimit, hlt, rfl⟩ := h
  show min d.offset maxOffset ≤ min limit maxOffset
  omega

theorem LiteralUpTo.start_le_stop (h : LiteralUpTo source limit span data) :
    span.start ≤ span.stop := by
  obtain ⟨c, d, -, hover, -, -, -, rfl⟩ := h
  have hle := hover.reaches.offset_le
  show min c.offset maxOffset ≤ min d.offset maxOffset
  omega

theorem Cursor.cover_spanTo {c d c' d' : Cursor} (hstart : c.offset ≤ c'.offset)
    (hstop : d.offset ≤ d'.offset) : (c.spanTo d).cover (c'.spanTo d') = c.spanTo d' := by
  simp only [Cursor.spanTo, Span.ofOffsets, Span.cover, Span.mk.injEq]
  omega

end

/-! ## Siblings -/

/-- If two texts follow each other, something lies between them. -/
def Apart (earlier later : Node) : Prop :=
  earlier.sort = .text → later.sort = .text → earlier.span.stop < later.span.start

/-- The texts directly inside an element hold no markup, unless its content is raw text, and they
lie apart. -/
def Node.CleanInside (source : List Char) : Node → Prop
  | .element tag children =>
    (isRawTextElement tag.name = false →
      ∀ span data blank, .text span data blank ∈ children → CleanText source span data) ∧
      children.IsChain Apart
  | _ => True

/-- The same for elements at any depth. -/
def AllCleanInside (source : List Char) (nodes : List Node) : Prop :=
  ∀ n ∈ Node.all nodes, n.CleanInside source

theorem allCleanInside_nil {source : List Char} : AllCleanInside source [] := by
  intro n hn
  cases hn

/-- A node that is a text holds no markup. If the source goes on at `c`, the text was read before
that. -/
def Node.TextBefore (source : List Char) (c : Cursor) : Node → Prop
  | .text span data _ =>
    CleanText source span data ∧ (c.rest ≠ [] → LiteralUpTo source c.offset span data)
  | _ => True

theorem Node.TextBefore.mono {source : List Char} {c d : Cursor} {node : Node}
    (h : node.TextBefore source c) (hreach : c.Reaches d) : node.TextBefore source d := by
  cases node with
  | text =>
      refine ⟨h.1, fun hne => (h.2 fun hnil => hne ?_).mono hreach.offset_le⟩
      have := hreach.rest_le
      rw [hnil] at this
      exact List.length_eq_zero_iff.1 (Nat.le_zero.1 this)
  | interpolation => trivial
  | comment => trivial
  | element => trivial

theorem Node.TextBefore.stop_le {source : List Char} {c : Cursor} {node : Node}
    (h : node.TextBefore source c) (hne : c.rest ≠ []) (hsort : node.sort = .text) :
    node.span.stop ≤ min c.offset maxOffset := by
  cases node with
  | text => exact (h.2 hne).stop_le
  | interpolation => cases hsort
  | comment => cases hsort
  | element => cases hsort

/-- Raw content is at most one text. -/
theorem isChain_rawNodes (c : Cursor) (content : List Char) (last : Cursor) :
    (c.rawNodes content last).IsChain Apart := by
  unfold Cursor.rawNodes
  split
  · exact List.isChain_nil
  · exact List.isChain_singleton _

theorem isChain_dropLeadingBreak {nodes : List Node} (h : nodes.IsChain Apart) :
    (dropLeadingBreak nodes).IsChain Apart := by
  unfold dropLeadingBreak
  split
  · split
    · exact h.tail
    · obtain ⟨hfirst, hrest⟩ := List.isChain_cons.1 h
      exact List.isChain_cons.2 ⟨fun later hlater => hfirst later hlater, hrest⟩
  · exact h

theorem cleanText_dropLeadingBreak {source : List Char} {nodes : List Node}
    (h : ∀ span data blank, .text span data blank ∈ nodes → CleanText source span data) :
    ∀ span data blank, .text span data blank ∈ dropLeadingBreak nodes →
      CleanText source span data := by
  intro span data blank hmem
  unfold dropLeadingBreak at hmem
  split at hmem
  · split at hmem
    · exact h span data blank (List.mem_cons_of_mem _ hmem)
    · rcases List.mem_cons.1 hmem with heq | hmem
      · obtain ⟨rfl, rfl, rfl⟩ := Node.text.inj heq
        exact (h _ _ _ List.mem_cons_self).dropBreak
      · exact h span data blank (List.mem_cons_of_mem _ hmem)
  · exact h span data blank hmem

/-- Where white space is kept, the texts in a closed element hold no markup and lie apart. -/
theorem cleanInside_close {source : List Char} {c : Cursor} {stop : Nat} {nodes : List Node}
    (e : OpenElement) (outer : List OpenElement) (htexts : ∀ n ∈ nodes, n.TextBefore source c)
    (hapart : nodes.IsChain fun later earlier => Apart earlier later) :
    (e.close stop (e.finishChildren .preserve outer nodes.reverse)).CleanInside source := by
  have hclean : ∀ span data blank, .text span data blank ∈ nodes.reverse →
      CleanText source span data := fun span data blank hmem =>
    (htexts _ (List.mem_reverse.1 hmem)).1
  have hchain : nodes.reverse.IsChain Apart := List.isChain_reverse.2 hapart
  unfold OpenElement.finishChildren
  split
  · exact ⟨fun _ => cleanText_dropLeadingBreak hclean, isChain_dropLeadingBreak hchain⟩
  · simp only [finishSiblings, reduceCtorEq, false_and, if_false]
    exact ⟨fun _ => hclean, hchain⟩

/-! ## While a template is read -/

namespace TokenReader

/-- Every text that has been read holds no markup, and consecutive ones lie apart. -/
structure Literal (source : List Char) (t : TokenReader) (c : Cursor) : Prop where
  placed : t.walk.Placed source c
  inside : AllCleanInside source t.siblings
  texts : ∀ n ∈ t.siblings, n.TextBefore source c
  apart : t.nodes.IsChain fun later earlier => Apart earlier later
  before : ∀ e ∈ t.stack, e.before.IsChain fun later earlier => Apart earlier later

variable {source : List Char} {t next : TokenReader} {c d : Cursor} {w : Walk}

/-- To move on and to report errors changes nothing of what has been read. -/
theorem Literal.move (errors : List ParseError) (h : t.Literal source c)
    (hw : w.Placed source d) (hreach : c.Reaches d) :
    Literal source { t.report errors with walk := w } d :=
  ⟨hw, h.inside, fun n hn => (h.texts n hn).mono hreach, h.apart, h.before⟩

/-- One more node that is no text. -/
theorem Literal.add {node : Node} (h : t.Literal source c) (hsort : node.sort ≠ .text)
    (hinside : ∀ n ∈ node.family, n.CleanInside source) :
    Literal source { t with nodes := node :: t.nodes } c where
  placed := h.placed
  inside := Node.forall_all_cons.2 ⟨hinside, h.inside⟩
  texts := by
    refine List.forall_mem_cons.2 ⟨?_, h.texts⟩
    cases node with
    | text => exact absurd rfl hsort
    | interpolation => trivial
    | comment => trivial
    | element => trivial
  apart := List.isChain_cons.2 ⟨fun _ _ _ htext => absurd htext hsort, h.apart⟩
  before := h.before

/-- The text `data` was read at the place of `c`, and the reader goes on at `d`. It was read from
that place on; or the place lies at the greatest offset or further on, and then nothing is left. -/
def ReadAt (source : List Char) (c d : Cursor) (span : Span) (data : List Char) : Prop :=
  (∃ last, c.Over data last ∧ LiteralBefore data last.rest ∧ span = c.spanTo last ∧
      (d.rest ≠ [] → last.offset = d.offset ∧ last.offset < maxOffset)) ∨
    maxOffset ≤ c.offset ∧ span.start = maxOffset ∧ CleanText source span data ∧ d.rest = []

section

variable {span : Span} {data : List Char}

theorem ReadAt.start_eq (h : ReadAt source c d span data) :
    span.start = min c.offset maxOffset := by
  rcases h with ⟨last, -, -, rfl, -⟩ | ⟨hfar, hstart, -⟩
  · rfl
  · omega

theorem ReadAt.textBefore (hc : c.LiesIn source) (h : ReadAt source c d span data)
    (blank : Bool) : (Node.text span data blank).TextBefore source d := by
  rcases h with ⟨last, hover, htext, rfl, hlast⟩ | ⟨-, -, hclean, hend⟩
  · refine ⟨hc.cleanText hover htext, fun hne => ?_⟩
    obtain ⟨heq, hlt⟩ := hlast hne
    exact ⟨c, last, hc, hover, htext, Nat.le_of_eq heq, hlt, rfl⟩
  · exact ⟨hclean, fun hne => absurd hend hne⟩

/-- A text that touches the one before it goes on where that one ended. -/
theorem ReadAt.join {before : Span} {old : List Char} (hc : c.LiesIn source)
    (h : ReadAt source c d span data) (hold : LiteralUpTo source c.offset before old)
    (htouch : before.stop = span.start) (blank : Bool) :
    (Node.text (before.cover span) (old ++ data) blank).TextBefore source d := by
  have hstart := h.start_eq
  obtain ⟨c', d', hc', hread, hliteral, hle, hlt, rfl⟩ := hold
  have htouch' : min d'.offset maxOffset = span.start := htouch
  -- before the greatest offset, spans touch only at one and the same place
  have hsame : d' = c := (hc'.reaches hread.reaches).eq_of_offset hc (by omega)
  subst hsame
  rcases h with ⟨last, hover, htext, rfl, hlast⟩ | ⟨hfar, -⟩
  · have hboth := hread.trans hover
    rw [hover.1] at hliteral
    rw [Cursor.cover_spanTo hread.reaches.offset_le hover.reaches.offset_le]
    exact ReadAt.textBefore hc' (.inl ⟨last, hboth, hliteral.append htext, rfl, hlast⟩) blank
  · omega

/-- One more text, which does not touch the text before it. -/
theorem Literal.addText {blank : Bool} (h : t.Literal source c) (hne : c.rest ≠ [])
    (hw : next.walk.Placed source d) (hreach : c.Reaches d) (hread : ReadAt source c d span data)
    (hapart : ∀ node ∈ t.nodes.head?, node.sort = .text → node.span.stop ≠ span.start)
    (hstack : next.stack = t.stack) (hnodes : next.nodes = .text span data blank :: t.nodes) :
    next.Literal source d := by
  have hsiblings : next.siblings = .text span data blank :: t.siblings := by
    rw [siblings, hnodes, hstack]
    rfl
  refine ⟨hw, ?_, ?_, ?_, hstack ▸ h.before⟩
  · rw [hsiblings]
    exact Node.forall_all_cons.2 ⟨Node.forall_family_text trivial, h.inside⟩
  · rw [hsiblings]
    exact List.forall_mem_cons.2
      ⟨hread.textBefore h.placed.lies blank, fun n hn => (h.texts n hn).mono hreach⟩
  · rw [hnodes]
    refine List.isChain_cons.2 ⟨fun earlier hearlier hsort _ => ?_, h.apart⟩
    have htext := h.texts earlier (List.mem_append_left _ (List.mem_of_mem_head? hearlier))
    exact Nat.lt_of_le_of_ne (hread.start_eq ▸ htext.stop_le hne hsort)
      (hapart earlier hearlier hsort)

/-- The last text is made longer by one that touches it. -/
theorem Literal.joinText {before : Span} {old : List Char} {blank blank' : Bool}
    {older : List Node} (h : t.Literal source c) (hne : c.rest ≠ [])
    (hw : next.walk.Placed source d) (hreach : c.Reaches d) (hread : ReadAt source c d span data)
    (hold : t.nodes = .text before old blank :: older) (htouch : before.stop = span.start)
    (hstack : next.stack = t.stack)
    (hnodes : next.nodes = .text (before.cover span) (old ++ data) blank' :: older) :
    next.Literal source d := by
  have hbefore : t.siblings
      = .text before old blank :: (older ++ t.stack.flatMap OpenElement.before) := by
    rw [siblings, hold, List.cons_append]
  have hsiblings : next.siblings = .text (before.cover span) (old ++ data) blank'
      :: (older ++ t.stack.flatMap OpenElement.before) := by
    rw [siblings, hnodes, hstack, List.cons_append]
  obtain ⟨hlast, hothers⟩ := List.forall_mem_cons.1 (hbefore ▸ h.texts)
  obtain ⟨hfirst, hrest⟩ := List.isChain_cons.1 (hold ▸ h.apart)
  have hinside := h.inside
  rw [hbefore] at hinside
  refine ⟨hw, ?_, ?_, ?_, hstack ▸ h.before⟩
  · rw [hsiblings]
    exact Node.forall_all_cons.2
      ⟨Node.forall_family_text trivial, (Node.forall_all_cons.1 hinside).2⟩
  · rw [hsiblings]
    exact List.forall_mem_cons.2 ⟨hread.join h.placed.lies (hlast.2 hne) htouch blank',
      fun n hn => (hothers n hn).mono hreach⟩
  · rw [hnodes]
    refine List.isChain_cons.2 ⟨fun earlier hearlier hsort _ => ?_, hrest⟩
    -- the joined text begins where the last one did
    have hlt : earlier.span.stop < before.start := hfirst earlier hearlier hsort rfl
    have hstop : earlier.span.stop < span.start :=
      htouch ▸ Nat.lt_of_lt_of_le hlt (hlast.2 hne).start_le_stop
    exact Nat.lt_min.2 ⟨hlt, hstop⟩

theorem Literal.pushText (errors : List ParseError) (h : t.Literal source c) (hne : c.rest ≠ [])
    (hw : w.Placed source d) (hreach : c.Reaches d) (hread : ReadAt source c d span data) :
    Literal source ((t.report errors).pushText span data w) d := by
  have hplaced : ((t.report errors).pushText span data w).walk.Placed source d := by
    rwa [pushText_walk]
  have hstack := (t.report errors).pushText_stack span data w
  rcases (t.report errors).pushText_nodes span data w with
    ⟨hnew, hapart⟩ | ⟨before, old, blank, older, hold, htouch, hnew⟩
  · exact h.addText hne hplaced hreach hread hapart hstack hnew
  · exact h.joinText hne hplaced hreach hread hold htouch hstack hnew

end

/-- A text is read at its place, or it begins with a sign of a start tag. -/
theorem Literal.text {m last : Cursor} {x : Char} {s : List Char} {after : Walk}
    (h : t.Literal source c) (hne : c.rest ≠ [])
    (hstarts : c.offset ≤ maxOffset → c.startsText = true) (hm : m.LiesIn source)
    (hoffset : m.offset = t.walk.offset source) (hrest : m.rest = x :: s)
    (hover : m.Over (x :: textRun s) last) (hd : Walk.Lands source c last.offset after d) :
    Literal source (t.pushText (m.spanTo last) (x :: textRun s) after) d := by
  refine h.pushText [] hne hd.placed hd.reaches ?_
  rw [h.placed.toAt.offset_eq_min] at hoffset
  rcases Nat.lt_or_ge maxOffset c.offset with hfar | hnear
  · -- the text is read from the greatest offset on, where a sign of a start tag stands
    have hmax : m.offset = maxOffset := by omega
    have hgrows := hover.offset_lt (List.cons_ne_nil _ _)
    have hmark := h.placed.mark hfar hne x s (by rw [← hmax, hm.dropBytes?, hrest])
    have htext := hover.literalBefore hrest (hrest ▸ opensNothing_of_isTagMark hmark s)
    refine .inr ⟨Nat.le_of_lt hfar, ?_, hm.cleanText hover htext, hd.rest_nil (by omega)⟩
    show min m.offset maxOffset = maxOffset
    omega
  · have hsame : m = c := hm.eq_of_offset h.placed.lies (by omega)
    subst hsame
    have htext := hover.literalBefore hrest (Cursor.opensNothing_of_startsText (hstarts hnear))
    refine .inl ⟨last, hover, htext, rfl, fun hgoes => ?_⟩
    obtain ⟨heq, hlt⟩ := hd.offset_of_rest_ne_nil hgoes
    exact ⟨heq.symm, hlt⟩

/-- Opening braces are text if no closing ones follow. -/
theorem Literal.braces {inner : List Char} {after : Walk} (errors : List ParseError)
    (h : t.Literal source c) (hkind : c.kind = .mustacheOpen)
    (hinner : dropBytes? (t.walk.offset source + 2) source = some inner)
    (hcut : cutAt? ['\x7d', '\x7d'] inner = none)
    (hd : Walk.Lands source c (t.walk.offset source + 2) after d) :
    Literal source ((t.report errors).pushText
      (.ofOffsets (t.walk.offset source) (t.walk.offset source + 2)) ['\x7b', '\x7b'] after) d := by
  obtain ⟨rest, hrest⟩ := Cursor.rest_of_kind hkind rfl
  have hne : c.rest ≠ [] := by
    rw [hrest]
    exact List.cons_ne_nil _ _
  have hopen : c.Over ['\x7b', '\x7b'] (c.drop 2) := Cursor.over_drop_length hrest
  have hoffset := h.placed.toAt.offset_eq_min
  refine h.pushText errors hne hd.placed hd.reaches ?_
  rcases Nat.lt_or_ge maxOffset c.offset with hfar | hnear
  · -- the span is empty, and the braces are all of the text
    have hmax : t.walk.offset source = maxOffset := by omega
    rw [hmax] at hd ⊢
    have htext : LiteralBefore ['\x7b', '\x7b'] [] := literalBefore_braces (by simp)
    refine .inr ⟨Nat.le_of_lt hfar, Nat.min_self _, ⟨htext.noMarkup, fun p hp hp' => ?_⟩,
      hd.rest_nil (Nat.le_add_right _ 2)⟩
    have hstart : maxOffset ≤ p := Nat.min_self maxOffset ▸ hp
    have hstop : p + 2 ≤ maxOffset := Nat.le_trans hp' (Nat.min_le_right _ _)
    omega
  · rw [hoffset, Nat.min_eq_left hnear] at hinner hd ⊢
    have hlast : (c.drop 2).LiesIn source := h.placed.lies.reaches hopen.reaches
    have hafter : (c.drop 2).rest = inner :=
      Option.some.inj (hlast.dropBytes?.symm.trans (hopen.2 ▸ hinner))
    have htext := literalBefore_braces (hafter ▸ not_infix_of_cutAt?_eq_none hcut)
    refine .inl ⟨c.drop 2, hopen, htext, by rw [Cursor.spanTo, hopen.2]; rfl, fun hgoes => ?_⟩
    obtain ⟨heq, hlt⟩ := hd.offset_of_rest_ne_nil hgoes
    rw [heq, hopen.2]
    exact ⟨rfl, hlt⟩

/-- What has been read before an open element stays as it is. -/
theorem Literal.readElement? {checked : Bool} (h : t.Literal source c) (hkind : c.kind = .tagOpen)
    (hnext : t.readElement? source checked = some next) : ∃ d, next.Literal source d := by
  obtain ⟨tag, htag, hcase⟩ := readElement?_eq_some hnext
  obtain ⟨d, hd, hreach, -⟩ := readStartTag?_placed h.placed.toAt hkind htag
  have hmoved := h.move tag.errors hd hreach
  -- an element without content, one of raw text, or one that is opened and read further
  rcases hcase with ⟨-, rfl⟩ | ⟨-, hraw, raw, hread, rfl⟩ | ⟨-, rfl⟩
  · refine ⟨d, hmoved.add (by simp [Node.sort])
      (Node.forall_family_element ?_ allCleanInside_nil)⟩
    exact ⟨fun _ _ _ _ hmem => absurd hmem List.not_mem_nil, List.isChain_nil⟩
  · obtain ⟨m, content, last, e, -, -, -, hvalue, he, hreach', hsettled, -⟩ :=
      readRawText?_lands hd.toAt hread
    refine ⟨e, (hmoved.move raw.errors (he.placed hsettled) hreach').add (by simp [Node.sort])
      (Node.forall_family_element ?_ ?_)⟩
    · rw [hvalue]
      exact ⟨fun hnot => absurd hraw (by simpa using hnot), isChain_rawNodes _ _ _⟩
    · rw [hvalue, Cursor.rawNodes]
      split
      · exact allCleanInside_nil
      · exact Node.forall_all_cons.2 ⟨Node.forall_family_text trivial, allCleanInside_nil⟩
  · exact ⟨d, hmoved.placed, hmoved.inside, hmoved.texts, List.isChain_nil,
      List.forall_mem_cons.2 ⟨h.apart, h.before⟩⟩

/-- To close the innermost open element makes a node of what was read. -/
theorem Literal.close {e : OpenElement} {outer : List OpenElement} {stop : Nat}
    (errors : List ParseError) (h : t.Literal source c) (hstack : t.stack = e :: outer)
    (hw : w.Placed source d) (hreach : c.Reaches d) :
    Literal source
      { t.report errors with
        walk := w
        nodes := e.close stop (e.finishChildren .preserve outer t.nodes.reverse) :: e.before
        stack := outer } d := by
  have hmoved := h.move errors hw hreach
  have hsiblings : t.siblings = t.nodes ++ (e.before ++ outer.flatMap OpenElement.before) := by
    rw [siblings, hstack, List.flatMap_cons]
  have hinside : AllCleanInside source t.nodes.reverse := fun n hn =>
    h.inside n (Node.all_subset
      (hsiblings ▸ List.reverse_subset.2 (List.subset_append_left _ _)) hn)
  have houtside : AllCleanInside source (e.before ++ outer.flatMap OpenElement.before) :=
    fun n hn => h.inside n (Node.all_subset (hsiblings ▸ List.subset_append_right _ _) hn)
  have hread : ∀ n ∈ t.nodes, n.TextBefore source c := fun n hn =>
    h.texts n (List.mem_append_left _ hn)
  obtain ⟨hchain, hbefore⟩ := List.forall_mem_cons.1 (hstack ▸ h.before)
  refine ⟨hw, Node.forall_all_cons.2 ⟨?_, houtside⟩, ?_, ?_, hbefore⟩
  · exact Node.forall_family_element (cleanInside_close e outer hread h.apart)
      (forall_all_finishChildren (fun _ _ _ => trivial) .preserve e outer hinside)
  · exact List.forall_mem_cons.2 ⟨trivial, fun n hn =>
      hmoved.texts n (hsiblings ▸ List.mem_append_right _ hn)⟩
  · refine List.isChain_cons.2 ⟨fun _ _ _ htext => ?_, hchain⟩
    cases htext

theorem Literal.step? {checked : Bool} (h : t.Literal source c)
    (hnext : t.step? source checked .preserve = some next) : ∃ d, next.Literal source d := by
  cases stepsTo_of_step? h.placed.toAt hnext with
  | done => exact ⟨c, h⟩
  | text hne hstarts hm hoffset hrest hover hd =>
      exact ⟨_, h.text hne hstarts hm hoffset hrest hover hd⟩
  | comment _ hd =>
      exact ⟨_, (h.move _ hd.placed hd.reaches).add (by simp [Node.sort])
        (Node.forall_family_leaf (by simp [Node.sort]) trivial)⟩
  | interpolation _ hd =>
      exact ⟨_, (h.move [] hd.placed hd.reaches).add (by simp [Node.sort])
        (Node.forall_family_leaf (by simp [Node.sort]) trivial)⟩
  | braces hkind hinner hcut hd => exact ⟨_, h.braces _ hkind hinner hcut hd⟩
  | element hkind _ hread => exact h.readElement? hkind hread
  | skip _ hd => exact ⟨_, h.move _ hd.placed hd.reaches⟩
  | close _ hstack hd =>
      exact ⟨_, h.close _ hstack hd.placed hd.reaches⟩
  | abandon hstack =>
      -- an element that is given up is closed where the reader is
      exact ⟨c, h.close _ hstack h.placed (Cursor.Reaches.refl c)⟩

theorem Reached.literal (h : Reached source .preserve t) : ∃ c, t.Literal source c := by
  induction h with
  | start =>
      exact ⟨_, placed_ofSource source, allCleanInside_nil, by simp [siblings], List.isChain_nil,
        by simp⟩
  | step _ hnext ih =>
      obtain ⟨c, hc⟩ := ih
      exact hc.step? hnext

end TokenReader

/-! ## Templates -/

/-- The nodes are the children of an element with the tag `parent`, or the nodes outside all
elements. -/
def Template.HasSiblings (t : Template) (parent : Option Tag) (nodes : List Node) : Prop :=
  match parent with
  | none => nodes = t.nodes
  | some tag => .element tag nodes ∈ Node.all t.nodes

/-- **Text holds no markup.** Let white space be kept, and let the source have any size; if it is
shorter than 2^32 bytes, so that its offsets fit into spans, reading it has a result, the template
that is read.

Unless it is the content of a raw text element, a text holds no beginning of a tag or a comment, and
opening braces that its span covers are not closed in the rest of the source. Of two texts that
follow each other, the second one does not begin where the first one ends. -/
theorem TokenReader.readAnySize?_texts_literal (source : List Char) :
    (byteLength source ≤ maxOffset →
      readAnySize? source .preserve = some (Template.read .preserve source)) ∧
    ∀ template, readAnySize? source .preserve = some template →
      (∀ parent siblings, template.HasSiblings parent siblings →
        (∀ tag ∈ parent, isRawTextElement tag.name = false) →
        ∀ span data blank, .text span data blank ∈ siblings → CleanText source span data) ∧
      ∀ parent siblings, template.HasSiblings parent siblings → siblings.IsChain Apart := by
  refine ⟨fun hs => readAnySize?_eq hs .preserve, fun result hresult => ?_⟩
  obtain ⟨t, hread, rfl⟩ := Option.map_eq_some_iff.1 hresult
  obtain ⟨c, hliteral⟩ := (Reached.start.of_run? hread).literal
  have hnodes : (template source .preserve t).nodes = t.nodes.reverse := by
    simp [template, finishSiblings]
  have hinside : AllCleanInside source (template source .preserve t).nodes := by
    intro n hn
    rw [hnodes] at hn
    exact hliteral.inside n
      (Node.all_subset (List.reverse_subset.2 (List.subset_append_left _ _)) hn)
  refine ⟨?_, ?_⟩
  · intro parent siblings hsiblings hraw span data blank htext
    cases parent with
    | none =>
        obtain rfl : siblings = _ := hsiblings
        rw [hnodes, List.mem_reverse] at htext
        exact (hliteral.texts _ (List.mem_append_left _ htext)).1
    | some tag => exact (hinside _ hsiblings).1 (hraw tag rfl) span data blank htext
  · intro parent siblings hsiblings
    cases parent with
    | none =>
        obtain rfl : siblings = _ := hsiblings
        rw [hnodes]
        exact List.isChain_reverse.2 hliteral.apart
    | some tag => exact (hinside _ hsiblings).2

end AstroTemplate
