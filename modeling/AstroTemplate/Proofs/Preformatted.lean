import AstroTemplate.Proofs.RoundTrip

set_option autoImplicit false

/-! # Preformatted text read back

The content of a preformatted element is kept as it is, but for one line break directly after the
start tag. Such a break is taken off when markup is read and is not put back when markup is
generated. So the text of a preformatted element comes back from what is generated for it unless it
begins with a line break, and then it comes back without that one
(`Template.read_generate_preformatted`).
-/

namespace AstroTemplate

/-! ## Preformatted elements -/

/-- In lower case, the name of a preformatted element is known. -/
theorem lower_of_isPreformatted {name : List Char} (h : isPreformatted name = true) :
    lower name = ['p', 'r', 'e'] :=
  sameName_iff.1 h

theorem isAlpha_of_toLower {c : Char} (h : c.toLower.isAlpha = true) : c.isAlpha = true := by
  unfold Char.toLower at h
  split at h
  · rename_i hupper
    show (decide ('A'.val ≤ c.val ∧ c.val ≤ 'Z'.val) || _) = true
    rw [decide_eq_true hupper, Bool.true_or]
  · exact h

theorem isPlainName_of_isPreformatted {name : List Char} (h : isPreformatted name = true) :
    IsPlainName name := by
  have hlower := lower_of_isPreformatted h
  have halpha : ∀ c ∈ name, c.isAlpha = true := by
    intro c hc
    have hletters : ∀ d ∈ lower name, d.isAlpha = true := by
      rw [hlower]
      simp
    exact isAlpha_of_toLower (hletters _ (List.mem_map_of_mem hc))
  cases name with
  | nil => cases hlower
  | cons c name =>
      refine ⟨halpha c List.mem_cons_self, fun d hd => .inl ?_⟩
      rw [Char.isAlphanum, halpha d (List.mem_cons_of_mem c hd), Bool.true_or]

/-- A preformatted element is none of a list of others. -/
theorem any_sameName_of_isPreformatted {name : List Char} (h : isPreformatted name = true)
    {others : List (List Char)} (hothers : ['p', 'r', 'e'] ∉ others.map lower) :
    others.any (sameName · name) = false := by
  rw [List.any_eq_false]
  intro other hother hsame
  rw [sameName_iff, lower_of_isPreformatted h] at hsame
  exact hothers (hsame ▸ List.mem_map_of_mem hother)

theorem arePlainProps_of_eq_nil {props : List TagProp} (h : props = []) : ArePlainProps props := by
  rw [h]
  exact List.forall_mem_nil _

namespace Reader

/-- A reader in front of a written preformatted element with a text in it has read the element after
three steps. -/
theorem run_preformatted (mode : WhitespaceMode) {tag : Tag} {t : List Char}
    (hpre : isPreformatted tag.name = true) (hprops : tag.props = []) (hne : t ≠ []) (hlt : '<' ∉ t)
    (hbraces : ¬ ['\x7b', '\x7b'] <:+: t) {r : Reader} {tail : List Char}
    (hrest : r.cursor.rest
      = '<' :: (tag.name ++ '>' :: (t ++ (['<', '/'] ++ (tag.name ++ '>' :: tail))))) :
    ∃ (d : Cursor) (read : Tag) (span : Span), d.rest = tail ∧ read.name = tag.name ∧
      read.props = [] ∧
      r.run mode
        = (r.push (.element read (dropLeadingBreak [.text span t (isTagBlank t)])) d).run mode := by
  have hname := isPlainName_of_isPreformatted hpre
  have hplain := arePlainProps_of_eq_nil hprops
  have hvoid : isVoidElement tag.name = false := any_sameName_of_isPreformatted hpre (by decide)
  have hraw : isRawTextElement tag.name = false := any_sameName_of_isPreformatted hpre (by decide)
  obtain ⟨atText, e, hatText, hsame, hbefore, hread, hopen⟩ := step_open mode hname hplain hvoid
    hraw (hrest.trans (by rw [hprops]; rfl))
  have hnone : e.props = [] := by
    rw [hprops] at hread
    exact List.map_eq_nil_iff.1 hread
  obtain ⟨atEnd, hatEnd, htext⟩ := step_text mode
    (r := { r with cursor := atText, nodes := [], stack := e :: r.stack }) hne hlt hbraces hatText
    (.inr ⟨rfl, rfl⟩) rfl
  rw [← hsame] at hatEnd
  obtain ⟨last, hlast, hclose⟩ := step_close mode (hsame ▸ hname) rfl hatEnd
    (r := { r with
      cursor := atEnd
      nodes := [.text (atText.spanTo atEnd) t (isTagBlank t)]
      stack := e :: r.stack })
  have hchildren : e.finishChildren mode r.stack [.text (atText.spanTo atEnd) t (isTagBlank t)]
      = dropLeadingBreak [.text (atText.spanTo atEnd) t (isTagBlank t)] :=
    if_pos (hsame ▸ hpre)
  refine ⟨last, ⟨.ofOffsets e.start last.offset, e.name, e.props, false⟩, atText.spanTo atEnd,
    hlast, hsame, hnone, ?_⟩
  rw [← run_step, hopen, ← run_step, htext, ← run_step, push, hclose]
  simp [push, OpenElement.close, hbefore, hchildren]

end Reader

/-! ## Generated and read again -/

theorem generate_preformatted {tag : Tag} (hprops : tag.props = []) (span : Span) (t : List Char)
    (blank : Bool) :
    generate [.element tag [.text span t blank]]
      = '<' :: (tag.name ++ '>' :: (t ++ (['<', '/'] ++ (tag.name ++ ['>'])))) := by
  have hplain := arePlainProps_of_eq_nil hprops
  have htext : generate [.text span t blank] = t := by
    rw [generate_cons (by rintro _ ⟨⟩), generate_nil, List.append_nil]
    rfl
  have helement : ∀ other ∈ (Node.element tag [.text span t blank]).tag?,
      ArePlainProps other.props := by
    rintro other ⟨⟩
    exact hplain
  rw [generate_cons helement, generate_nil, List.append_nil, content_element hplain, htext, hprops]
  rfl

/-- The nodes are one element of the given name, with no attributes and just the text `t` in it. -/
def IsElementOfText (nodes : List Node) (name t : List Char) : Prop :=
  ∃ tag span blank, nodes = [.element tag [.text span t blank]] ∧ tag.name = name ∧ tag.props = []

theorem isElementOfText_dropLeadingBreak_iff {tag : Tag} {span : Span} {t : List Char}
    {blank : Bool} (hprops : tag.props = []) (hne : t ≠ []) :
    IsElementOfText [.element tag (dropLeadingBreak [.text span t blank])] tag.name t ↔
      ¬ StartsWithBreak t := by
  rw [← dropBreak_eq_self_iff, dropLeadingBreak]
  constructor
  · rintro ⟨other, span', blank', heq, -, -⟩
    split at heq
    · cases heq
    · exact (Node.text.inj (List.cons.inj (Node.element.inj (List.cons.inj heq).1).2).1).2.1
  · intro hsame
    rw [hsame, if_neg (by simpa using hne)]
    exact ⟨tag, span, blank, rfl, rfl, hprops⟩

/-- **Preformatted text comes back unless it begins with a line break.** Let a preformatted element
without attributes have just a text in it, in which nothing else begins. What is generated for it is
read, in either white space mode, as an element of the same name with that text in it, from which
one line break at the beginning is dropped; and if its offsets fit into spans, there is no error. So
the text is the same again exactly if it does not begin with a line break. -/
theorem Template.read_generate_preformatted (mode : WhitespaceMode) (tag : Tag) (span : Span)
    (t : List Char) (blank : Bool) (hpre : isPreformatted tag.name = true) (hprops : tag.props = [])
    (hne : t ≠ []) (hlt : '<' ∉ t) (hbraces : ¬ ['\x7b', '\x7b'] <:+: t) :
    (byteLength (generate [.element tag [.text span t blank]]) ≤ maxOffset →
      (Template.read mode (generate [.element tag [.text span t blank]])).errors = []) ∧
    (∃ read span', read.name = tag.name ∧ read.props = [] ∧
      (Template.read mode (generate [.element tag [.text span t blank]])).nodes
        = [.element read (dropLeadingBreak [.text span' t (isTagBlank t)])]) ∧
    (IsElementOfText (Template.read mode (generate [.element tag [.text span t blank]])).nodes
      tag.name t ↔ ¬ StartsWithBreak t) := by
  obtain ⟨d, read, span', hd, hname, hnone, hrun⟩ :=
    Reader.run_preformatted mode hpre hprops hne hlt hbraces
      (r := .ofSource (generate [.element tag [.text span t blank]]))
      (generate_preformatted hprops span t blank)
  have hend := hrun.trans (Reader.run_of_isDone (Reader.isDone_iff.2 ⟨hd, rfl⟩))
  have hnodes : (Template.read mode (generate [.element tag [.text span t blank]])).nodes
      = [.element read (dropLeadingBreak [.text span' t (isTagBlank t)])] := by
    rw [Template.read, hend]
    cases mode <;> rfl
  refine ⟨?_, ⟨read, span', hname, hnone, hnodes⟩, ?_⟩
  · intro _
    rw [Template.read, hend]
    rfl
  · rw [hnodes, ← hname]
    exact isElementOfText_dropLeadingBreak_iff hnone hne

/-- The content may begin with a carriage return alone, or with blanks before a line break. -/
theorem Template.read_generate_preformatted_return :
    IsElementOfText (Template.read .condense
      (generate [.element ⟨.emptyAt 0, ['P', 'r', 'e'], [], false⟩
        [.text (.emptyAt 0) ['\r', ' ', '\n', '\n', '\x7b', '\x7d', '>'] false]])).nodes
      ['P', 'r', 'e'] ['\r', ' ', '\n', '\n', '\x7b', '\x7d', '>'] :=
  (Template.read_generate_preformatted .condense ⟨.emptyAt 0, ['P', 'r', 'e'], [], false⟩
    (.emptyAt 0) ['\r', ' ', '\n', '\n', '\x7b', '\x7d', '>'] false (by decide) rfl (by decide)
    (by decide) (by decide)).2.2.2 (by unfold StartsWithBreak; decide)

/-- Of two line breaks at the beginning one is part of the text, and it is lost when the text is
generated and read again. -/
theorem Template.read_generate_preformatted_break :
    IsElementOfText (Template.read .condense "<pre>\n\nx</pre>".toList).nodes
        ['p', 'r', 'e'] ['\n', 'x'] ∧
      generate (Template.read .condense "<pre>\n\nx</pre>".toList).nodes
        = "<pre>\nx</pre>".toList ∧
      ¬ IsElementOfText (Template.read .condense
          (generate (Template.read .condense "<pre>\n\nx</pre>".toList).nodes)).nodes
        ['p', 'r', 'e'] ['\n', 'x'] := by
  have hread : (Template.read .condense "<pre>\n\nx</pre>".toList).nodes
      = [.element ⟨⟨0, 14⟩, ['p', 'r', 'e'], [], false⟩ [.text ⟨5, 8⟩ ['\n', 'x'] false]] := by
    decide +kernel
  have hagain : (Template.read .condense
      (generate (Template.read .condense "<pre>\n\nx</pre>".toList).nodes)).nodes
        = [.element ⟨⟨0, 13⟩, ['p', 'r', 'e'], [], false⟩ [.text ⟨5, 7⟩ ['x'] false]] := by
    decide +kernel
  refine ⟨⟨_, _, _, hread, rfl, rfl⟩, by decide +kernel, ?_⟩
  rintro ⟨tag, span, blank, heq, -, -⟩
  rw [hagain] at heq
  cases heq

end AstroTemplate
