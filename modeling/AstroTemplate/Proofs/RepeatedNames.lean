import AstroTemplate.Astro.Generate
import AstroTemplate.Markup.Template
import AstroTemplate.Proofs.StructureReports
import Mathlib.Data.Finset.Card
import Mathlib.Data.List.Perm.Basic

set_option autoImplicit false

/-! # Names that a start tag repeats

The checks report an attribute that an earlier one of the tag sets, going by the props. The
generated start tag has names of its own: those of plain attributes and bindings, and one marker for
each handler. `repeatCount` counts, in any list of names, those that stand there before. It depends
on the names only and not on their order (`repeatCount_add_card`), so the names of a start tag can
be counted in two parts. The reports are the repetitions among plain attributes and bindings; what
they miss are repetitions of markers, and markers that an attribute repeats.
-/

namespace AstroTemplate

/-! ## Counting repetitions -/

section

variable {α β : Type} [DecidableEq β]

/-- The number of members that occur earlier in the list. -/
def repeatCount (names : List β) : Nat :=
  names.zipIdx.countP fun entry => decide (entry.1 ∈ names.take entry.2)

theorem repeatCount_concat (names : List β) (last : β) :
    repeatCount (names ++ [last]) = repeatCount names + if last ∈ names then 1 else 0 := by
  have hbefore : ∀ entry ∈ names.zipIdx,
      (decide (entry.1 ∈ (names ++ [last]).take entry.2) = true
        ↔ decide (entry.1 ∈ names.take entry.2) = true) := by
    intro entry hentry
    have hlt : entry.2 < names.length := List.snd_lt_of_mem_zipIdx hentry
    rw [List.take_append_of_le_length (Nat.le_of_lt hlt)]
  rw [repeatCount, List.zipIdx_append, List.countP_append, List.countP_congr hbefore]
  simp [repeatCount, List.countP_cons]

/-- Every member is the first of its kind or a repetition. -/
theorem repeatCount_add_card (names : List β) :
    repeatCount names + names.toFinset.card = names.length := by
  induction names using List.reverseRecOn with
  | nil => rfl
  | append_singleton names last ih =>
      rw [repeatCount_concat, List.length_append, List.toFinset_append]
      by_cases hmem : last ∈ names
      · have hsame : names.toFinset ∪ [last].toFinset = names.toFinset := by
          rw [Finset.union_eq_left]
          simpa using hmem
        rw [if_pos hmem, hsame, List.length_singleton]
        omega
      · have hnew : (names.toFinset ∪ [last].toFinset).card = names.toFinset.card + 1 := by
          rw [Finset.card_union_of_disjoint (by simpa using hmem)]
          rfl
        rw [if_neg hmem, hnew, List.length_singleton]
        omega

theorem repeatCount_perm {names others : List β} (h : names.Perm others) :
    repeatCount names = repeatCount others := by
  have hnames := repeatCount_add_card names
  have hothers := repeatCount_add_card others
  rw [List.toFinset_eq_of_perm _ _ h, h.length_eq] at hnames
  omega

/-- Between two lists a name is repeated once, however often both have it. -/
theorem repeatCount_append (names others : List β) :
    repeatCount (names ++ others)
      = repeatCount names + repeatCount others + (names.toFinset ∩ others.toFinset).card := by
  have hboth := repeatCount_add_card (names ++ others)
  have hnames := repeatCount_add_card names
  have hothers := repeatCount_add_card others
  have hunion := Finset.card_union_add_card_inter names.toFinset others.toFinset
  rw [List.toFinset_append, List.length_append] at hboth
  omega

theorem repeatCount_eq_zero_iff {names : List β} : repeatCount names = 0 ↔ names.Nodup := by
  have hcount := repeatCount_add_card names
  constructor
  · intro hzero
    rw [hzero, Nat.zero_add] at hcount
    exact Multiset.toFinset_card_eq_card_iff_nodup.1 hcount
  · intro hnodup
    rw [List.toFinset_card_of_nodup hnodup] at hcount
    omega

/-- A member at the end is listed if its key occurs before it. -/
theorem repeated_concat (key? : α → Option β) (seen : List β) (members : List α) (last : α) :
    repeated key? seen (members ++ [last])
      = repeated key? seen members ++ ((key? last).toList.filter fun key =>
          decide (key ∈ seen ∨ key ∈ members.filterMap key?)).map fun key => (last, key) := by
  induction members generalizing seen with
  | nil =>
      rw [List.nil_append, repeated, repeated]
      cases hkey : key? last with
      | none => rfl
      | some key =>
          by_cases hseen : key ∈ seen <;> simp [repeated, hseen]
  | cons a rest ih =>
      rw [List.cons_append, repeated, repeated]
      cases hkey : key? a with
      | none =>
          dsimp only
          rw [ih seen, List.filterMap_cons_none hkey]
      | some key =>
          dsimp only
          rw [List.filterMap_cons_some hkey]
          by_cases hseen : key ∈ seen
          · have hsame : ∀ other, other ∈ seen ∨ other ∈ key :: rest.filterMap key?
                ↔ other ∈ seen ∨ other ∈ rest.filterMap key? := by
              intro other
              rw [List.mem_cons, or_left_comm, or_iff_right_of_imp]
              rintro rfl
              exact .inl hseen
            rw [if_pos hseen, if_pos hseen, ih seen, List.cons_append]
            simp only [hsame]
          · have hsame : ∀ other, other ∈ seen ∨ other ∈ key :: rest.filterMap key?
                ↔ other ∈ key :: seen ∨ other ∈ rest.filterMap key? := by
              intro other
              rw [List.mem_cons, List.mem_cons, or_left_comm, or_assoc]
            rw [if_neg hseen, if_neg hseen, ih (key :: seen)]
            simp only [hsame]

theorem length_repeated (key? : α → Option β) (members : List α) :
    (repeated key? [] members).length = repeatCount (members.filterMap key?) := by
  induction members using List.reverseRecOn with
  | nil => rfl
  | append_singleton members last ih =>
      rw [repeated_concat, List.length_append, ih, List.filterMap_append]
      cases hkey : key? last with
      | none => simp [hkey]
      | some key =>
          rw [List.filterMap_cons_some hkey, List.filterMap_nil, repeatCount_concat]
          by_cases hmem : key ∈ members.filterMap key?
          · rw [if_pos hmem]
            simp [List.mem_filterMap.1 hmem]
          · rw [if_neg hmem]
            simp [mt List.mem_filterMap.2 hmem]

end

/-! ## The names in a start tag -/

namespace OutAttr

/-- The name of a plain attribute or a binding. -/
def ownName? : OutAttr → Option (List Char)
  | static name _ => some name
  | bound name _ => some name
  | _ => none

/-- The name of the marker that is kept of a handler. -/
def markerName? : OutAttr → Option (List Char)
  | event name _ => some ("data-on-".toList ++ name.getD "event".toList)
  | _ => none

/-- The name that the attribute is written with, if it has a fixed one. -/
def name? (attr : OutAttr) : Option (List Char) := attr.ownName?.or attr.markerName?

/-- How an attribute is written. One with a name is a space, the name, and nothing or an equals
sign with a value. Others are objects to be spread, or are not written at all. -/
def WrittenUnder (attr : OutAttr) : Option (List Char) → Prop
  | some name => ∃ value, attr.render = ' ' :: name ++ value ∧
      (value = [] ∨ value.head? = some '=')
  | none => attr.render = [] ∨ ∃ rest, attr.render = " \x7b...".toList ++ rest

theorem writtenUnder_name? (attr : OutAttr) : attr.WrittenUnder attr.name? := by
  cases attr with
  | static name value =>
      cases value with
      | none => exact ⟨[], (List.append_nil _).symm, .inl rfl⟩
      | some value =>
          by_cases hplaceholder : hasPlaceholder value
          · refine ⟨"=\x7b".toList ++ (templateLiteral value ++ "\x7d".toList), ?_, .inr rfl⟩
            refine (if_pos hplaceholder).trans ?_
            simp only [List.append_assoc]
          · refine ⟨"=\"".toList ++ (escapeAttr value ++ "\"".toList), ?_, .inr rfl⟩
            refine (if_neg hplaceholder).trans ?_
            simp only [List.append_assoc]
  | bound name expression =>
      refine ⟨"=\x7b".toList ++ (expression.getD "true".toList ++ "\x7d".toList), ?_, .inr rfl⟩
      show ' ' :: name ++ "=\x7b".toList ++ expression.getD "true".toList ++ "\x7d".toList = _
      simp only [List.append_assoc]
  | dynamicKey key expression =>
      have hbegin : " \x7b...\x7b[".toList = " \x7b...".toList ++ "\x7b[".toList := by decide
      refine .inr ⟨"\x7b[".toList ++ (key ++ ("]: ".toList ++ (expression.getD "true".toList
        ++ "\x7d\x7d".toList))), ?_⟩
      show " \x7b...\x7b[".toList ++ key ++ "]: ".toList ++ expression.getD "true".toList
        ++ "\x7d\x7d".toList = _
      rw [hbegin]
      simp only [List.append_assoc]
  | spread expression => exact .inr ⟨_, List.append_assoc _ _ _⟩
  | event name expression =>
      have hbegin : " data-on-".toList = ' ' :: "data-on-".toList := by decide
      refine ⟨"=\"".toList ++ (escapeAttr (expression.getD []) ++ "\"".toList), ?_, .inr rfl⟩
      show " data-on-".toList ++ name.getD "event".toList ++ "=\"".toList
        ++ escapeAttr (expression.getD []) ++ "\"".toList = _
      rw [hbegin]
      simp only [List.append_assoc, List.cons_append]
  | unsupported rawName => exact .inl rfl

end OutAttr

namespace Tag

/-- The names of the plain attributes and bindings in the generated start tag, in lower case. -/
def ownNames (tag : Tag) : List (List Char) := (tag.outAttrs.filterMap OutAttr.ownName?).map lower

/-- The names of the markers in the generated start tag, in lower case. -/
def markerNames (tag : Tag) : List (List Char) :=
  (tag.outAttrs.filterMap OutAttr.markerName?).map lower

/-- All names in the generated start tag, in their order and in lower case. -/
def writtenNames (tag : Tag) : List (List Char) := (tag.outAttrs.filterMap OutAttr.name?).map lower

end Tag

theorem perm_filterMap_name? (attrs : List OutAttr) :
    (attrs.filterMap OutAttr.name?).Perm
      (attrs.filterMap OutAttr.ownName? ++ attrs.filterMap OutAttr.markerName?) := by
  induction attrs with
  | nil => exact List.Perm.refl []
  | cons attr rest ih =>
      cases attr with
      | static name value => exact ih.cons name
      | bound name expression => exact ih.cons name
      | event name expression => exact (ih.cons _).trans List.perm_middle.symm
      | dynamicKey key expression => exact ih
      | spread expression => exact ih
      | unsupported rawName => exact ih

theorem Tag.perm_writtenNames (tag : Tag) :
    tag.writtenNames.Perm (tag.ownNames ++ tag.markerNames) := by
  rw [ownNames, markerNames, ← List.map_append]
  exact (perm_filterMap_name? tag.outAttrs).map lower

/-! ## What the checks go by -/

/-- A prop sets the attribute that it becomes. -/
theorem TagProp.setName?_eq (prop : TagProp) :
    prop.setName? = ((OutAttr.ofProp? prop).bind OutAttr.ownName?).map lower := by
  cases prop with
  | plain a => rfl
  | directive d =>
      cases hkind : d.kind with
      | bind =>
          rw [setName?, OutAttr.ofProp?, hkind, if_pos rfl]
          cases hargument : d.argument with
          | none => simp [Directive.staticArgument?, OutAttr.ofBinding, OutAttr.ownName?, hargument]
          | some argument =>
              by_cases hstatic : argument.isStatic <;>
                simp [Directive.staticArgument?, OutAttr.ofBinding, OutAttr.ownName?, hargument,
                  hstatic]
      | _ => simp [setName?, OutAttr.ofProp?, OutAttr.ownName?, hkind]

theorem Tag.filterMap_setName? (tag : Tag) :
    tag.props.filterMap TagProp.setName? = (tag.attrs.filterMap OutAttr.ownName?).map lower := by
  rw [attrs, List.filterMap_filterMap, List.map_filterMap]
  exact List.filterMap_congr fun prop _ => prop.setName?_eq

/-- A style that takes a condition in keeps its name. -/
theorem OutAttr.ownName?_withVisibility? {condition : List Char} {attr merged : OutAttr}
    (h : attr.withVisibility? condition = some merged) : merged.ownName? = attr.ownName? := by
  cases attr with
  | static name value =>
      obtain ⟨-, hmerged⟩ := Option.ite_none_right_eq_some.1 h
      rw [← Option.some.inj hmerged]
      rfl
  | bound name expression =>
      obtain ⟨-, hmerged⟩ := Option.ite_none_right_eq_some.1 h
      rw [← Option.some.inj hmerged]
      rfl
  | _ => cases h

theorem OutAttr.ne_style_of_withVisibility? {condition name : List Char} {attr : OutAttr}
    (h : attr.withVisibility? condition = none) (hname : attr.ownName? = some name) :
    lower name ≠ lower "style".toList := by
  intro hstyle
  have hstyle : isStyleName name = true := sameName_iff.2 hstyle
  cases attr with
  | static other value =>
      obtain rfl := Option.some.inj hname
      simp [withVisibility?, hstyle] at h
  | bound other expression =>
      obtain rfl := Option.some.inj hname
      simp [withVisibility?, hstyle] at h
  | _ => cases hname

/-- A condition is taken in without a change of names, or the name of a style is new at the end. -/
theorem filterMap_mergeVisibility (condition : List Char) (attrs : List OutAttr) :
    (mergeVisibility condition attrs).filterMap OutAttr.ownName?
        = attrs.filterMap OutAttr.ownName? ∨
      (mergeVisibility condition attrs).filterMap OutAttr.ownName?
          = attrs.filterMap OutAttr.ownName? ++ ["style".toList] ∧
        ∀ name ∈ attrs.filterMap OutAttr.ownName?, lower name ≠ lower "style".toList := by
  induction attrs with
  | nil => exact .inr ⟨rfl, List.forall_mem_nil _⟩
  | cons attr rest ih =>
      rw [mergeVisibility]
      cases hmerged : attr.withVisibility? condition with
      | some merged =>
          refine .inl ?_
          rw [List.filterMap_cons, List.filterMap_cons, OutAttr.ownName?_withVisibility? hmerged]
      | none =>
          dsimp only
          cases hname : attr.ownName? with
          | none => rwa [List.filterMap_cons_none hname, List.filterMap_cons_none hname]
          | some name =>
              have hother := OutAttr.ne_style_of_withVisibility? hmerged hname
              rw [List.filterMap_cons_some hname, List.filterMap_cons_some hname]
              rcases ih with hsame | ⟨hnew, hnone⟩
              · exact .inl (congrArg (name :: ·) hsame)
              · exact .inr ⟨congrArg (name :: ·) hnew, List.forall_mem_cons.2 ⟨hother, hnone⟩⟩

/-- `v-show` adds no repetition. -/
theorem Tag.repeatCount_ownNames (tag : Tag) :
    repeatCount tag.ownNames = repeatCount ((tag.attrs.filterMap OutAttr.ownName?).map lower) := by
  unfold ownNames outAttrs
  split
  · rename_i condition _
    rcases filterMap_mergeVisibility condition tag.attrs with hsame | ⟨hnew, hnone⟩
    · rw [hsame]
    · have hfresh : lower "style".toList ∉ (tag.attrs.filterMap OutAttr.ownName?).map lower := by
        intro hmem
        obtain ⟨name, hname, hstyle⟩ := List.mem_map.1 hmem
        exact hnone name hname hstyle
      rw [hnew, List.map_append, List.map_singleton, repeatCount_concat, if_neg hfresh,
        Nat.add_zero]
  · rfl

theorem Tag.length_repeatedAttributes (tag : Tag) :
    tag.repeatedAttributes.length = repeatCount tag.ownNames := by
  rw [repeatedAttributes, List.length_map, length_repeated, tag.filterMap_setName?,
    tag.repeatCount_ownNames]

/-- **What the reports on repeated attributes count.** The checks report attributes element by
element. For each element, the reports are as many as the plain attributes and bindings of its start
tag whose name, without regard to case, stands there before. Among all names that are written, the
markers of handlers included, there are more repetitions: those of markers among themselves, and one
for each name that both a marker and an attribute have. So the reports count all repetitions exactly
if no two markers have the same name and no attribute has the name of a marker. -/
theorem repeatedAttributes_count (nodes : List Node) :
    (checkStructure nodes).filter (·.code = .duplicateAttribute)
        = (Node.all nodes).flatMap Node.attributeReports ∧
    ∀ (tag : Tag) (children : List Node),
      (∃ rest, tag.renderElement (generate children)
        = '<' :: tag.outName ++ (tag.outAttrs.flatMap OutAttr.render ++ rest)) ∧
      (∀ attr : OutAttr, attr.WrittenUnder attr.name?) ∧
      (Node.element tag children).attributeReports.length = repeatCount tag.ownNames ∧
      repeatCount tag.writtenNames = (Node.element tag children).attributeReports.length
        + repeatCount tag.markerNames
        + (tag.ownNames.toFinset ∩ tag.markerNames.toFinset).card ∧
      ((Node.element tag children).attributeReports.length = repeatCount tag.writtenNames ↔
        tag.markerNames.Nodup ∧ tag.ownNames.Disjoint tag.markerNames) := by
  refine ⟨filter_checkStructure_attribute nodes, ?_⟩
  intro tag children
  have hreports : (Node.element tag children).attributeReports.length = repeatCount tag.ownNames :=
    tag.length_repeatedAttributes
  have hcount : repeatCount tag.writtenNames = repeatCount tag.ownNames
      + repeatCount tag.markerNames + (tag.ownNames.toFinset ∩ tag.markerNames.toFinset).card := by
    rw [repeatCount_perm tag.perm_writtenNames, repeatCount_append]
  refine ⟨?_, OutAttr.writtenUnder_name?, hreports, hreports ▸ hcount, ?_⟩
  · unfold Tag.renderElement
    split
    · exact ⟨_, by simp only [List.append_assoc]; rfl⟩
    · exact ⟨_, by simp only [List.append_assoc]; rfl⟩
  · rw [hreports, hcount, ← repeatCount_eq_zero_iff, ← List.disjoint_toFinset_iff_disjoint,
      Finset.disjoint_iff_inter_eq_empty, ← Finset.card_eq_zero]
    omega

/-- Of two handlers for one event the same marker is kept twice, and nothing is reported. -/
theorem repeatedAttributes_count_click :
    checkStructure (Template.read .condense "<p @click=\"a\" @click=\"b\"></p>".toList).nodes = [] ∧
      generate (Template.read .condense "<p @click=\"a\" @click=\"b\"></p>".toList).nodes
        = "<p data-on-click=\"a\" data-on-click=\"b\"></p>".toList ∧
      (Template.read .condense "<p @click=\"a\" @click=\"b\"></p>".toList).nodes.map
          (fun node => node.tag?.map fun tag => repeatCount tag.writtenNames) = [some 1] := by
  decide +kernel

end AstroTemplate
