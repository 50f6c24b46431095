import AstroTemplate.Proofs.Positions
import AstroTemplate.Proofs.RepeatedNames

set_option autoImplicit false

/-! # Reports on styles that take a condition in

`v-show` is taken in by the first style of an element, and this goes wrong if that style is an
object or an array. The checks look for such a style among the directives only. Where a fixed style
stands before the first computed one, it is the fixed style that takes the condition in, and the
report on the computed one is mistaken; everywhere else the two agree (`styleReports_agree_iff`).

Which attribute takes the condition in is read off the result: it is the one that `mergeVisibility`
changes (`ChangesAt`).
-/

namespace AstroTemplate

/-! ## The reports on styles -/

theorem code_checkVisibility {tag : Tag} {d : Diagnostic} (h : d ∈ tag.checkVisibility) :
    d.code = .dynamicStyleObject := by
  unfold Tag.checkVisibility at h
  split at h
  · split at h
    · split at h
      · rw [List.mem_singleton.1 h]; rfl
      · rw [List.mem_singleton.1 h]; rfl
      · cases h
    · cases h
  · cases h

theorem code_checkContent {tag : Tag} {children : List Node} {d : Diagnostic}
    (h : d ∈ tag.checkContent children) : d.code ≠ .dynamicStyleObject := by
  unfold Tag.checkContent at h
  rcases List.mem_append.1 h with h | h
  · split at h
    · rw [List.mem_singleton.1 h]; exact DiagnosticCode.noConfusion
    · cases h
  · split at h
    · split at h
      · rw [List.mem_singleton.1 h]; exact DiagnosticCode.noConfusion
      · cases h
    · cases h

theorem Directive.code_checkMeaning {directive : Directive} {d : Diagnostic}
    (h : d ∈ directive.checkMeaning) : d.code ≠ .dynamicStyleObject := by
  unfold Directive.checkMeaning at h
  split at h
  · unfold Directive.checkLoop at h
    split at h
    · rw [List.mem_singleton.1 h]; exact DiagnosticCode.noConfusion
    · simp only at h
      split at h
      · rw [List.mem_singleton.1 h]; exact DiagnosticCode.noConfusion
      · split at h
        · rw [List.mem_singleton.1 h]; exact DiagnosticCode.noConfusion
        · cases h
  · rw [List.mem_singleton.1 h]; exact DiagnosticCode.noConfusion
  · rw [List.mem_singleton.1 h]; exact DiagnosticCode.noConfusion
  · cases h

/-- The reports on the style of a node itself. -/
def Node.styleReports (node : Node) : List Diagnostic :=
  (node.tag?.map Tag.checkVisibility).getD []

theorem filter_style_eq_nil {reports : List Diagnostic}
    (h : ∀ d ∈ reports, d.code ≠ .dynamicStyleObject) :
    reports.filter (·.code = .dynamicStyleObject) = [] :=
  List.filter_eq_nil_iff.2 fun d hd => by simpa using h d hd

theorem Node.filter_checkMeaning_style (node : Node) :
    node.checkMeaning.filter (·.code = .dynamicStyleObject)
      = node.family.flatMap Node.styleReports := by
  induction node using Node.tree_induction with
  | leaf node hleaf =>
      cases node with
      | element => exact absurd rfl hleaf
      | text => rfl
      | interpolation => rfl
      | comment => rfl
  | element tag children ih =>
      have hdirectives : ∀ d ∈ tag.directives.flatMap Directive.checkMeaning,
          d.code ≠ .dynamicStyleObject := by
        intro d hd
        obtain ⟨directive, -, hd⟩ := List.mem_flatMap.1 hd
        exact Directive.code_checkMeaning hd
      rw [Node.checkMeaning, Node.checkMeanings_eq_flatMap, Node.family, Node.all_eq_flatMap,
        List.filter_append, List.filter_append, List.filter_append,
        filter_style_eq_nil fun _ => code_checkContent, filter_style_eq_nil hdirectives,
        filter_code_eq_self fun _ => code_checkVisibility, List.filter_flatMap, List.flatMap_cons,
        List.flatMap_assoc, List.flatMap_congr ih]
      rfl

/-- The reports on styles come element by element. -/
theorem filter_checkMeaning_style (nodes : List Node) :
    (checkMeaning nodes).filter (·.code = .dynamicStyleObject)
      = (Node.all nodes).flatMap Node.styleReports := by
  rw [checkMeaning, Node.checkMeanings_eq_flatMap, Node.all_eq_flatMap, List.filter_flatMap,
    List.flatMap_assoc, List.flatMap_congr fun node _ => node.filter_checkMeaning_style]

/-! ## Styles among the attributes -/

/-- An expression that begins like an object or an array. -/
def beginsObject (expression : List Char) : Bool :=
  (trimStart expression).head?.any fun c => c == '\x7b' || c == '['

namespace OutAttr

def isStyle (attr : OutAttr) : Bool := attr.ownName?.any isStyleName

/-- A style with an expression for its value. -/
def isComputedStyle : OutAttr → Bool
  | bound name _ => isStyleName name
  | _ => false

/-- A computed style that is an object or an array. -/
def isObjectStyle : OutAttr → Bool
  | bound name expression => isStyleName name && beginsObject (expression.getD [])
  | _ => false

theorem withVisibility?_eq_none_iff {condition : List Char} {attr : OutAttr} :
    attr.withVisibility? condition = none ↔ attr.isStyle = false := by
  cases attr with
  | static name value => cases h : isStyleName name <;> simp [withVisibility?, isStyle, ownName?, h]
  | bound name expression =>
      cases h : isStyleName name <;> simp [withVisibility?, isStyle, ownName?, h]
  | _ => simp [withVisibility?, isStyle, ownName?]

theorem length_styleSum (expression condition : List Char) :
    expression.length < (styleSum (some expression) condition).length := by
  simp only [styleSum, Option.getD_some, List.length_append]
  have hopen : "(".toList.length = 1 := rfl
  omega

/-- A style that takes a condition in is no longer what it was. -/
theorem withVisibility?_ne {condition : List Char} {attr merged : OutAttr}
    (h : attr.withVisibility? condition = some merged) : merged ≠ attr := by
  cases attr with
  | static name value =>
      obtain ⟨-, hmerged⟩ := Option.ite_none_right_eq_some.1 h
      rw [← Option.some.inj hmerged]
      exact OutAttr.noConfusion
  | bound name expression =>
      obtain ⟨-, hmerged⟩ := Option.ite_none_right_eq_some.1 h
      rw [← Option.some.inj hmerged]
      intro heq
      obtain ⟨-, hsame⟩ := OutAttr.bound.inj heq
      cases expression with
      | none => cases hsame
      | some expression =>
          -- the expression has grown
          have hlength := length_styleSum expression condition
          rw [Option.some.inj hsame] at hlength
          exact Nat.lt_irrefl _ hlength
  | _ => cases h

end OutAttr

/-- The first style is a fixed one. -/
def FixedStyleFirst (attrs : List OutAttr) : Prop :=
  ∃ name value, attrs.find? OutAttr.isStyle = some (.static name value)

/-- The first computed style is an object or an array. -/
def ObjectStyle (attrs : List OutAttr) : Prop :=
  ∃ attr, attrs.find? OutAttr.isComputedStyle = some attr ∧ attr.isObjectStyle = true

/-- The attribute stands in a place where it is not left as it is once the condition has been taken
in. -/
def ChangesAt (condition : List Char) (attrs : List OutAttr) (attr : OutAttr) : Prop :=
  ∃ i : Nat, attrs[i]? = some attr ∧ (mergeVisibility condition attrs)[i]? ≠ some attr

theorem changesAt_cons {condition : List Char} {first attr : OutAttr} {rest : List OutAttr} :
    ChangesAt condition (first :: rest) attr ↔
      if first.isStyle then first = attr else ChangesAt condition rest attr := by
  have hplaces : ChangesAt condition (first :: rest) attr ↔
      (some first = some attr ∧
          (mergeVisibility condition (first :: rest)).head? ≠ some attr) ∨
        ∃ i : Nat, rest[i]? = some attr ∧
          (mergeVisibility condition (first :: rest)).tail[i]? ≠ some attr := by
    rw [ChangesAt, ← Nat.or_exists_add_one]
    simp only [List.getElem?_cons_zero, List.getElem?_cons_succ, List.head?_eq_getElem?,
      List.getElem?_tail]
  -- once the first attribute has taken the condition in, the others are left as they are
  rw [hplaces, mergeVisibility]
  cases hmerged : first.withVisibility? condition with
  | none =>
      rw [OutAttr.withVisibility?_eq_none_iff.1 hmerged]
      simp [ChangesAt]
  | some merged =>
      have hstyle : first.isStyle = true := by
        rw [← Bool.not_eq_false, ← OutAttr.withVisibility?_eq_none_iff, hmerged]
        exact Option.some_ne_none merged
      have hne := OutAttr.withVisibility?_ne hmerged
      rw [if_pos hstyle]
      constructor
      · rintro (⟨heq, -⟩ | ⟨i, hi, hother⟩)
        · exact Option.some.inj heq
        · exact absurd hi hother
      · rintro rfl
        exact .inl ⟨rfl, fun heq => hne (Option.some.inj heq)⟩

/-- The first style takes the condition in, and no other attribute changes. -/
theorem changesAt_iff {condition : List Char} {attrs : List OutAttr} {attr : OutAttr} :
    ChangesAt condition attrs attr ↔ attrs.find? OutAttr.isStyle = some attr := by
  induction attrs with
  | nil => simp [ChangesAt]
  | cons first rest ih =>
      rw [changesAt_cons, List.find?_cons]
      cases first.isStyle with
      | true => simp
      | false => simpa using ih

/-! ## What the checks look at -/

/-- The directive that the checks look at. -/
def Tag.computedStyle? (tag : Tag) : Option Directive :=
  tag.directives.find? fun d => d.kind == .bind && d.staticArgument?.any isStyleName

theorem TagProp.any_computedStyle (prop : TagProp) :
    (OutAttr.ofProp? prop).any OutAttr.isComputedStyle
      = prop.directive?.any fun d => d.kind == .bind && d.staticArgument?.any isStyleName := by
  cases prop with
  | plain a => rfl
  | directive d =>
      cases hkind : d.kind with
      | bind =>
          cases hargument : d.argument with
          | none => simp [OutAttr.ofProp?, directive?, OutAttr.ofBinding, OutAttr.isComputedStyle,
              Directive.staticArgument?, hkind, hargument]
          | some argument =>
              cases hstatic : argument.isStatic <;>
                simp [OutAttr.ofProp?, directive?, OutAttr.ofBinding, OutAttr.isComputedStyle,
                  Directive.staticArgument?, Option.filter, hkind, hargument, hstatic]
      | _ => simp [OutAttr.ofProp?, directive?, OutAttr.isComputedStyle, hkind]

/-- The directive that the checks look at becomes the first computed style. -/
theorem Tag.find?_isComputedStyle (tag : Tag) :
    tag.attrs.find? OutAttr.isComputedStyle
      = tag.computedStyle?.bind fun d => OutAttr.ofProp? (.directive d) := by
  rw [attrs, computedStyle?, directives, List.find?_filterMap, List.find?_filterMap]
  simp only [TagProp.any_computedStyle]
  cases hfound : tag.props.find? fun prop =>
      prop.directive?.any fun d => d.kind == .bind && d.staticArgument?.any isStyleName with
  | none => rfl
  | some prop =>
      cases prop with
      | plain a => cases List.find?_some hfound
      | directive d => rfl

theorem Tag.exists_bound_of_computedStyle? {tag : Tag} {d : Directive}
    (h : tag.computedStyle? = some d) : ∃ name, isStyleName name = true ∧
      OutAttr.ofProp? (.directive d) = some (.bound name d.expression?) := by
  have hstyle := List.find?_some h
  rw [Bool.and_eq_true, beq_iff_eq, Option.any_eq_true] at hstyle
  obtain ⟨hkind, name, hname, hisStyle⟩ := hstyle
  obtain ⟨argument, hargument, rfl⟩ := Option.map_eq_some_iff.1 hname
  obtain ⟨hsome, hstatic⟩ := Option.filter_eq_some_iff.1 hargument
  refine ⟨argument.content, hisStyle, ?_⟩
  rw [OutAttr.ofProp?, hkind]
  dsimp only
  rw [OutAttr.ofBinding, hsome]
  exact congrArg some (if_pos hstatic)

/-- With `v-show`, a report is made exactly if the first computed style is an object. -/
theorem Tag.checkVisibility_ne_nil_iff {tag : Tag} (h : tag.hasDirective .visibility = true) :
    tag.checkVisibility ≠ [] ↔ ObjectStyle tag.attrs := by
  rw [ObjectStyle, tag.find?_isComputedStyle, checkVisibility, if_pos h, ← computedStyle?]
  cases hfound : tag.computedStyle? with
  | none => simp
  | some d =>
      obtain ⟨name, hname, hattr⟩ := exists_bound_of_computedStyle? hfound
      rw [Option.bind_some, hattr]
      simp only [Option.some.injEq, exists_eq_left', OutAttr.isObjectStyle, hname, Bool.true_and,
        beginsObject]
      split
      · rename_i htrim
        simp [htrim]
      · rename_i htrim
        simp [htrim]
      · rename_i hbrace hbracket
        cases htrim : trimStart (d.expression?.getD []) with
        | nil => simp
        | cons c more =>
            have hc : c ≠ '\x7b' := fun heq => hbrace more (heq ▸ htrim)
            have hc' : c ≠ '[' := fun heq => hbracket more (heq ▸ htrim)
            simp [hc, hc']

/-! ## Agreement -/

theorem OutAttr.isComputedStyle_of_isObjectStyle {attr : OutAttr} (h : attr.isObjectStyle = true) :
    attr.isComputedStyle = true := by
  cases attr with
  | bound name expression => exact (Bool.and_eq_true_iff.1 h).1
  | _ => cases h

theorem OutAttr.isStyle_of_isComputedStyle {attr : OutAttr} (h : attr.isComputedStyle = true) :
    attr.isStyle = true := by
  cases attr with
  | bound name expression => exact h
  | _ => cases h

/-- A first style that is computed is the first computed style. -/
theorem find?_isComputedStyle_of_isStyle {attrs : List OutAttr} {attr : OutAttr}
    (h : attrs.find? OutAttr.isStyle = some attr) (hcomputed : attr.isComputedStyle = true) :
    attrs.find? OutAttr.isComputedStyle = some attr := by
  obtain ⟨-, before, after, rfl, hbefore⟩ := List.find?_eq_some_iff_append.1 h
  refine List.find?_eq_some_iff_append.2 ⟨hcomputed, before, after, rfl, ?_⟩
  -- no style stands before it, so no computed one does
  intro other hother
  have hnot := hbefore other hother
  rw [Bool.not_eq_true'] at hnot ⊢
  rw [← Bool.not_eq_true] at hnot ⊢
  exact fun hstyle => hnot (OutAttr.isStyle_of_isComputedStyle hstyle)

/-- Where no fixed style comes first, the first style is the first computed one. -/
theorem find?_isStyle_of_not_fixedStyleFirst {attrs : List OutAttr} {attr : OutAttr}
    (hfixed : ¬ FixedStyleFirst attrs) (h : attrs.find? OutAttr.isComputedStyle = some attr) :
    attrs.find? OutAttr.isStyle = some attr := by
  cases hfirst : attrs.find? OutAttr.isStyle with
  | none =>
      have hstyle := OutAttr.isStyle_of_isComputedStyle (List.find?_some h)
      exact absurd hstyle (List.find?_eq_none.1 hfirst attr (List.mem_of_find?_eq_some h))
  | some first =>
      have hcomputed : first.isComputedStyle = true := by
        cases first with
        | static name value => exact absurd ⟨name, value, hfirst⟩ hfixed
        | bound name expression =>
            have hstyle : (OutAttr.bound name expression).isStyle = true := List.find?_some hfirst
            exact hstyle
        | _ => cases List.find?_some hfirst
      rw [find?_isComputedStyle_of_isStyle hfirst hcomputed] at h
      exact h

/-- The condition goes into an object exactly if the first computed style is one and no fixed style
stands before it. -/
theorem changesAt_object_iff {condition : List Char} {attrs : List OutAttr} :
    (∃ attr, ChangesAt condition attrs attr ∧ attr.isObjectStyle = true) ↔
      ObjectStyle attrs ∧ ¬ FixedStyleFirst attrs := by
  constructor
  · rintro ⟨attr, hchanges, hobject⟩
    have hfirst := changesAt_iff.1 hchanges
    refine ⟨⟨attr, find?_isComputedStyle_of_isStyle hfirst
      (OutAttr.isComputedStyle_of_isObjectStyle hobject), hobject⟩, ?_⟩
    rintro ⟨name, value, hfixed⟩
    rw [hfirst] at hfixed
    rw [Option.some.inj hfixed] at hobject
    cases hobject
  · rintro ⟨⟨attr, hcomputed, hobject⟩, hfixed⟩
    exact ⟨attr, changesAt_iff.2 (find?_isStyle_of_not_fixedStyleFirst hfixed hcomputed), hobject⟩

/-- **When a report on a style is right.** The checks report styles element by element. For an
element with `v-show`, a report is made whenever the attribute that takes the condition in is a
computed style that is an object or an array. It is made only then, unless the first style is a
fixed one and the first computed style is an object or an array: in that case, and in no other, the
report is about a style that does not take the condition in. -/
theorem styleReports_agree_iff (nodes : List Node) :
    (checkMeaning nodes).filter (·.code = .dynamicStyleObject)
        = (Node.all nodes).flatMap Node.styleReports ∧
      ∀ (tag : Tag) (children : List Node) (condition : List Char),
        tag.visibleWhen? = some condition →
        ((∃ attr, ChangesAt condition tag.attrs attr ∧ attr.isObjectStyle = true) →
          (Node.element tag children).styleReports ≠ []) ∧
        (((Node.element tag children).styleReports ≠ [] ↔
            ∃ attr, ChangesAt condition tag.attrs attr ∧ attr.isObjectStyle = true) ↔
          ¬ (FixedStyleFirst tag.attrs ∧ ObjectStyle tag.attrs)) := by
  refine ⟨filter_checkMeaning_style nodes, ?_⟩
  intro tag children condition hvisible
  obtain ⟨d, hd, -⟩ := Option.map_eq_some_iff.1 hvisible
  have hreports : (Node.element tag children).styleReports ≠ [] ↔ ObjectStyle tag.attrs :=
    tag.checkVisibility_ne_nil_iff (Option.isSome_of_eq_some hd)
  rw [hreports, changesAt_object_iff]
  refine ⟨And.left, ?_⟩
  tauto

/-- A fixed style takes the condition in, and the object after it is reported. -/
theorem styleReports_mistaken :
    ∃ tag, (Template.read .condense
          "<p style=\"a\" :style=\"\x7bb\x7d\" v-show=\"c\"></p>".toList).nodes
        = [.element tag []] ∧
      tag.visibleWhen? = some ['c'] ∧ (Node.element tag []).styleReports ≠ [] ∧
      ¬ (∃ attr, ChangesAt ['c'] tag.attrs attr ∧ attr.isObjectStyle = true) ∧
      generate [.element tag []] = ("<p style=\x7b`a;$\x7bc ? '' : 'display: none;'\x7d`\x7d"
        ++ " style=\x7b\x7bb\x7d\x7d></p>").toList := by
  refine ⟨⟨⟨0, 41⟩, "p".toList, [
    .plain ⟨⟨3, 12⟩, "style".toList, some ⟨⟨10, 11⟩, "a".toList⟩⟩,
    .directive ⟨⟨13, 25⟩, ":style".toList, "bind".toList, some ⟨⟨14, 19⟩, "style".toList, true⟩, [],
      some ⟨⟨21, 24⟩, "\x7bb\x7d".toList⟩⟩,
    .directive ⟨⟨26, 36⟩, "v-show".toList, "show".toList, none, [],
      some ⟨⟨34, 35⟩, "c".toList⟩⟩], false⟩, by decide +kernel, by decide, by decide, ?_,
    by decide +kernel⟩
  rw [changesAt_object_iff]
  exact fun h => h.2 ⟨"style".toList, some "a".toList, by decide⟩

end AstroTemplate
