import AstroTemplate.Proofs.Descendants
import AstroTemplate.Proofs.GroupMarkup

set_option autoImplicit false

/-! # What markup does not show

Spans, raw names and modifiers say where and how a part of the template is written. None of them
gets into the markup: `bare` leaves them out, and what is generated stays the same
(`generate_bare`).
-/

namespace AstroTemplate

/-- The span of what has no place. -/
def Span.nowhere : Span := ⟨0, 0⟩

def Value.bare (v : Value) : Value := { v with span := .nowhere }

def Attribute.bare (a : Attribute) : Attribute :=
  { a with span := .nowhere, value := a.value.map Value.bare }

def Argument.bare (a : Argument) : Argument := { a with span := .nowhere }

/-- A directive without its place, its raw name and its modifiers. -/
def Directive.bare (d : Directive) : Directive where
  span := .nowhere
  rawName := []
  name := d.name
  argument := d.argument.map Argument.bare
  modifiers := []
  value := d.value.map Value.bare

def TagProp.bare : TagProp → TagProp
  | plain a => plain a.bare
  | directive d => directive d.bare

def Tag.bare (tag : Tag) : Tag :=
  { tag with span := .nowhere, props := tag.props.map TagProp.bare }

mutual

/-- The node without anything that markup does not show. -/
def Node.bare : Node → Node
  | .text _ data blank => .text .nowhere data blank
  | .interpolation _ _ expression => .interpolation .nowhere .nowhere expression
  | .comment _ data => .comment .nowhere data
  | .element tag children => .element tag.bare (Node.allBare children)

/-- The siblings without anything that markup does not show. -/
def Node.allBare : List Node → List Node
  | [] => []
  | node :: rest => node.bare :: Node.allBare rest

end

theorem Node.allBare_eq_map (nodes : List Node) : Node.allBare nodes = nodes.map Node.bare := by
  induction nodes with
  | nil => rfl
  | cons node rest ih => rw [Node.allBare, ih, List.map_cons]

/-! ## Directives -/

theorem Value.map_content_bare (value : Option Value) :
    (value.map Value.bare).map Value.content = value.map Value.content := by
  cases value <;> rfl

namespace Directive

variable (d : Directive)

theorem kind_bare : d.bare.kind = d.kind := rfl

theorem expression?_bare : d.bare.expression? = d.expression? := by
  rw [expression?, expression?]
  exact congrArg (Option.filter _) (Value.map_content_bare d.value)

theorem staticArgument?_bare : d.bare.staticArgument? = d.staticArgument? := by
  rw [staticArgument?, staticArgument?, bare]
  rcases d.argument with _ | ⟨span, content, static⟩
  · rfl
  · cases static <;> rfl

end Directive

namespace Tag

variable (tag : Tag)

theorem directives_bare : tag.bare.directives = tag.directives.map Directive.bare := by
  have hprop : ∀ p : TagProp, p.bare.directive? = p.directive?.map Directive.bare := by
    intro p
    cases p <;> rfl
  rw [directives, directives, bare, List.filterMap_map, List.map_filterMap]
  exact List.filterMap_congr fun p _ => hprop p

theorem directive?_bare (kind : DirectiveKind) :
    tag.bare.directive? kind = (tag.directive? kind).map Directive.bare := by
  rw [directive?, directives_bare, List.find?_map]
  rfl

theorem conditional?_bare : tag.bare.conditional? = tag.conditional?.map Directive.bare := by
  rw [conditional?, directives_bare, List.find?_map]
  rfl

/-- What is made of the expression of a directive does not change. -/
theorem map_expression?_bare {α : Type} (f : Option (List Char) → α) (kind : DirectiveKind) :
    (tag.bare.directive? kind).map (fun d => f d.expression?)
      = (tag.directive? kind).map fun d => f d.expression? := by
  rw [directive?_bare, Option.map_map]
  refine congrArg (Option.map · (tag.directive? kind)) (funext fun d => ?_)
  exact congrArg f d.expression?_bare

theorem branchKind?_bare : tag.bare.branchKind? = tag.branchKind? := by
  have hhas : ∀ kind, tag.bare.hasDirective kind = tag.hasDirective kind := by
    intro kind
    rw [hasDirective, directive?_bare, Option.isSome_map, hasDirective]
  rw [branchKind?, branchKind?]
  exact congrArg (List.find? · _) (funext fun kind => hhas (.branch kind))

theorem loop?_bare : tag.bare.loop? = tag.loop? :=
  tag.map_expression?_bare (fun expression => Loop.read (expression.getD [])) .loop

theorem visibleWhen?_bare : tag.bare.visibleWhen? = tag.visibleWhen? :=
  tag.map_expression?_bare (·.getD "false".toList) .visibility

theorem content?_bare : tag.bare.content? = tag.content? := by
  have hinject : ∀ (attr : String) (kind : DirectiveKind),
      (tag.bare.directive? kind).map
          (fun d => (⟨attr.toList, d.expression?.getD "''".toList⟩ : InjectedContent))
        = (tag.directive? kind).map fun d => ⟨attr.toList, d.expression?.getD "''".toList⟩ :=
    fun attr => tag.map_expression?_bare fun expression =>
      (⟨attr.toList, expression.getD "''".toList⟩ : InjectedContent)
  rw [content?, content?]
  dsimp only
  rw [hinject, hinject]

theorem outName_bare : tag.bare.outName = tag.outName := by
  rw [outName, conditional?_bare, directive?_bare, Option.isSome_map, Option.isSome_map]
  rfl

theorem condition?_bare (kind : BranchKind) : tag.bare.condition? kind = tag.condition? kind := by
  have hexpression : ((tag.bare.directive? (.branch kind)).bind Directive.expression?)
      = (tag.directive? (.branch kind)).bind Directive.expression? := by
    rw [directive?_bare, Option.bind_map]
    exact congrArg (Option.bind _) (funext Directive.expression?_bare)
  have hcondition := congrArg
    (fun expression => some (Option.getD expression "false".toList)) hexpression
  cases kind with
  | elseBranch => rfl
  | ifBranch => exact hcondition
  | elseIfBranch => exact hcondition

end Tag

/-! ## Attributes -/

/-- The attribute without the raw name that it does not show. -/
def OutAttr.bare : OutAttr → OutAttr
  | unsupported _ => unsupported []
  | attr => attr

namespace OutAttr

theorem render_bare (attr : OutAttr) : attr.bare.render = attr.render := by
  cases attr <;> rfl

theorem ofProp?_bare (prop : TagProp) : ofProp? prop.bare = (ofProp? prop).map bare := by
  cases prop with
  | plain a => exact congrArg (fun value => some (static a.name value)) (Value.map_content_bare _)
  | directive d =>
      have hbinding : ofBinding d.bare = (ofBinding d).bare := by
        rw [ofBinding, ofBinding, d.expression?_bare, Directive.bare]
        rcases d.argument with _ | ⟨span, content, isStatic⟩
        · rfl
        · cases isStatic <;> rfl
      rw [TagProp.bare, ofProp?, ofProp?, d.kind_bare, hbinding, d.staticArgument?_bare,
        d.expression?_bare]
      cases d.kind <;> rfl

theorem withVisibility?_bare (condition : List Char) (attr : OutAttr) :
    attr.bare.withVisibility? condition = (attr.withVisibility? condition).map bare := by
  cases attr with
  | static name value =>
      rw [bare, withVisibility?]
      · cases isStyleName name <;> rfl
      · nofun
  | bound name expression =>
      rw [bare, withVisibility?]
      · cases isStyleName name <;> rfl
      · nofun
  | dynamicKey => rfl
  | spread => rfl
  | event => rfl
  | unsupported => rfl

end OutAttr

theorem mergeVisibility_bare (condition : List Char) (attrs : List OutAttr) :
    mergeVisibility condition (attrs.map OutAttr.bare)
      = (mergeVisibility condition attrs).map OutAttr.bare := by
  induction attrs with
  | nil => rfl
  | cons attr rest ih =>
      rw [List.map_cons, mergeVisibility, mergeVisibility, OutAttr.withVisibility?_bare]
      cases attr.withVisibility? condition with
      | none => exact congrArg (_ :: ·) ih
      | some merged => rfl

namespace Tag

variable (tag : Tag)

theorem attrs_bare : tag.bare.attrs = tag.attrs.map OutAttr.bare := by
  rw [attrs, attrs, bare, List.filterMap_map, List.map_filterMap]
  exact List.filterMap_congr fun p _ => OutAttr.ofProp?_bare p

theorem outAttrs_bare : tag.bare.outAttrs = tag.outAttrs.map OutAttr.bare := by
  rw [outAttrs, outAttrs, visibleWhen?_bare, attrs_bare]
  cases tag.visibleWhen? with
  | none => rfl
  | some condition => exact mergeVisibility_bare condition tag.attrs

/-- The element is written from what is left. -/
theorem renderExpression_bare (children : List Char) :
    tag.bare.renderExpression children = tag.renderExpression children := by
  have hattrs : tag.bare.outAttrs.flatMap OutAttr.render = tag.outAttrs.flatMap OutAttr.render := by
    rw [outAttrs_bare, List.flatMap_map]
    exact List.flatMap_congr fun attr _ => attr.render_bare
  rw [renderExpression, renderElement, loop?_bare, hattrs, content?_bare, outName_bare,
    renderExpression, renderElement]

end Tag

/-! ## Trees -/

/-- A node stays what it is for its siblings. -/
theorem Node.view_bare (node : Node) : node.bare.view = node.view := by
  induction node using Node.tree_induction with
  | leaf node hleaf =>
      cases node with
      | element => exact absurd rfl hleaf
      | text => rfl
      | interpolation => rfl
      | comment => rfl
  | element tag children ih =>
      have hchildren : generate (Node.allBare children) = generate children := by
        refine generate_congr ?_
        rw [Node.allBare_eq_map, List.map_map]
        exact List.map_congr_left ih
      rw [Node.bare]
      refine Node.view_element_congr tag.branchKind?_bare tag.loop?_bare ?_
        fun place _ => tag.condition?_bare place
      rw [hchildren, tag.renderExpression_bare]

/-- Markup shows neither places nor raw names nor modifiers. -/
theorem generate_bare (nodes : List Node) : generate (nodes.map Node.bare) = generate nodes := by
  refine generate_congr ?_
  rw [List.map_map]
  exact List.map_congr_left fun node _ => node.view_bare

end AstroTemplate
