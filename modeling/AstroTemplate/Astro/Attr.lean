import AstroTemplate.Astro.Literal
import AstroTemplate.Markup.Node

set_option autoImplicit false

/-! # Attributes of generated elements

The props of a tag are sorted by their role. Control directives say whether, how often and with
what content an element is generated; of several with the same role the first one counts. All
other props become attributes of the generated tag, in their order.
-/

namespace AstroTemplate

/-- An attribute of a generated tag. -/
inductive OutAttr where
  /-- Written as `name` or `name="value"`. -/
  | static (name : List Char) (value : Option (List Char))
  /-- An attribute with an expression for its value. -/
  | bound (name : List Char) (expression : Option (List Char))
  /-- An attribute whose name is an expression, too. -/
  | dynamicKey (key : List Char) (expression : Option (List Char))
  /-- All attributes that an object holds. -/
  | spread (expression : Option (List Char))
  /-- A handler, kept as data. -/
  | event (name : Option (List Char)) (expression : Option (List Char))
  /-- A directive without a counterpart, of which nothing is generated. -/
  | unsupported (rawName : List Char)
  deriving DecidableEq, Repr

namespace OutAttr

/-- The attribute as it is written in a tag, with the space in front of it. -/
def render : OutAttr → List Char
  | static name none => ' ' :: name
  | static name (some value) =>
    if hasPlaceholder value then
      ' ' :: name ++ "=\x7b".toList ++ templateLiteral value ++ "\x7d".toList
    else ' ' :: name ++ "=\"".toList ++ escapeAttr value ++ "\"".toList
  | bound name expression =>
    ' ' :: name ++ "=\x7b".toList ++ expression.getD "true".toList ++ "\x7d".toList
  | dynamicKey key expression =>
    " \x7b...\x7b[".toList ++ key ++ "]: ".toList ++ expression.getD "true".toList
      ++ "\x7d\x7d".toList
  | spread expression =>
    " \x7b...".toList ++ expression.getD "\x7b\x7d".toList ++ "\x7d".toList
  | event name expression =>
    " data-on-".toList ++ name.getD "event".toList ++ "=\"".toList
      ++ escapeAttr (expression.getD []) ++ "\"".toList
  | unsupported _ => []

/-- What a binding becomes. -/
def ofBinding (d : Directive) : OutAttr :=
  match d.argument with
  | some argument =>
    if argument.isStatic then bound argument.content d.expression?
    else dynamicKey argument.content d.expression?
  | none => spread d.expression?

/-- What a prop becomes in the generated tag; control directives become no attribute. -/
def ofProp? : TagProp → Option OutAttr
  | .plain a => some (static a.name (a.value.map (·.content)))
  | .directive d =>
    match d.kind with
    | .bind => some (ofBinding d)
    | .on => some (event d.staticArgument? d.expression?)
    | .other => some (unsupported d.rawName)
    | _ => none

end OutAttr

/-- Content that replaces the children of an element: the attribute that sets it, and the
expression it is set to. -/
structure InjectedContent where
  attr : List Char
  expression : List Char
  deriving DecidableEq, Repr

namespace Tag

/-- The first conditional directive. -/
def conditional? (tag : Tag) : Option Directive := tag.directives.find? (·.kind.isConditional)

/-- The attributes before `v-show` has its say. -/
def attrs (tag : Tag) : List OutAttr := tag.props.filterMap OutAttr.ofProp?

/-- The condition under which the element is visible; without an expression it never is. -/
def visibleWhen? (tag : Tag) : Option (List Char) :=
  (tag.directive? .visibility).map fun d => d.expression?.getD "false".toList

/-- The content that replaces the children. `v-html` counts before `v-text`. -/
def content? (tag : Tag) : Option InjectedContent :=
  let inject := fun (attr : String) (d : Directive) =>
    (⟨attr.toList, d.expression?.getD "''".toList⟩ : InjectedContent)
  ((tag.directive? .html).map (inject "set:html")).or
    ((tag.directive? .text).map (inject "set:text"))

/-- The condition of a branch; the last branch of a chain has none. A missing condition is never
met. -/
def condition? (tag : Tag) : BranchKind → Option (List Char)
  | .elseBranch => none
  | kind =>
    some (((tag.directive? (.branch kind)).bind Directive.expression?).getD "false".toList)

end Tag

end AstroTemplate
