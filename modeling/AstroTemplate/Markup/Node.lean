import AstroTemplate.Text.Blank
import AstroTemplate.Text.Span
import AstroTemplate.Markup.Directive

set_option autoImplicit false

/-! # The tree of a template

A template is a list of sibling nodes: text, interpolations, comments, and elements with
attributes, directives and children of their own. Every part keeps its span in the source.
Expressions are kept as they are written.
-/

namespace AstroTemplate

/-- An attribute value or a directive's expression: the span between the quotes, and the text
with its character references decoded. -/
structure Value where
  span : Span
  content : List Char
  deriving DecidableEq, Repr

/-- A plain attribute; one without a value is on by being there. -/
structure Attribute where
  span : Span
  name : List Char
  value : Option Value
  deriving DecidableEq, Repr

/-- The argument of a directive; a dynamic one is the expression between brackets. -/
structure Argument where
  span : Span
  content : List Char
  isStatic : Bool
  deriving DecidableEq, Repr

/-- A directive with its name as written and the parts of that name. -/
structure Directive where
  span : Span
  rawName : List Char
  name : List Char
  argument : Option Argument
  modifiers : List (List Char)
  value : Option Value
  deriving DecidableEq, Repr

namespace Directive

def kind (d : Directive) : DirectiveKind := DirectiveKind.ofName d.name

/-- The expression, unless it is missing or blank. -/
def expression? (d : Directive) : Option (List Char) :=
  (d.value.map (·.content)).filter fun content => !(trim content).isEmpty

/-- The argument, if it is a static one. -/
def staticArgument? (d : Directive) : Option (List Char) :=
  (d.argument.filter (·.isStatic)).map (·.content)

end Directive

/-- What a start tag can carry besides its name. -/
inductive TagProp where
  | plain (attr : Attribute)
  | directive (directive : Directive)
  deriving DecidableEq, Repr

namespace TagProp

def span : TagProp → Span
  | plain a => a.span
  | directive d => d.span

def directive? : TagProp → Option Directive
  | plain _ => none
  | directive d => some d

end TagProp

/-- An element without its children. The span covers the whole element. -/
structure Tag where
  span : Span
  name : List Char
  props : List TagProp
  selfClosing : Bool
  deriving DecidableEq, Repr

/-- Elements that have no content. -/
def voidElements : List (List Char) :=
  ["area", "base", "br", "col", "embed", "hr", "img", "input", "link", "meta", "param",
    "source", "track", "wbr"].map String.toList

def isVoidElement (name : List Char) : Bool := voidElements.any (sameName · name)

namespace Tag

/-- The directives of the tag, in order. -/
def directives (tag : Tag) : List Directive := tag.props.filterMap TagProp.directive?

/-- The first directive of a kind. -/
def directive? (tag : Tag) (kind : DirectiveKind) : Option Directive :=
  tag.directives.find? (·.kind == kind)

def hasDirective (tag : Tag) (kind : DirectiveKind) : Bool := (tag.directive? kind).isSome

/-- The place of the element in a conditional chain. Where a tag carries several of these
directives, `v-if` counts before `v-else-if`, and that before `v-else`. -/
def branchKind? (tag : Tag) : Option BranchKind :=
  [.ifBranch, .elseIfBranch, .elseBranch].find? fun kind => tag.hasDirective (.branch kind)

/-- A branch has a directive that makes it one. -/
theorem hasDirective_of_branchKind? {tag : Tag} {kind : BranchKind}
    (h : tag.branchKind? = some kind) : tag.hasDirective (.branch kind) = true :=
  List.find?_some (p := fun kind => tag.hasDirective (.branch kind)) h

end Tag

/-- A node of the tree. -/
inductive Node where
  | text (span : Span) (data : List Char) (blank : Bool)
  | interpolation (span : Span) (expressionSpan : Span) (expression : List Char)
  | comment (span : Span) (data : List Char)
  | element (tag : Tag) (children : List Node)
  deriving Repr

namespace Node

def span : Node → Span
  | text span _ _ => span
  | interpolation span _ _ => span
  | comment span _ => span
  | element tag _ => tag.span

/-- The tag of a node that is an element. -/
def tag? : Node → Option Tag
  | element tag _ => some tag
  | _ => none

/-- The place of the node in a conditional chain. -/
def branchKind? (node : Node) : Option BranchKind := node.tag?.bind Tag.branchKind?

/-- Whether the node is white space between other nodes. -/
def isBlankText : Node → Bool
  | text _ _ blank => blank
  | _ => false

end Node

mutual

/-- Nodes can be compared. -/
def Node.decEq : (a b : Node) → Decidable (a = b)
  | .text s d w, .text s' d' w' =>
    decidable_of_iff (s = s' ∧ d = d' ∧ w = w') (by simp)
  | .interpolation s e x, .interpolation s' e' x' =>
    decidable_of_iff (s = s' ∧ e = e' ∧ x = x') (by simp)
  | .comment s d, .comment s' d' => decidable_of_iff (s = s' ∧ d = d') (by simp)
  | .element t cs, .element t' cs' =>
    have := Node.decEqList cs cs'
    decidable_of_iff (t = t' ∧ cs = cs') (by simp)
  | .text .., .interpolation .. => isFalse nofun
  | .text .., .comment .. => isFalse nofun
  | .text .., .element .. => isFalse nofun
  | .interpolation .., .text .. => isFalse nofun
  | .interpolation .., .comment .. => isFalse nofun
  | .interpolation .., .element .. => isFalse nofun
  | .comment .., .text .. => isFalse nofun
  | .comment .., .interpolation .. => isFalse nofun
  | .comment .., .element .. => isFalse nofun
  | .element .., .text .. => isFalse nofun
  | .element .., .interpolation .. => isFalse nofun
  | .element .., .comment .. => isFalse nofun

/-- Lists of nodes can be compared. -/
def Node.decEqList : (as bs : List Node) → Decidable (as = bs)
  | [], [] => isTrue rfl
  | a :: as, b :: bs =>
    have := Node.decEq a b
    have := Node.decEqList as bs
    decidable_of_iff (a = b ∧ as = bs) (by simp)
  | [], _ :: _ => isFalse nofun
  | _ :: _, [] => isFalse nofun

end

instance : DecidableEq Node := Node.decEq

end AstroTemplate
