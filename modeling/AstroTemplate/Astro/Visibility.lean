import AstroTemplate.Astro.Attr

set_option autoImplicit false

/-! # Visibility as a style

`v-show` becomes part of the `style` of the element: the style hides the element where the
condition fails. An element that has a style keeps it; the first one it has takes the condition
in.
-/

namespace AstroTemplate

/-- The style of an element that is not shown. -/
def hiddenStyle : List Char := "display: none;".toList

/-- An expression for the style that `condition` asks for. -/
def visibilityTernary (condition : List Char) : List Char :=
  "(".toList ++ condition ++ ") ? '' : '".toList ++ hiddenStyle ++ "'".toList

/-- A fixed style followed by the one that `condition` asks for, as a template literal. -/
def styleTemplate (style condition : List Char) : List Char :=
  let trimmed := trimEnd style
  let separator := if trimmed.isEmpty || trimmed.getLast? == some ';' then [] else [';']
  "`".toList ++ escapeBackticks style ++ separator ++ "$\x7b".toList ++ condition
    ++ " ? '' : '".toList ++ hiddenStyle ++ "'\x7d`".toList

/-- A computed style followed by the one that `condition` asks for. -/
def styleSum (expression : Option (List Char)) (condition : List Char) : List Char :=
  "(".toList ++ expression.getD "''".toList ++ " ?? '') + (".toList
    ++ visibilityTernary condition ++ ")".toList

def isStyleName (name : List Char) : Bool := sameName name "style".toList

/-- A style attribute that takes a condition in; other attributes do not. -/
def OutAttr.withVisibility? (condition : List Char) : OutAttr → Option OutAttr
  | .static name value =>
    if isStyleName name then some (.bound name (some (styleTemplate (value.getD []) condition)))
    else none
  | .bound name expression =>
    if isStyleName name then some (.bound name (some (styleSum expression condition))) else none
  | _ => none

/-- The attributes with a condition taken in by the first style, or by a new one at the end. -/
def mergeVisibility (condition : List Char) : List OutAttr → List OutAttr
  | [] => [.bound "style".toList (some (visibilityTernary condition))]
  | attr :: rest =>
    match attr.withVisibility? condition with
    | some merged => merged :: rest
    | none => attr :: mergeVisibility condition rest

/-- The attributes of a generated tag. -/
def Tag.outAttrs (tag : Tag) : List OutAttr :=
  match tag.visibleWhen? with
  | some condition => mergeVisibility condition tag.attrs
  | none => tag.attrs

end AstroTemplate
