import AstroTemplate.Astro.Loop
import AstroTemplate.Astro.Visibility
import AstroTemplate.Lint.Diagnostic

set_option autoImplicit false

/-! # Checks of the meaning

Where the generated markup cannot mean what the template means, this is reported: content that
is replaced, loops that are not understood, handlers that never run, directives without a
counterpart, and styles that do not go together with `v-show`.
-/

namespace AstroTemplate

namespace Tag

/-- Content that is set twice, and children that are replaced. -/
def checkContent (tag : Tag) (children : List Node) : List Diagnostic :=
  let html := tag.directive? .html
  let text := tag.directive? .text
  let conflict := match html, text with
    | some _, some t =>
      [Diagnostic.ofCode .conflictingContentDirectives
        ("<" ++ String.ofList tag.name ++ "> has both `v-html` and `v-text`; `v-text` is ignored")
        t.span]
    | _, _ => []
  let discarded := match html.or text with
    | some d =>
      if children.any (! ·.isBlankText) then
        [Diagnostic.ofCode .contentDirectiveDiscardsChildren
          ("the children of <" ++ String.ofList tag.name ++ "> are replaced by `"
            ++ String.ofList d.rawName ++ "`") d.span]
      else []
    | none => []
  conflict ++ discarded

/-- A style that is not text and takes the condition of `v-show` in. -/
def checkVisibility (tag : Tag) : List Diagnostic :=
  if tag.hasDirective .visibility then
    match tag.directives.find? fun d => d.kind == .bind && d.staticArgument?.any isStyleName with
    | some d =>
      match trimStart (d.expression?.getD []) with
      | '\x7b' :: _ | '[' :: _ =>
        [.ofCode .dynamicStyleObject
          ("`v-show` is merged into `:style` by string concatenation; "
            ++ "an object or array style becomes invalid") d.span]
      | _ => []
    | none => []
  else []

end Tag

namespace Directive

/-- A loop that is not understood, or not in full. -/
def checkLoop (d : Directive) : List Diagnostic :=
  match d.expression? with
  | none => [.ofCode .malformedFor "`v-for` has no expression" d.span]
  | some expression =>
    let loop := Loop.read expression
    if !loop.wellFormed then
      [.ofCode .malformedFor
        ("`v-for=\"" ++ String.ofList (trim expression)
          ++ "\"` is not of the form `item in source`; iterating it as `item`") d.span]
    else if !loop.extraAliases.isEmpty then
      [.ofCode .malformedFor
        ("`v-for` alias `" ++ String.ofList (joinWith "`, `".toList loop.extraAliases)
          ++ "` has no counterpart in `.map()` and is undefined in the output") d.span]
    else []

/-- A directive without a counterpart. -/
def unsupported (d : Directive) : Diagnostic :=
  let written := String.ofList d.rawName
  .ofCode .unsupportedDirective
    (if d.name = "model".toList then
      "`v-model` two-way binding has no Astro equivalent and is dropped"
    else if d.name = "slot".toList then
      "`" ++ written ++ "` is dropped; use Astro's `slot` attribute and `<slot />` instead"
    else "`" ++ written ++ "` has no Astro equivalent and is dropped") d.span

/-- The checks of one directive. -/
def checkMeaning (d : Directive) : List Diagnostic :=
  match d.kind with
  | .loop => d.checkLoop
  | .on =>
    [.ofCode .inertEventHandler
      ("`" ++ String.ofList d.rawName ++ "` is kept as an inert `data-on-"
        ++ String.ofList (d.staticArgument?.getD "event".toList)
        ++ "` attribute; the handler never runs") d.span]
  | .other => [d.unsupported]
  | _ => []

end Directive

mutual

/-- The checks of one node and what is inside it. -/
def Node.checkMeaning : Node → List Diagnostic
  | .element tag children =>
    tag.checkContent children ++ tag.directives.flatMap Directive.checkMeaning
      ++ tag.checkVisibility ++ Node.checkMeanings children
  | _ => []

/-- The checks of siblings and what is inside them. -/
def Node.checkMeanings : List Node → List Diagnostic
  | [] => []
  | node :: rest => node.checkMeaning ++ Node.checkMeanings rest

end

/-- The checks of a list of siblings and what is inside them. -/
def checkMeaning (nodes : List Node) : List Diagnostic := Node.checkMeanings nodes

end AstroTemplate
