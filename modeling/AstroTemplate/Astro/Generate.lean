import AstroTemplate.Astro.Group
import AstroTemplate.Astro.Loop
import AstroTemplate.Astro.Visibility

set_option autoImplicit false

/-! # Generating markup

`generate` writes a list of siblings. Each sibling is first written on its own, as it would stand
inside an expression; its children are written the same way. The written siblings are then
grouped, and each group takes its place in the markup: a chain as one conditional expression, a
loop inside braces, and everything else as it is.
-/

namespace AstroTemplate

/-- Something made of a node, with the tag of the node if it has one. -/
structure Piece (β : Type) where
  tag? : Option Tag
  content : β

/-- The place of the piece in a conditional chain. -/
def Piece.branchKind? {β : Type} (piece : Piece β) : Option BranchKind :=
  piece.tag?.bind Tag.branchKind?

/-- The text `s` between braces. -/
def inBraces (s : List Char) : List Char := "\x7b".toList ++ s ++ "\x7d".toList

namespace Tag

/-- The loop that the tag asks for. -/
def loop? (tag : Tag) : Option Loop :=
  (tag.directive? .loop).map fun d => Loop.read (d.expression?.getD [])

/-- The name of the generated tag. A `template` that only carries a condition or a loop leaves no
element behind. -/
def outName (tag : Tag) : List Char :=
  if tag.name = "template".toList ∧ (tag.conditional?.isSome ∨ (tag.directive? .loop).isSome) then
    "Fragment".toList
  else tag.name

/-- The element around its written children. -/
def renderElement (tag : Tag) (children : List Char) : List Char :=
  let start := '<' :: tag.outName ++ tag.outAttrs.flatMap OutAttr.render
  let stop := "</".toList ++ tag.outName ++ ">".toList
  match tag.content? with
  | some content =>
    start ++ " ".toList ++ content.attr ++ "=".toList ++ inBraces content.expression
      ++ ">".toList ++ stop
  | none => start ++ ">".toList ++ children ++ stop

/-- The element as an expression, which repeats it if there is a loop. -/
def renderExpression (tag : Tag) (children : List Char) : List Char :=
  match tag.loop? with
  | some loop =>
    loop.iterable ++ ".map((".toList ++ loop.params ++ ") => (".toList
      ++ tag.renderElement children ++ "))".toList
  | none => tag.renderElement children

end Tag

/-- A written sibling that stands alone in the markup. -/
def Piece.renderSingle (piece : Piece (List Char)) : List Char :=
  match piece.tag? with
  | some tag => if tag.loop?.isSome then inBraces piece.content else piece.content
  | none => piece.content

/-- The condition of a branch. -/
def Branch.condition? {β : Type} (branch : Branch (Piece β)) : Option (List Char) :=
  branch.member.tag?.bind fun tag => tag.condition? branch.kind

/-- A chain as nested conditional expressions. -/
def renderChain : List (Branch (Piece (List Char))) → List Char
  | [] => "null".toList
  | branch :: rest =>
    match branch.condition? with
    | some condition =>
      condition ++ " ? (".toList ++ branch.member.content ++ ") : ".toList ++ renderChain rest
    | none => "(".toList ++ branch.member.content ++ ")".toList

def Group.render : Group (Piece (List Char)) → List Char
  | single piece => piece.renderSingle
  | chain branches => inBraces (renderChain branches)

/-- Written siblings, put together. -/
def renderPieces (pieces : List (Piece (List Char))) : List Char :=
  (groupSiblings Piece.branchKind? pieces).flatMap Group.render

mutual

/-- A node written on its own. -/
def Node.piece : Node → Piece (List Char)
  | .text _ data _ => ⟨none, data⟩
  | .interpolation _ _ expression => ⟨none, inBraces expression⟩
  | .comment _ data => ⟨none, "<!--".toList ++ data ++ "-->".toList⟩
  | .element tag children =>
    ⟨some tag, tag.renderExpression (renderPieces (Node.pieces children))⟩

/-- Siblings, each written on its own. -/
def Node.pieces : List Node → List (Piece (List Char))
  | [] => []
  | node :: rest => node.piece :: Node.pieces rest

end

/-- The markup for a list of siblings. -/
def generate (nodes : List Node) : List Char := renderPieces (Node.pieces nodes)

end AstroTemplate
