import AstroTemplate.Astro.Generate

set_option autoImplicit false

/-! # Notes on generation

What a verbose run tells about the work of the generator: which siblings it took for a chain,
which branches it found without one, and which directives it dropped. The notes on a list of
siblings come in the order of the work: first the siblings are grouped, then they are written.
-/

namespace AstroTemplate

/-- A note on generation. -/
inductive Note where
  | chain (branches : Nat) (name : List Char)
  | orphanBranch (name : List Char)
  | droppedDirective (rawName : List Char)
  deriving DecidableEq, Repr

/-- The notes on grouping: one for each chain of more than one branch. -/
def chainNotes {α : Type} (tag? : α → Option Tag) (groups : List (Group α)) : List Note :=
  groups.filterMap fun group =>
    match group with
    | .chain (first :: _ :: rest) =>
      (tag? first.member).map fun tag => .chain (rest.length + 2) tag.name
    | _ => none

/-- The notes on the attributes of a tag. -/
def Tag.attrNotes (tag : Tag) : List Note :=
  tag.outAttrs.filterMap fun attr =>
    match attr with
    | .unsupported rawName => some (.droppedDirective rawName)
    | _ => none

/-- The notes on a group whose members have been noted. -/
def Group.notes : Group (Piece (List Note)) → List Note
  | single piece =>
    (piece.tag?.filter (·.conditional?.isSome)).toList.map (.orphanBranch ·.name)
      ++ piece.content
  | chain branches => branches.flatMap fun branch => branch.member.content

/-- The notes on siblings that have been noted. -/
def pieceNotes (pieces : List (Piece (List Note))) : List Note :=
  let groups := groupSiblings Piece.branchKind? pieces
  chainNotes Piece.tag? groups ++ groups.flatMap Group.notes

mutual

/-- The notes on a node. Injected content leaves no children to write. -/
def Node.notePiece : Node → Piece (List Note)
  | .element tag children =>
    ⟨some tag, tag.attrNotes
      ++ (if tag.content?.isSome then [] else pieceNotes (Node.notePieces children))⟩
  | _ => ⟨none, []⟩

/-- The notes on siblings, each on its own. -/
def Node.notePieces : List Node → List (Piece (List Note))
  | [] => []
  | node :: rest => node.notePiece :: Node.notePieces rest

end

/-- The notes on generating a list of siblings. -/
def generationNotes (nodes : List Node) : List Note := pieceNotes (Node.notePieces nodes)

end AstroTemplate
