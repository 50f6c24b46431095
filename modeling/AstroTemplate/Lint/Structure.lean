import AstroTemplate.Astro.Note
import AstroTemplate.Lint.Diagnostic

set_option autoImplicit false

/-! # Checks of the structure

A branch outside a chain, an attribute that is set twice, and a control directive that is given
twice are reported. Siblings are checked for chains first, then one by one, each before its
children.
-/

namespace AstroTemplate

/-- What a control directive decides; an element follows one directive for each. -/
inductive ControlRole where
  | conditional
  | loop
  | visibility
  | html
  | text
  deriving DecidableEq, Repr

/-- The role of a directive of a kind, if it is a control directive. -/
def DirectiveKind.controlRole? : DirectiveKind → Option ControlRole
  | branch _ => some .conditional
  | loop => some .loop
  | visibility => some .visibility
  | html => some .html
  | text => some .text
  | _ => none

/-- The members whose key an earlier member has, with that key; `seen` are the keys of the
members before these. -/
def repeated {α β : Type} [DecidableEq β] (key? : α → Option β) (seen : List β) :
    List α → List (α × β)
  | [] => []
  | a :: rest =>
    match key? a with
    | none => repeated key? seen rest
    | some key =>
      if key ∈ seen then (a, key) :: repeated key? seen rest
      else repeated key? (key :: seen) rest

/-- The name of the attribute that a prop sets, in lower case. -/
def TagProp.setName? : TagProp → Option (List Char)
  | plain a => some (lower a.name)
  | directive d => if d.kind = .bind then d.staticArgument?.map lower else none

namespace Tag

/-- Attributes that are set more than once. -/
def repeatedAttributes (tag : Tag) : List Diagnostic :=
  (repeated TagProp.setName? [] tag.props).map fun (prop, name) =>
    .ofCode .duplicateAttribute
      ("`" ++ String.ofList name ++ "` is set more than once on <" ++ String.ofList tag.name
        ++ ">") prop.span

/-- Control directives that come too late. -/
def repeatedDirectives (tag : Tag) : List Diagnostic :=
  (repeated (·.kind.controlRole?) [] tag.directives).map fun (d, role) =>
    let earlier :=
      if role = .conditional then "conditional" else "`v-" ++ String.ofList d.name ++ "`"
    .ofCode .duplicateDirective
      ("`" ++ String.ofList d.rawName ++ "` is ignored; <" ++ String.ofList tag.name
        ++ "> already has a " ++ earlier ++ " directive") d.span

/-- A branch that belongs to no chain. -/
def orphanBranch (tag : Tag) : List Diagnostic :=
  let report := fun (kind : BranchKind) (written : String) =>
    [Diagnostic.ofCode .orphanElse
      ("`" ++ written ++ "` on <" ++ String.ofList tag.name
        ++ "> has no preceding `v-if` sibling and is rendered unconditionally")
      (((tag.directive? (.branch kind)).map (·.span)).getD tag.span)]
  match tag.branchKind? with
  | some .elseIfBranch => report .elseIfBranch "v-else-if"
  | some .elseBranch => report .elseBranch "v-else"
  | _ => []

end Tag

/-- The branches among siblings that belong to no chain. -/
def orphanBranches (nodes : List Node) : List Diagnostic :=
  (Node.group nodes).flatMap fun group =>
    match group with
    | .single node => (node.tag?.map Tag.orphanBranch).getD []
    | .chain _ => []

mutual

/-- The checks of one node and what is inside it. -/
def Node.checkStructure : Node → List Diagnostic
  | .element tag children =>
    tag.repeatedAttributes ++ tag.repeatedDirectives
      ++ (orphanBranches children ++ Node.checkStructures children)
  | _ => []

/-- The checks of siblings one by one. -/
def Node.checkStructures : List Node → List Diagnostic
  | [] => []
  | node :: rest => node.checkStructure ++ Node.checkStructures rest

end

/-- The checks of a list of siblings and what is inside them. -/
def checkStructure (nodes : List Node) : List Diagnostic :=
  orphanBranches nodes ++ Node.checkStructures nodes

mutual

/-- The notes on grouping what is inside a node. -/
def Node.structureNotes : Node → List Note
  | .element _ children =>
    chainNotes Node.tag? (Node.group children) ++ Node.structuresNotes children
  | _ => []

/-- The notes on grouping what is inside siblings. -/
def Node.structuresNotes : List Node → List Note
  | [] => []
  | node :: rest => node.structureNotes ++ Node.structuresNotes rest

end

/-- The notes on the grouping that the checks of a list of siblings do. -/
def structureNotes (nodes : List Node) : List Note :=
  chainNotes Node.tag? (Node.group nodes) ++ Node.structuresNotes nodes

end AstroTemplate
