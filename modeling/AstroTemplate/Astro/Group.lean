import AstroTemplate.Markup.Node

set_option autoImplicit false

/-! # Conditional chains

Among siblings, an element with `v-if`, the `v-else-if` elements directly after it and a final
`v-else` form a chain. `groupSiblings` cuts a list of siblings into chains and single members.
Anything else between two branches, a blank text included, ends the chain. The function asks only
for the place each member has in a chain, so that it works on nodes and on whatever is made of
them alike.
-/

namespace AstroTemplate

/-- A member of a chain and its place there. -/
structure Branch (α : Type) where
  kind : BranchKind
  member : α
  deriving DecidableEq, Repr

/-- Siblings that are generated together. -/
inductive Group (α : Type) where
  | single (member : α)
  | chain (branches : List (Branch α))
  deriving DecidableEq, Repr

namespace Group

variable {α : Type}

/-- The members of the group, in order. -/
def members : Group α → List α
  | single member => [member]
  | chain branches => branches.map Branch.member

/-- The number of members. -/
def size (group : Group α) : Nat := group.members.length

end Group

section

variable {α : Type} (kind? : α → Option BranchKind)

/-- The branches that continue a chain, and the siblings after it. -/
def takeBranches : List α → List (Branch α) × List α
  | [] => ([], [])
  | a :: rest =>
    match kind? a with
    | some .elseIfBranch =>
      (⟨.elseIfBranch, a⟩ :: (takeBranches rest).1, (takeBranches rest).2)
    | some .elseBranch => ([⟨.elseBranch, a⟩], rest)
    | _ => ([], a :: rest)

/-- The branches and the siblings after them are all the siblings. -/
theorem takeBranches_append (siblings : List α) :
    (takeBranches kind? siblings).1.map Branch.member ++ (takeBranches kind? siblings).2
      = siblings := by
  induction siblings with
  | nil => rfl
  | cons a rest ih =>
    unfold takeBranches
    split
    · simpa using ih
    · rfl
    · rfl

theorem takeBranches_length_le (siblings : List α) :
    (takeBranches kind? siblings).2.length ≤ siblings.length := by
  have := congrArg List.length (takeBranches_append kind? siblings)
  simp at this
  omega

/-- The siblings cut into groups. -/
def groupSiblings : List α → List (Group α)
  | [] => []
  | a :: rest =>
    if kind? a = some .ifBranch then
      have := takeBranches_length_le kind? rest
      .chain (⟨.ifBranch, a⟩ :: (takeBranches kind? rest).1)
        :: groupSiblings (takeBranches kind? rest).2
    else .single a :: groupSiblings rest
termination_by siblings => siblings.length
decreasing_by
  · simp
    omega
  · simp

end

/-- The groups of a list of nodes. -/
def Node.group (nodes : List Node) : List (Group Node) := groupSiblings Node.branchKind? nodes

end AstroTemplate
