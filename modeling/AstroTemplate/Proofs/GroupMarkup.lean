import AstroTemplate.Astro.Generate
import AstroTemplate.Proofs.Chains
import Mathlib.Data.List.Basic

set_option autoImplicit false

/-! # Markup from the groups of nodes

Nodes are written one by one and the written nodes are grouped; here the nodes are grouped, and each
group has its text (`generate_eq_group`). Of a node this text asks for three things only
(`Node.View`), so nodes that agree in them can take each other's place (`generate_congr`).
-/

namespace AstroTemplate

theorem Node.pieces_eq_map (nodes : List Node) : Node.pieces nodes = nodes.map Node.piece := by
  induction nodes with
  | nil => rfl
  | cons node rest ih => rw [Node.pieces, ih, List.map_cons]

/-- A written node has the place in a chain that the node has. -/
theorem Node.branchKind?_piece : Piece.branchKind? ∘ Node.piece = Node.branchKind? := by
  funext node
  cases node <;> rfl

/-- The text of a group of nodes. -/
def Group.text (group : Group Node) : List Char := (group.map Node.piece).render

/-- Markup is generated from the groups of the nodes. -/
theorem generate_eq_group (nodes : List Node) :
    generate nodes = (Node.group nodes).flatMap Group.text := by
  rw [generate, renderPieces, Node.pieces_eq_map, groupSiblings_map, Node.branchKind?_piece,
    List.flatMap_map]
  rfl

/-! ## Branches and chains -/

/-- The text of a branch: its condition and the element, or the element alone if it needs no
condition. -/
def Branch.text (branch : Branch (Piece (List Char))) : List Char :=
  match branch.condition? with
  | some condition => condition ++ " ? (".toList ++ branch.member.content ++ ") : ".toList
  | none => "(".toList ++ branch.member.content ++ ")".toList

/-- The text of a node as a branch of some kind. -/
def Node.branchText (kind : BranchKind) (node : Node) : List Char :=
  Branch.text ⟨kind, node.piece⟩

theorem renderChain_cons (branch : Branch (Piece (List Char)))
    (rest : List (Branch (Piece (List Char)))) :
    renderChain (branch :: rest)
      = branch.text ++ if branch.condition?.isSome then renderChain rest else [] := by
  rw [renderChain, Branch.text]
  cases branch.condition? with
  | none => simp
  | some condition => simp

/-- All branches but the last one of a chain have a condition. -/
theorem condition?_isSome_iff {node : Node} {kind : BranchKind} (h : node.branchKind? = some kind) :
    (Branch.condition? ⟨kind, node.piece⟩).isSome = true ↔ kind ≠ .elseBranch := by
  cases node with
  | element tag children => cases kind <;> simp [Branch.condition?, Node.piece, Tag.condition?]
  | text => cases h
  | interpolation => cases h
  | comment => cases h

theorem renderChain_append {branches : List (Branch (Piece (List Char)))}
    (h : ∀ branch ∈ branches, branch.condition?.isSome = true)
    (rest : List (Branch (Piece (List Char)))) :
    renderChain (branches ++ rest) = branches.flatMap Branch.text ++ renderChain rest := by
  induction branches with
  | nil => rfl
  | cons branch branches ih =>
      rw [List.cons_append, renderChain_cons, if_pos (h branch List.mem_cons_self),
        ih fun b hb => h b (List.mem_cons_of_mem branch hb), List.flatMap_cons, List.append_assoc]

/-- The text of a chain begins with the texts of the branches that have a condition. -/
theorem text_chain {head : Node} {between : List Node} (hhead : head.branchKind? = some .ifBranch)
    (hbetween : ∀ n ∈ between, n.branchKind? = some .elseIfBranch) (more : List (Branch Node)) :
    Group.text (.chain (⟨.ifBranch, head⟩ :: (between.map (Branch.mk .elseIfBranch) ++ more)))
      = inBraces (head.branchText .ifBranch ++ (between.flatMap (Node.branchText .elseIfBranch)
          ++ renderChain (more.map (Branch.map Node.piece)))) := by
  have hpieces : (between.map (Branch.mk .elseIfBranch)).map (Branch.map Node.piece)
      = between.map fun n => ⟨.elseIfBranch, n.piece⟩ := List.map_map
  have hconditions : ∀ branch ∈ between.map fun n => Branch.mk .elseIfBranch n.piece,
      branch.condition?.isSome = true := by
    intro branch hbranch
    obtain ⟨n, hn, rfl⟩ := List.mem_map.1 hbranch
    exact (condition?_isSome_iff (hbetween n hn)).2 (by simp)
  have hfirst : (Branch.condition? (.map Node.piece ⟨.ifBranch, head⟩)).isSome = true :=
    (condition?_isSome_iff hhead).2 (by simp)
  rw [Group.text, Group.map, Group.render, List.map_cons, List.map_append, hpieces,
    renderChain_cons, if_pos hfirst, renderChain_append hconditions, List.flatMap_map]
  rfl

/-- A first branch takes the branches after it into its chain. -/
theorem generate_cons_if {head : Node} (h : head.branchKind? = some .ifBranch)
    (rest : List Node) :
    generate (head :: rest) = inBraces (head.branchText .ifBranch
      ++ renderChain ((takeBranches Node.branchKind? rest).1.map (Branch.map Node.piece)))
        ++ generate (takeBranches Node.branchKind? rest).2 := by
  rw [generate_eq_group, generate_eq_group, Node.group, groupSiblings, if_pos h, List.flatMap_cons]
  exact congrArg (· ++ _) (text_chain h (List.forall_mem_nil _) _)

/-- Every other node is written on its own. -/
theorem generate_cons_of_ne_if {node : Node} (h : node.branchKind? ≠ some .ifBranch)
    (rest : List Node) : generate (node :: rest) = node.piece.renderSingle ++ generate rest := by
  rw [generate_eq_group, generate_eq_group, Node.group, groupSiblings, if_neg h, List.flatMap_cons]
  rfl

/-! ## What is asked of a node -/

/-- What becomes of a node among any siblings: its place in a chain, its text where it stands alone,
and its text as a branch. -/
structure Node.View where
  kind? : Option BranchKind
  alone : List Char
  branch : List Char

def Node.view (node : Node) : Node.View :=
  ⟨node.branchKind?, node.piece.renderSingle,
    (node.branchKind?.map fun kind => node.branchText kind).getD []⟩

/-- The text of a chain from what is asked of its members. -/
def chainText : List (Branch Node.View) → List Char
  | [] => "null".toList
  | branch :: rest =>
    branch.member.branch ++ if branch.kind = .elseBranch then [] else chainText rest

/-- The text of a group from what is asked of its members. -/
def Group.viewText : Group Node.View → List Char
  | .single view => view.alone
  | .chain branches => inBraces (chainText branches)

theorem renderChain_eq_chainText {branches : List (Branch Node)}
    (h : ∀ branch ∈ branches, branch.member.branchKind? = some branch.kind) :
    renderChain (branches.map (Branch.map Node.piece))
      = chainText (branches.map (Branch.map Node.view)) := by
  induction branches with
  | nil => rfl
  | cons branch rest ih =>
      have hkind := h branch List.mem_cons_self
      have htext : (branch.map Node.piece).text = branch.member.view.branch := by
        rw [Node.view, hkind]
        rfl
      have hsome : (branch.map Node.piece).condition?.isSome = true ↔ branch.kind ≠ .elseBranch :=
        condition?_isSome_iff hkind
      rw [List.map_cons, List.map_cons, renderChain_cons, chainText, htext,
        ih fun b hb => h b (List.mem_cons_of_mem branch hb)]
      by_cases helse : branch.kind = .elseBranch
      · rw [if_neg fun hs => hsome.1 hs helse]
        exact congrArg (_ ++ ·) (if_pos helse).symm
      · rw [if_pos (hsome.2 helse)]
        exact congrArg (_ ++ ·) (if_neg helse).symm

theorem generate_eq_view (nodes : List Node) :
    generate nodes
      = (groupSiblings Node.View.kind? (nodes.map Node.view)).flatMap Group.viewText := by
  have hgroups : groupSiblings Node.View.kind? (nodes.map Node.view)
      = (Node.group nodes).map (Group.map Node.view) := groupSiblings_map ..
  rw [generate_eq_group, hgroups, List.flatMap_map]
  refine List.flatMap_congr fun group hgroup => ?_
  cases group with
  | single node => rfl
  | chain branches =>
      exact congrArg inBraces
        (renderChain_eq_chainText fun _ hb => kind_of_mem_chain Node.branchKind? hgroup hb)

/-- Nodes of which the same is asked can take each other's place. -/
theorem generate_congr {nodes others : List Node}
    (h : nodes.map Node.view = others.map Node.view) : generate nodes = generate others := by
  rw [generate_eq_view, generate_eq_view, h]

theorem Node.piece_element (tag : Tag) (children : List Node) :
    (Node.element tag children).piece = ⟨some tag, tag.renderExpression (generate children)⟩ := by
  rw [Node.piece, generate]

/-- The same is asked of elements that have the same place in a chain, are both repeated or not, are
written in the same way, and as branches have the same condition. -/
theorem Node.view_element_congr {tag other : Tag} {children others : List Node}
    (hkind : other.branchKind? = tag.branchKind?) (hloop : other.loop? = tag.loop?)
    (htext : other.renderExpression (generate others) = tag.renderExpression (generate children))
    (hcondition : ∀ place, tag.branchKind? = some place →
      other.condition? place = tag.condition? place) :
    (Node.element other others).view = (Node.element tag children).view := by
  have hplace : (Node.element other others).branchKind? = (Node.element tag children).branchKind? :=
    hkind
  have hsingle : (Node.element other others).piece.renderSingle
      = (Node.element tag children).piece.renderSingle := by
    rw [Node.piece_element, Node.piece_element, Piece.renderSingle, Piece.renderSingle, htext]
    dsimp only
    rw [hloop]
  rw [Node.view, Node.view, hplace, hsingle]
  cases hsome : (Node.element tag children).branchKind? with
  | none => rfl
  | some place =>
      have hbranch : (Node.element other others).branchText place
          = (Node.element tag children).branchText place := by
        rw [Node.branchText, Node.branchText, Node.piece_element, Node.piece_element, htext,
          Branch.text, Branch.text, Branch.condition?, Branch.condition?]
        dsimp only [Option.bind_some]
        rw [hcondition place hsome]
      rw [Option.map_some, Option.map_some, hbranch]

end AstroTemplate
