import AstroTemplate.Proofs.GroupMarkup
import AstroTemplate.Proofs.StructureReports

set_option autoImplicit false

/-! # Branches without a chain

A branch with `v-else-if` or `v-else` needs the first branch of a chain before it, with nothing but
`v-else-if` branches between the two (`PrecededByIf`). The checks report exactly the branches that
have none, and these are the branches that the generator writes outside of a conditional
expression.
-/

namespace AstroTemplate

/-! ## What the checks report -/

/-- The directive that makes the element a branch after the first one of a chain. -/
def Tag.laterBranch? (tag : Tag) : Option Directive :=
  match tag.branchKind? with
  | some .elseIfBranch => tag.directive? (.branch .elseIfBranch)
  | some .elseBranch => tag.directive? (.branch .elseBranch)
  | _ => none

/-- The directives among siblings that make an element a later branch and have no chain before
them. -/
def orphanDirectives (siblings : List Node) : List Directive :=
  siblings.zipIdx.flatMap fun place =>
    if PrecededByIf Node.branchKind? (siblings.take place.2) then []
    else (place.1.tag?.bind Tag.laterBranch?).toList

theorem Tag.span_orphanBranch (tag : Tag) :
    tag.orphanBranch.map Diagnostic.span = tag.laterBranch?.toList.map Directive.span := by
  unfold Tag.orphanBranch Tag.laterBranch?
  cases hkind : tag.branchKind? with
  | none => rfl
  | some kind =>
      obtain ⟨d, hd⟩ := Option.isSome_iff_exists.1 (Tag.hasDirective_of_branchKind? hkind)
      cases kind with
      | ifBranch => rfl
      | elseIfBranch => simp [hd, Diagnostic.ofCode]
      | elseBranch => simp [hd, Diagnostic.ofCode]

/-- Only later branches are reported as having no chain. -/
theorem Tag.orphanBranch_eq_nil {tag : Tag} (helseIf : tag.branchKind? ≠ some .elseIfBranch)
    (helse : tag.branchKind? ≠ some .elseBranch) : tag.orphanBranch = [] := by
  unfold Tag.orphanBranch
  cases hkind : tag.branchKind? with
  | none => rfl
  | some kind =>
      cases kind with
      | ifBranch => rfl
      | elseIfBranch => exact absurd hkind helseIf
      | elseBranch => exact absurd hkind helse

/-- The reports on a node that stands alone. -/
def Node.orphanReports (node : Node) : List Diagnostic := (node.tag?.map Tag.orphanBranch).getD []

theorem orphanBranches_eq (siblings : List Node) :
    orphanBranches siblings = siblings.zipIdx.flatMap fun place =>
      if PrecededByIf Node.branchKind? (siblings.take place.2) then []
      else place.1.orphanReports := by
  have halone : orphanBranches siblings
      = (Node.group siblings).flatMap (Group.alone Node.orphanReports) := by
    refine congrArg (List.flatMap · (Node.group siblings)) ?_
    funext group
    cases group <;> rfl
  have hnone : ∀ node : Node, node.branchKind? ≠ some .elseIfBranch →
      node.branchKind? ≠ some .elseBranch → node.orphanReports = [] := by
    intro node helseIf helse
    cases node with
    | element tag children => exact Tag.orphanBranch_eq_nil helseIf helse
    | text => rfl
    | interpolation => rfl
    | comment => rfl
  rw [halone]
  exact (flatMap_alone Node.branchKind? hnone false siblings).trans
    (outsideChains_eq Node.branchKind? [] siblings)

theorem span_orphanBranches (siblings : List Node) :
    (orphanBranches siblings).map Diagnostic.span
      = (orphanDirectives siblings).map Directive.span := by
  rw [orphanBranches_eq, orphanDirectives, List.map_flatMap, List.map_flatMap]
  congr 1
  funext place
  split
  · rfl
  · obtain ⟨node, i⟩ := place
    cases node with
    | element tag children => exact tag.span_orphanBranch
    | text => rfl
    | interpolation => rfl
    | comment => rfl

/-! ## What the generator writes -/

/-- Between the markup for its earlier and its later siblings the node is written as if it were
alone. -/
def WrittenAlone (before : List Node) (node : Node) (after : List Node) : Prop :=
  generate (before ++ node :: after)
    = generate before ++ (node.piece.renderSingle ++ generate after)

/-- The node is written as a branch of a conditional expression that its earlier siblings begin. -/
def WrittenAsBranch (kind : BranchKind) (before : List Node) (node : Node) (after : List Node) :
    Prop :=
  ∃ earlier head between tail later, before = earlier ++ head :: between ∧
    head.branchKind? = some .ifBranch ∧ (∀ n ∈ between, n.branchKind? = some .elseIfBranch) ∧
    later <:+ after ∧
    generate (before ++ node :: after)
      = generate earlier ++ (inBraces (head.branchText .ifBranch
          ++ (between.flatMap (Node.branchText .elseIfBranch)
            ++ (node.branchText kind ++ tail))) ++ generate later)

section

variable {before : List Node} {node : Node} {kind : BranchKind}

theorem writtenAlone_of_not_precededByIf (hkind : node.branchKind? = some kind)
    (hlater : kind ≠ .ifBranch) (h : ¬ PrecededByIf Node.branchKind? before) (after : List Node) :
    WrittenAlone before node after := by
  rw [WrittenAlone, generate_eq_group, generate_eq_group, generate_eq_group, Node.group,
    groupSiblings_of_not_precededByIf _ hkind hlater h, List.flatMap_append, List.flatMap_cons]
  rfl

theorem writtenAsBranch_of_precededByIf (hkind : node.branchKind? = some kind)
    (hlater : kind ≠ .ifBranch) (h : PrecededByIf Node.branchKind? before) (after : List Node) :
    WrittenAsBranch kind before node after := by
  obtain ⟨earlier, head, between, rfl, hhead, hbetween⟩ := h
  obtain ⟨more, later, htake, hsuffix⟩ :=
    exists_takeBranches_cons Node.branchKind? hkind hlater after
  have hnode : ∃ tail, renderChain ((⟨kind, node⟩ :: more).map (Branch.map Node.piece))
      = node.branchText kind ++ tail := ⟨_, renderChain_cons ..⟩
  obtain ⟨tail, hnode⟩ := hnode
  refine ⟨earlier, head, between, tail, later, rfl, hhead, hbetween, hsuffix, ?_⟩
  rw [generate_eq_group, generate_eq_group, generate_eq_group, Node.group,
    groupSiblings_cons_if _ hhead hbetween, htake, List.flatMap_append, List.flatMap_cons,
    text_chain hhead hbetween, hnode]
  rfl

end

/-- An element that does not replace its children has the markup for them inside its own. -/
theorem Node.exists_content_eq {tag : Tag} (h : tag.content? = none) (children : List Node) :
    ∃ start stop, (Node.element tag children).piece.content
      = start ++ (generate children ++ stop) := by
  have helement : ∃ start stop, tag.renderElement (generate children)
      = start ++ (generate children ++ stop) := by
    rw [Tag.renderElement, h]
    exact ⟨_, _, List.append_assoc ..⟩
  obtain ⟨start, stop, helement⟩ := helement
  rw [Node.piece, ← generate, Tag.renderExpression, helement]
  cases tag.loop? with
  | none => exact ⟨start, stop, rfl⟩
  | some loop =>
      exact ⟨loop.iterable ++ ".map((".toList ++ loop.params ++ ") => (".toList ++ start,
        stop ++ "))".toList, by simp only [List.append_assoc]⟩

/-- An element that replaces its children does not ask for them. -/
theorem Node.piece_eq_of_content? {tag : Tag} (h : tag.content? ≠ none)
    (children other : List Node) :
    (Node.element tag children).piece = (Node.element tag other).piece := by
  have helement : ∀ s t, tag.renderElement s = tag.renderElement t := by
    intro s t
    unfold Tag.renderElement
    cases hcontent : tag.content? with
    | none => exact absurd hcontent h
    | some content => rfl
  rw [Node.piece, Node.piece, Tag.renderExpression, Tag.renderExpression,
    helement (renderPieces (Node.pieces children)) (renderPieces (Node.pieces other))]

/-- The checks report a branch without a chain once for each later branch, at any depth, before
which there is no first branch with nothing but branches with a condition between the two, and they
report it at the first directive that makes it a branch. These are the later branches that the
generator takes for siblings of their own and writes outside of a conditional expression, wherever
it comes to their siblings: it does so from the list of all nodes, and from an element that keeps
its children. -/
theorem checkStructure_orphanElse (nodes : List Node) :
    ((checkStructure nodes).filter (·.code = .orphanElse)).map Diagnostic.span
        = (Node.siblingLists nodes).flatMap
            (fun siblings => (orphanDirectives siblings).map Directive.span) ∧
      (Node.siblingLists nodes).flatten.Perm (Node.all nodes) ∧
      (∀ before node after kind, node.branchKind? = some kind → kind ≠ .ifBranch →
        (Node.group (before ++ node :: after)
            = Node.group before ++ .single node :: Node.group after ↔
          ¬ PrecededByIf Node.branchKind? before) ∧
        (¬ PrecededByIf Node.branchKind? before → WrittenAlone before node after) ∧
        (PrecededByIf Node.branchKind? before → WrittenAsBranch kind before node after)) ∧
      ∀ (tag : Tag) (children : List Node),
        (tag.content? = none → ∃ start stop, (Node.element tag children).piece.content
          = start ++ (generate children ++ stop)) ∧
        (tag.content? ≠ none → ∀ other,
          (Node.element tag children).piece = (Node.element tag other).piece) := by
  refine ⟨?_, Node.flatten_siblingLists_perm nodes, ?_, ?_⟩
  · rw [filter_checkStructure_orphan, List.map_flatMap]
    exact List.flatMap_congr fun siblings _ => span_orphanBranches siblings
  · intro before node after kind hkind hlater
    exact ⟨groupSiblings_single_iff _ hkind hlater after,
      fun h => writtenAlone_of_not_precededByIf hkind hlater h after,
      fun h => writtenAsBranch_of_precededByIf hkind hlater h after⟩
  · intro tag children
    exact ⟨fun h => Node.exists_content_eq h children,
      fun h other => Node.piece_eq_of_content? h children other⟩

end AstroTemplate
