import AstroTemplate.Proofs.GroupMarkup

set_option autoImplicit false

/-! # Groups are maximal chains

Whatever is said here of groups is said without going through the siblings one by one: put together,
the groups are the siblings again, a chain is a first branch with the branches that belong to it, it
takes as many of them as there are, and no first branch is left alone (`IsGrouping`). There is one
list of groups like this, and `groupSiblings` finds it (`groupSiblings_eq_iff`). The inner scan,
`takeBranches`, is described in the same way first (`ChainTakes`).
-/

namespace AstroTemplate

variable {α : Type} (kind? : α → Option BranchKind)

/-! ## The branches after the first one -/

/-- An open chain takes the branches and leaves the siblings `after`: each branch has the place that
its member asks for, all but the last one have a condition, and if the last one has a condition as
well, no further branch follows. -/
def ChainTakes (branches : List (Branch α)) (after : List α) : Prop :=
  (∀ branch ∈ branches, kind? branch.member = some branch.kind) ∧
    ∃ count last, branches.map Branch.kind = List.replicate count .elseIfBranch ++ last ∧
      (last = [] ∧ continuesChain kind? after = false ∨ last = [.elseBranch])

variable {kind?}

theorem ChainTakes.cons {branches : List (Branch α)} {after : List α} {a : α}
    (ha : kind? a = some .elseIfBranch) (h : ChainTakes kind? branches after) :
    ChainTakes kind? (⟨.elseIfBranch, a⟩ :: branches) after := by
  obtain ⟨hkinds, count, last, hshape, hlast⟩ := h
  refine ⟨List.forall_mem_cons.2 ⟨ha, hkinds⟩, count + 1, last, ?_, hlast⟩
  rw [List.map_cons, hshape, List.replicate_succ, List.cons_append]

/-- A scan goes as far as the branches belong to the chain. -/
theorem chainTakes_takeBranches (siblings : List α) :
    ChainTakes kind? (takeBranches kind? siblings).1 (takeBranches kind? siblings).2 := by
  induction siblings with
  | nil => exact ⟨List.forall_mem_nil _, 0, [], rfl, .inl ⟨rfl, rfl⟩⟩
  | cons a rest ih =>
      rw [takeBranches]
      split
      · rename_i hkind
        exact ih.cons hkind
      · rename_i hkind
        exact ⟨List.forall_mem_singleton.2 hkind, 0, [.elseBranch], rfl, .inr rfl⟩
      · rename_i helseIf helse
        refine ⟨List.forall_mem_nil _, 0, [], rfl, .inl ⟨rfl, ?_⟩⟩
        rw [continuesChain, List.head?_cons, Option.bind_some]
        split
        · rename_i hkind
          exact absurd hkind helseIf
        · rename_i hkind
          exact absurd hkind helse
        · rfl

/-- The scan finds every list of branches that belongs to the chain. -/
theorem takeBranches_of_chainTakes {branches : List (Branch α)} {after : List α}
    (h : ChainTakes kind? branches after) :
    takeBranches kind? (branches.map Branch.member ++ after) = (branches, after) := by
  obtain ⟨hkinds, count, last, hshape, hlast⟩ := h
  induction branches generalizing count with
  | nil =>
      have hnil : last = [] := (List.append_eq_nil_iff.1 hshape.symm).2
      rcases hlast with ⟨-, hafter⟩ | hlast
      · exact takeBranches_of_not_continues kind? hafter
      · rw [hnil] at hlast
        cases hlast
  | cons branch branches ih =>
      obtain ⟨kind, a⟩ := branch
      have hkind : kind? a = some kind := hkinds _ List.mem_cons_self
      have hrest := fun b hb => hkinds b (List.mem_cons_of_mem _ hb)
      rw [List.map_cons, List.cons_append, takeBranches, hkind]
      -- a branch with a condition is scanned over; one without a condition is the last
      cases count with
      | succ count =>
          rw [List.replicate_succ, List.cons_append, List.map_cons] at hshape
          obtain ⟨hplace, hmore⟩ := List.cons.inj hshape
          obtain rfl : kind = .elseIfBranch := hplace
          dsimp only
          rw [ih hrest count hmore]
      | zero =>
          rw [List.replicate_zero, List.nil_append] at hshape
          rcases hlast with ⟨rfl, -⟩ | rfl
          · cases hshape
          · obtain ⟨hplace, hnone⟩ := List.cons.inj hshape
            obtain rfl : kind = .elseBranch := hplace
            obtain rfl := List.map_eq_nil_iff.1 hnone
            rfl

/-! ## All groups -/

variable (kind?)

/-- What a group has to be if the siblings `after` follow it. -/
def Group.Fits : Group α → List α → Prop
  | .single member, _ => kind? member ≠ some .ifBranch
  | .chain branches, after =>
    ∃ head more, branches = ⟨.ifBranch, head⟩ :: more ∧ kind? head = some .ifBranch ∧
      ChainTakes kind? more after

/-- The groups are the siblings, cut into maximal chains and single members. -/
structure IsGrouping (siblings : List α) (groups : List (Group α)) : Prop where
  members : groups.flatMap Group.members = siblings
  fits : ∀ before group after, groups = before ++ group :: after →
    group.Fits kind? (after.flatMap Group.members)

variable {kind?}

theorem isGrouping_nil {groups : List (Group α)} : IsGrouping kind? [] groups ↔ groups = [] := by
  constructor
  · rintro ⟨hmembers, hfits⟩
    cases groups with
    | nil => rfl
    | cons group groups =>
        -- no group is without a member
        have hnone := (List.append_eq_nil_iff.1 hmembers).1
        have hfit := hfits [] group groups rfl
        cases group with
        | single member => cases hnone
        | chain branches =>
            obtain ⟨head, more, rfl, -⟩ := hfit
            cases hnone
  · rintro rfl
    refine ⟨rfl, ?_⟩
    intro before group after h
    simp at h

theorem isGrouping_cons {group : Group α} {groups : List (Group α)} {siblings : List α} :
    IsGrouping kind? siblings (group :: groups) ↔
      ∃ rest, siblings = group.members ++ rest ∧ group.Fits kind? rest ∧
        IsGrouping kind? rest groups := by
  constructor
  · rintro ⟨rfl, hfits⟩
    refine ⟨_, rfl, hfits [] group groups rfl, rfl, ?_⟩
    rintro before other after rfl
    exact hfits (group :: before) other after rfl
  · rintro ⟨rest, rfl, hfit, rfl, hfits⟩
    refine ⟨rfl, ?_⟩
    intro before other after h
    rcases List.cons_eq_append_iff.1 h with ⟨rfl, hcons⟩ | ⟨more, rfl, hmore⟩
    · obtain ⟨rfl, rfl⟩ := List.cons.inj hcons
      exact hfit
    · exact hfits more other after hmore

theorem isGrouping_groupSiblings (siblings : List α) :
    IsGrouping kind? siblings (groupSiblings kind? siblings) := by
  fun_induction groupSiblings kind? siblings with
  | case1 => exact isGrouping_nil.2 rfl
  | case2 a rest hif _ ih =>
      refine isGrouping_cons.2 ⟨_, ?_, ⟨a, _, rfl, hif, chainTakes_takeBranches rest⟩, ih⟩
      exact congrArg (a :: ·) (takeBranches_append kind? rest).symm
  | case3 a rest hother ih => exact isGrouping_cons.2 ⟨rest, rfl, hother, ih⟩

/-- There is no other way to cut the siblings into maximal chains. -/
theorem eq_groupSiblings {siblings : List α} {groups : List (Group α)}
    (h : IsGrouping kind? siblings groups) : groups = groupSiblings kind? siblings := by
  -- by induction on the groups, since each of them says which siblings it takes
  induction groups generalizing siblings with
  | nil =>
      obtain rfl : siblings = [] := h.members.symm
      rw [groupSiblings]
  | cons group groups ih =>
      obtain ⟨rest, rfl, hfit, hrest⟩ := isGrouping_cons.1 h
      rw [ih hrest]
      cases group with
      | single member =>
          show _ = groupSiblings kind? (member :: rest)
          rw [groupSiblings, if_neg hfit]
      | chain branches =>
          obtain ⟨head, more, rfl, hif, hmore⟩ := hfit
          show _ = groupSiblings kind? (head :: (more.map Branch.member ++ rest))
          rw [groupSiblings, if_pos hif, takeBranches_of_chainTakes hmore]

theorem groupSiblings_eq_iff {siblings : List α} {groups : List (Group α)} :
    groups = groupSiblings kind? siblings ↔ IsGrouping kind? siblings groups := by
  refine ⟨?_, eq_groupSiblings⟩
  rintro rfl
  exact isGrouping_groupSiblings siblings

/-- The sizes of the groups add up to the number of siblings. -/
theorem IsGrouping.sum_size {siblings : List α} {groups : List (Group α)}
    (h : IsGrouping kind? siblings groups) :
    groups.foldr (fun group count => group.size + count) 0 = siblings.length := by
  induction groups generalizing siblings with
  | nil =>
      obtain rfl : siblings = [] := h.members.symm
      rfl
  | cons group groups ih =>
      obtain ⟨rest, rfl, -, hrest⟩ := isGrouping_cons.1 h
      rw [List.foldr_cons, ih hrest, List.length_append]
      rfl

/-! ## Nodes -/

/-- **Grouping cuts siblings into maximal chains.** A list of groups is the one that grouping finds
exactly if its members, in order, are the siblings, every chain is a first branch with the branches
that belong to it and takes as many of them as there are, and no first branch is alone. The sizes
add up to the number of siblings. Siblings that do not begin with a branch in need of a chain can be
grouped and written apart from those before them. -/
theorem Node.group_maximal_chains (nodes : List Node) :
    (∀ groups, groups = Node.group nodes ↔ IsGrouping Node.branchKind? nodes groups) ∧
      (Node.group nodes).foldr (fun group count => group.size + count) 0 = nodes.length ∧
      ∀ others, continuesChain Node.branchKind? others = false →
        Node.group (nodes ++ others) = Node.group nodes ++ Node.group others ∧
          generate (nodes ++ others) = generate nodes ++ generate others := by
  refine ⟨fun _ => groupSiblings_eq_iff, (isGrouping_groupSiblings nodes).sum_size, ?_⟩
  intro others hothers
  have hgroups : Node.group (nodes ++ others) = Node.group nodes ++ Node.group others :=
    groupSiblings_append Node.branchKind? (.inr hothers)
  refine ⟨hgroups, ?_⟩
  rw [generate_eq_group, generate_eq_group, generate_eq_group, hgroups, List.flatMap_append]

end AstroTemplate
