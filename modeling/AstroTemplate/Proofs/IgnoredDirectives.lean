import AstroTemplate.Markup.Template
import AstroTemplate.Proofs.GroupMarkup
import AstroTemplate.Proofs.StructureReports

set_option autoImplicit false

/-! # Control directives that come too late

An element follows one control directive for each role, and the checks report the others as ignored.
`Tag.withoutIgnored` leaves these out. Of loops, visibility and injected content the first directive
counts for the generator, too, and so it does for conditions as long as a tag has one conditional
directive. Where it has several, the place in a chain is decided by `v-if` before `v-else-if` before
`v-else`, in whatever order they stand. So what is reported can be left out exactly from the tags
whose first conditional directive is also the one that decides (`Tag.FirstCounts`).
-/

namespace AstroTemplate

/-! ## Leaving out repeated members -/

section

variable {α β γ : Type} [DecidableEq β]

/-- The members without those that `repeated` lists. -/
def unrepeated (key? : α → Option β) (seen : List β) : List α → List α
  | [] => []
  | a :: rest =>
    match key? a with
    | none => a :: unrepeated key? seen rest
    | some key =>
      if key ∈ seen then unrepeated key? seen rest
      else a :: unrepeated key? (key :: seen) rest

variable (key? : α → Option β) (seen : List β) (members : List α)

theorem unrepeated_sublist : (unrepeated key? seen members).Sublist members := by
  fun_induction unrepeated key? seen members with
  | case1 => exact List.Sublist.slnil
  | case2 seen a rest hkey ih => exact ih.cons_cons a
  | case3 seen a rest key hkey hmem ih => exact ih.cons a
  | case4 seen a rest key hkey hnew ih => exact ih.cons_cons a

/-- Each member is left out or listed as repeated. -/
theorem perm_unrepeated_append :
    members.Perm (unrepeated key? seen members ++ (repeated key? seen members).map Prod.fst) := by
  fun_induction unrepeated key? seen members with
  | case1 => exact List.Perm.refl []
  | case2 seen a rest hkey ih =>
      rw [repeated, hkey]
      exact ih.cons a
  | case3 seen a rest key hkey hmem ih =>
      rw [repeated, hkey]
      dsimp only
      rw [if_pos hmem]
      exact (ih.cons a).trans List.perm_middle.symm
  | case4 seen a rest key hkey hnew ih =>
      rw [repeated, hkey]
      dsimp only
      rw [if_neg hnew]
      exact ih.cons a

variable {key? seen}

/-- What is made of members without a key stays. -/
theorem filterMap_unrepeated {f : α → Option γ} (h : ∀ a, key? a ≠ none → f a = none) :
    (unrepeated key? seen members).filterMap f = members.filterMap f := by
  fun_induction unrepeated key? seen members with
  | case1 => rfl
  | case2 seen a rest hkey ih => rw [List.filterMap_cons, List.filterMap_cons, ih]
  | case3 seen a rest key hkey hmem ih =>
      rw [List.filterMap_cons, h a (by simp [hkey]), ih]
  | case4 seen a rest key hkey hnew ih => rw [List.filterMap_cons, List.filterMap_cons, ih]

variable {key : β} {q : α → Bool}

theorem find?_unrepeated_of_mem (hq : ∀ a, q a = true → key? a = some key) (hseen : key ∈ seen) :
    (unrepeated key? seen members).find? q = none := by
  fun_induction unrepeated key? seen members with
  | case1 => rfl
  | case2 seen a rest hkey ih =>
      have hother : ¬ q a = true := by
        intro ha
        rw [hq a ha] at hkey
        cases hkey
      rw [List.find?_cons_of_neg hother, ih hseen]
  | case3 seen a rest other hkey hmem ih => exact ih hseen
  | case4 seen a rest other hkey hnew ih =>
      have hother : ¬ q a = true := by
        intro ha
        rw [hq a ha, Option.some_inj] at hkey
        exact hnew (hkey ▸ hseen)
      rw [List.find?_cons_of_neg hother, ih (List.mem_cons_of_mem other hseen)]

/-- Of the members with one key only the first one can be found. -/
theorem find?_unrepeated (hq : ∀ a, q a = true → key? a = some key) (hseen : key ∉ seen) :
    (unrepeated key? seen members).find? q
      = (members.find? fun a => key? a = some key).filter q := by
  fun_induction unrepeated key? seen members with
  | case1 => rfl
  | case2 seen a rest hkey ih =>
      have hother : ¬ key? a = some key := by simp [hkey]
      rw [List.find?_cons_of_neg (mt (hq a) hother), List.find?_cons_of_neg (by simpa using hother),
        ih hseen]
  | case3 seen a rest other hkey hmem ih =>
      have hother : ¬ key? a = some key := by
        rw [hkey, Option.some_inj]
        rintro rfl
        exact hseen hmem
      rw [List.find?_cons_of_neg (by simpa using hother), ih hseen]
  | case4 seen a rest other hkey hnew ih =>
      by_cases hsame : key? a = some key
      · -- this is the first member with the key, and no later one is left
        obtain rfl : other = key := Option.some_inj.1 (hkey.symm.trans hsame)
        rw [List.find?_cons_of_pos (p := fun a => key? a = some other) (by simpa using hsame),
          List.find?_cons, Option.filter_some,
          find?_unrepeated_of_mem rest hq List.mem_cons_self]
        cases q a <;> rfl
      · have hkeys : key ∉ other :: seen := by
          intro hmem
          rcases List.mem_cons.1 hmem with rfl | hmem
          · exact hsame hkey
          · exact hseen hmem
        rw [List.find?_cons_of_neg (mt (hq a) hsame), List.find?_cons_of_neg (by simpa using hsame),
          ih hkeys]

/-- The first of all members with one key is found with and without the others. -/
theorem find?_unrepeated_of_iff (hq : ∀ a, q a = true ↔ key? a = some key) (hseen : key ∉ seen) :
    (unrepeated key? seen members).find? q = members.find? q := by
  have hkey : (fun a => decide (key? a = some key)) = q := by
    funext a
    rw [Bool.eq_iff_iff, decide_eq_true_iff, hq]
  rw [find?_unrepeated members (fun a => (hq a).1) hseen, hkey]
  cases hfind : members.find? q with
  | none => rfl
  | some a => rw [Option.filter_some, if_pos (List.find?_some hfind)]

end

/-! ## Tags without the directives that are reported -/

/-- The role of a prop that is a control directive. -/
def TagProp.controlRole? (prop : TagProp) : Option ControlRole :=
  prop.directive?.bind (·.kind.controlRole?)

namespace DirectiveKind

/-- The place in a chain that a directive of a kind asks for. -/
def branchKind? : DirectiveKind → Option BranchKind
  | branch kind => some kind
  | _ => none

/-- Apart from conditions there is one kind of directive for each role. -/
theorem eq_of_controlRole? {k kind : DirectiveKind} {role : ControlRole}
    (hk : k.controlRole? = some role) (hkind : kind.controlRole? = some role)
    (hrole : role ≠ .conditional) : k = kind := by
  cases kind <;> cases hkind <;> cases k <;> first | exact absurd rfl hrole | rfl | cases hk

theorem isConditional_iff_controlRole? {kind : DirectiveKind} :
    kind.isConditional = true ↔ kind.controlRole? = some .conditional := by
  cases kind <;> simp [isConditional, controlRole?]

theorem branchKind?_eq_some_iff {kind : DirectiveKind} {place : BranchKind} :
    kind.branchKind? = some place ↔ kind = .branch place := by
  cases kind <;> simp [branchKind?]

theorem exists_branchKind? {kind : DirectiveKind} (h : kind.isConditional = true) :
    ∃ place, kind.branchKind? = some place := by
  cases kind with
  | branch place => exact ⟨place, rfl⟩
  | _ => cases h

end DirectiveKind

namespace Tag

/-- The directives that are reported as ignored. -/
def ignored (tag : Tag) : List Directive :=
  (repeated (·.kind.controlRole?) [] tag.directives).map Prod.fst

/-- The tag without the directives that are reported as ignored. -/
def withoutIgnored (tag : Tag) : Tag :=
  { tag with props := unrepeated TagProp.controlRole? [] tag.props }

/-- The place in a chain that the first conditional directive asks for. -/
def firstBranchKind? (tag : Tag) : Option BranchKind :=
  tag.conditional?.bind (·.kind.branchKind?)

/-- The first conditional directive, and no other one, decides the place in a chain. -/
def FirstCounts (tag : Tag) : Prop := tag.branchKind? = tag.firstBranchKind?

instance instDecidableFirstCounts (tag : Tag) : Decidable tag.FirstCounts :=
  inferInstanceAs (Decidable (tag.branchKind? = tag.firstBranchKind?))

variable (tag : Tag)

theorem span_repeatedDirectives :
    tag.repeatedDirectives.map Diagnostic.span = tag.ignored.map Directive.span := by
  rw [repeatedDirectives, ignored, List.map_map, List.map_map]
  rfl

theorem repeated_directives (seen : List ControlRole) (props : List TagProp) :
    (repeated TagProp.controlRole? seen props).map Prod.fst
      = ((repeated (·.kind.controlRole?) seen (props.filterMap TagProp.directive?)).map
          Prod.fst).map TagProp.directive := by
  induction props generalizing seen with
  | nil => rfl
  | cons prop rest ih =>
      cases prop with
      | plain a => exact ih seen
      | directive d =>
          have hrole : (TagProp.directive d).controlRole? = d.kind.controlRole? := rfl
          have hrest : (TagProp.directive d :: rest).filterMap TagProp.directive?
              = d :: rest.filterMap TagProp.directive? := rfl
          rw [hrest, repeated, repeated, hrole]
          cases d.kind.controlRole? with
          | none => exact ih seen
          | some role =>
              dsimp only
              split
              · rw [List.map_cons, List.map_cons, List.map_cons, ih seen]
              · exact ih (role :: seen)

/-- The props are those that are left and the directives that are reported. -/
theorem perm_withoutIgnored :
    tag.props.Perm (tag.withoutIgnored.props ++ tag.ignored.map TagProp.directive) := by
  rw [ignored, directives, ← repeated_directives]
  exact perm_unrepeated_append ..

theorem unrepeated_directives (seen : List ControlRole) (props : List TagProp) :
    (unrepeated TagProp.controlRole? seen props).filterMap TagProp.directive?
      = unrepeated (·.kind.controlRole?) seen (props.filterMap TagProp.directive?) := by
  induction props generalizing seen with
  | nil => rfl
  | cons prop rest ih =>
      cases prop with
      | plain a => exact ih seen
      | directive d =>
          have hrole : (TagProp.directive d).controlRole? = d.kind.controlRole? := rfl
          have hcons : ∀ props : List TagProp, (TagProp.directive d :: props).filterMap
              TagProp.directive? = d :: props.filterMap TagProp.directive? := fun _ => rfl
          rw [hcons, unrepeated, unrepeated, hrole]
          cases d.kind.controlRole? with
          | none => rw [hcons, ih seen]
          | some role =>
              dsimp only
              split
              · exact ih seen
              · rw [hcons, ih (role :: seen)]

theorem directives_withoutIgnored :
    tag.withoutIgnored.directives = unrepeated (·.kind.controlRole?) [] tag.directives :=
  unrepeated_directives [] tag.props

theorem attrs_withoutIgnored : tag.withoutIgnored.attrs = tag.attrs := by
  refine filterMap_unrepeated tag.props fun prop hrole => ?_
  cases prop with
  | plain a => exact absurd rfl hrole
  | directive d =>
      rw [TagProp.controlRole?, TagProp.directive?, Option.bind_some] at hrole
      unfold OutAttr.ofProp?
      cases hkind : d.kind <;> simp_all [DirectiveKind.controlRole?]

/-- Of the directives that alone have a role, the first one is left. -/
theorem directive?_withoutIgnored (kind : DirectiveKind) {role : ControlRole}
    (hkind : kind.controlRole? = some role) (hrole : role ≠ .conditional) :
    tag.withoutIgnored.directive? kind = tag.directive? kind := by
  have hiff : ∀ d : Directive, (d.kind == kind) = true ↔ d.kind.controlRole? = some role := by
    intro d
    rw [beq_iff_eq]
    exact ⟨fun h => h ▸ hkind, fun h => DirectiveKind.eq_of_controlRole? h hkind hrole⟩
  rw [directive?, directives_withoutIgnored]
  exact find?_unrepeated_of_iff tag.directives hiff List.not_mem_nil

theorem conditional?_withoutIgnored : tag.withoutIgnored.conditional? = tag.conditional? := by
  rw [conditional?, directives_withoutIgnored]
  exact find?_unrepeated_of_iff tag.directives
    (fun _ => DirectiveKind.isConditional_iff_controlRole?) List.not_mem_nil

theorem loop?_withoutIgnored : tag.withoutIgnored.loop? = tag.loop? := by
  rw [loop?, tag.directive?_withoutIgnored .loop rfl (by decide), loop?]

theorem outAttrs_withoutIgnored : tag.withoutIgnored.outAttrs = tag.outAttrs := by
  rw [outAttrs, visibleWhen?, attrs_withoutIgnored,
    tag.directive?_withoutIgnored .visibility rfl (by decide), outAttrs, visibleWhen?]

theorem content?_withoutIgnored : tag.withoutIgnored.content? = tag.content? := by
  rw [content?, tag.directive?_withoutIgnored .html rfl (by decide),
    tag.directive?_withoutIgnored .text rfl (by decide), content?]

theorem outName_withoutIgnored : tag.withoutIgnored.outName = tag.outName := by
  rw [outName, conditional?_withoutIgnored, tag.directive?_withoutIgnored .loop rfl (by decide)]
  rfl

/-- The element itself is written as before. -/
theorem renderExpression_withoutIgnored (children : List Char) :
    tag.withoutIgnored.renderExpression children = tag.renderExpression children := by
  rw [renderExpression, renderElement, loop?_withoutIgnored, outAttrs_withoutIgnored,
    content?_withoutIgnored, outName_withoutIgnored, renderExpression, renderElement]

/-! ## The directive that decides -/

/-- Of the conditional directives only the first one is left. -/
theorem directive?_branch_withoutIgnored (place : BranchKind) :
    tag.withoutIgnored.directive? (.branch place)
      = tag.conditional?.filter (·.kind == .branch place) := by
  have hconditional : tag.conditional?
      = tag.directives.find? fun d => d.kind.controlRole? = some .conditional := by
    refine congrArg (List.find? · tag.directives) (funext fun d => ?_)
    rw [Bool.eq_iff_iff, decide_eq_true_iff, DirectiveKind.isConditional_iff_controlRole?]
  rw [directive?, directives_withoutIgnored, hconditional]
  refine find?_unrepeated tag.directives (fun d hd => ?_) List.not_mem_nil
  rw [beq_iff_eq.1 hd]
  rfl

theorem isConditional_of_conditional? {tag : Tag} {d : Directive} (h : tag.conditional? = some d) :
    d.kind.isConditional = true :=
  List.find?_some (p := fun d : Directive => d.kind.isConditional) h

/-- Without the directives that are reported the first conditional directive decides. -/
theorem branchKind?_withoutIgnored : tag.withoutIgnored.branchKind? = tag.firstBranchKind? := by
  have hhas : ∀ place, tag.withoutIgnored.hasDirective (.branch place)
      = decide (tag.firstBranchKind? = some place) := by
    intro place
    rw [hasDirective, directive?_branch_withoutIgnored, firstBranchKind?]
    cases tag.conditional? with
    | none => rfl
    | some d =>
        rw [Option.filter_some, Option.bind_some]
        by_cases hplace : d.kind = .branch place
        · simp [hplace, DirectiveKind.branchKind?]
        · simp [hplace, DirectiveKind.branchKind?_eq_some_iff]
  rw [branchKind?, funext hhas]
  cases tag.firstBranchKind? with
  | none => rfl
  | some place => cases place <;> rfl

variable {tag}

theorem hasDirective_of_firstBranchKind? {place : BranchKind}
    (h : tag.firstBranchKind? = some place) : tag.hasDirective (.branch place) = true := by
  obtain ⟨d, hd, hplace⟩ := Option.bind_eq_some_iff.1 h
  rw [DirectiveKind.branchKind?_eq_some_iff] at hplace
  exact List.find?_isSome.2 ⟨d, List.mem_of_find?_eq_some hd, beq_iff_eq.2 hplace⟩

/-- A tag with a place in a chain has a first conditional directive. -/
theorem exists_firstBranchKind? {place : BranchKind} (h : tag.branchKind? = some place) :
    ∃ first, tag.firstBranchKind? = some first := by
  obtain ⟨d, hmem, hkind⟩ := List.find?_isSome.1 (hasDirective_of_branchKind? h)
  have hsome : tag.conditional?.isSome = true := by
    refine List.find?_isSome.2 ⟨d, hmem, ?_⟩
    rw [beq_iff_eq.1 hkind]
    rfl
  obtain ⟨first, hfirst⟩ := Option.isSome_iff_exists.1 hsome
  obtain ⟨place, hplace⟩ :=
    DirectiveKind.exists_branchKind? (isConditional_of_conditional? hfirst)
  exact ⟨place, Option.bind_eq_some_iff.2 ⟨first, hfirst, hplace⟩⟩

theorem exists_branchKind? {first : BranchKind} (h : tag.firstBranchKind? = some first) :
    ∃ place, tag.branchKind? = some place := by
  refine Option.isSome_iff_exists.1 (List.find?_isSome.2 ⟨first, ?_, ?_⟩)
  · cases first <;> simp
  · exact hasDirective_of_firstBranchKind? h

/-- The condition of a branch is left if its directive comes first. -/
theorem condition?_withoutIgnored {place : BranchKind} (h : tag.firstBranchKind? = some place) :
    tag.withoutIgnored.condition? place = tag.condition? place := by
  obtain ⟨d, hd, hplace⟩ := Option.bind_eq_some_iff.1 h
  rw [DirectiveKind.branchKind?_eq_some_iff] at hplace
  have hleft : tag.withoutIgnored.directive? (.branch place) = some d := by
    rw [directive?_branch_withoutIgnored, hd, Option.filter_some, if_pos (beq_iff_eq.2 hplace)]
  have hfirst : tag.directive? (.branch place) = some d := by
    obtain ⟨-, before, after, hsplit, hbefore⟩ := List.find?_eq_some_iff_append.1 hd
    refine List.find?_eq_some_iff_append.2 ⟨beq_iff_eq.2 hplace, before, after, hsplit, ?_⟩
    intro b hb
    have hnot := hbefore b hb
    cases hkind : b.kind with
    | branch => simp [hkind, DirectiveKind.isConditional] at hnot
    | _ => rfl
  have hcondition := congrArg
    (fun d? : Option Directive => some ((d?.bind Directive.expression?).getD "false".toList))
    (hleft.trans hfirst.symm)
  cases place with
  | elseBranch => rfl
  | ifBranch => exact hcondition
  | elseIfBranch => exact hcondition

end Tag

/-! ## Trees without the directives that are reported -/

mutual

/-- The node without the directives in it that are reported as ignored. -/
def Node.withoutIgnored : Node → Node
  | .text span data blank => .text span data blank
  | .interpolation span expressionSpan expression => .interpolation span expressionSpan expression
  | .comment span data => .comment span data
  | .element tag children => .element tag.withoutIgnored (Node.allWithoutIgnored children)

/-- The siblings without the directives in them that are reported as ignored. -/
def Node.allWithoutIgnored : List Node → List Node
  | [] => []
  | node :: rest => node.withoutIgnored :: Node.allWithoutIgnored rest

end

/-- The directives of a node itself that are reported as ignored. -/
def Node.ignored (node : Node) : List Directive := (node.tag?.map Tag.ignored).getD []

theorem Node.allWithoutIgnored_eq_map (nodes : List Node) :
    Node.allWithoutIgnored nodes = nodes.map Node.withoutIgnored := by
  induction nodes with
  | nil => rfl
  | cons node rest ih => rw [Node.allWithoutIgnored, ih, List.map_cons]

/-- If the first conditional directive decides, an element stays what it is for its siblings. -/
theorem Node.view_element_withoutIgnored {tag : Tag} (htag : tag.FirstCounts)
    {children others : List Node} (h : generate others = generate children) :
    (Node.element tag.withoutIgnored others).view = (Node.element tag children).view := by
  refine Node.view_element_congr (tag.branchKind?_withoutIgnored.trans htag.symm)
    tag.loop?_withoutIgnored ?_ ?_
  · rw [h, tag.renderExpression_withoutIgnored]
  · intro place hplace
    exact Tag.condition?_withoutIgnored (htag.symm.trans hplace)

/-- If in every element the first conditional directive decides, a node stays what it is for its
siblings. -/
theorem Node.view_withoutIgnored (node : Node)
    (h : ∀ tag children, .element tag children ∈ node.family → tag.FirstCounts) :
    node.withoutIgnored.view = node.view := by
  induction node using Node.tree_induction with
  | leaf node hleaf =>
      cases node with
      | element => exact absurd rfl hleaf
      | text => rfl
      | interpolation => rfl
      | comment => rfl
  | element tag children ih =>
      have hchildren : generate (Node.allWithoutIgnored children) = generate children := by
        refine generate_congr ?_
        rw [Node.allWithoutIgnored_eq_map, List.map_map]
        refine List.map_congr_left fun n hn => ih n hn fun t cs hmem => h t cs ?_
        exact Node.family_subset_element hn tag hmem
      exact Node.view_element_withoutIgnored
        (h tag children (Node.mem_family_element.2 (.inl rfl))) hchildren

/-! ## Where another directive decides -/

theorem Tag.branchKind?_eq_ite (tag : Tag) :
    tag.branchKind? = if tag.hasDirective (.branch .ifBranch) then some .ifBranch
      else if tag.hasDirective (.branch .elseIfBranch) then some .elseIfBranch
      else if tag.hasDirective (.branch .elseBranch) then some .elseBranch
      else none := by
  simp only [Tag.branchKind?, List.find?_cons, List.find?_nil]
  cases tag.hasDirective (.branch .ifBranch) <;> cases tag.hasDirective (.branch .elseIfBranch) <;>
    cases tag.hasDirective (.branch .elseBranch) <;> rfl

/-- A later directive decides only if it comes earlier in the order of places. -/
theorem Tag.place_cases {tag : Tag} {place first : BranchKind} (h : tag.branchKind? = some place)
    (hfirst : tag.firstBranchKind? = some first) :
    place = first ∨ (place = .ifBranch ∧ first ≠ .ifBranch) ∨
      (place = .elseIfBranch ∧ first = .elseBranch) := by
  have hhas := Tag.hasDirective_of_firstBranchKind? hfirst
  rw [Tag.branchKind?_eq_ite] at h
  cases first <;> simp only [hhas] at h <;> grind

theorem exists_ifBranch : ∃ node : Node, node.branchKind? = some .ifBranch :=
  ⟨.element ⟨.emptyAt 0, "p".toList,
    [.directive ⟨.emptyAt 0, "v-if".toList, "if".toList, none, [], none⟩], false⟩ [], by decide⟩

theorem length_branchText {node : Node} {place : BranchKind} (h : node.branchKind? = some place)
    (hplace : place ≠ .elseBranch) :
    node.piece.content.length + 8 ≤ (node.branchText place).length := by
  obtain ⟨condition, hcondition⟩ :=
    Option.isSome_iff_exists.1 ((condition?_isSome_iff h).2 hplace)
  rw [Node.branchText, Branch.text, hcondition]
  simp

theorem branchText_else (node : Node) :
    node.branchText .elseBranch = "(".toList ++ node.piece.content ++ ")".toList := by
  have hnone : Branch.condition? ⟨.elseBranch, node.piece⟩ = none := by
    rw [Branch.condition?]
    cases node.piece.tag? <;> rfl
  rw [Node.branchText, Branch.text, hnone]

theorem length_renderSingle_le (piece : Piece (List Char)) :
    piece.renderSingle.length ≤ piece.content.length + 2 := by
  unfold Piece.renderSingle
  split
  · split
    · simp [inBraces]
    · omega
  · omega

/-- A first branch alone is longer than the same element outside of a chain. -/
theorem length_generate_if {node other : Node} (h : node.branchKind? = some .ifBranch)
    (hother : other.branchKind? ≠ some .ifBranch)
    (hcontent : other.piece.content = node.piece.content) :
    (generate [other]).length < (generate [node]).length := by
  have hlong := length_branchText h nofun
  have hshort := length_renderSingle_le other.piece
  rw [hcontent] at hshort
  rw [generate_cons_of_ne_if hother, generate_cons_if h, List.length_append, List.length_append,
    inBraces, List.length_append, List.length_append, List.length_append]
  have hnil : (generate []).length = 0 := by
    rw [generate_eq_group, Node.group, groupSiblings]
    rfl
  omega

/-- A branch with a condition is longer than the same element as the last branch. -/
theorem length_generate_elseIf {head node other : Node} (hhead : head.branchKind? = some .ifBranch)
    (h : node.branchKind? = some .elseIfBranch) (hother : other.branchKind? = some .elseBranch)
    (hcontent : other.piece.content = node.piece.content) :
    (generate [head, other]).length < (generate [head, node]).length := by
  have hlong := length_branchText h nofun
  have hshort : (other.branchText .elseBranch).length = node.piece.content.length + 2 := by
    rw [branchText_else, hcontent]
    simp
  have hlast : ¬ (Branch.condition? ⟨.elseBranch, other.piece⟩).isSome = true :=
    fun hsome => (condition?_isSome_iff hother).1 hsome rfl
  have htake : takeBranches Node.branchKind? [node] = ([⟨.elseIfBranch, node⟩], []) := by
    rw [takeBranches, h]
    rfl
  have htakeOther : takeBranches Node.branchKind? [other] = ([⟨.elseBranch, other⟩], []) := by
    rw [takeBranches, hother]
  have hnode : node.branchText .elseIfBranch
      <+: renderChain ([⟨.elseIfBranch, node⟩].map (Branch.map Node.piece)) :=
    ⟨_, (renderChain_cons ..).symm⟩
  have hchain : renderChain ([⟨.elseBranch, other⟩].map (Branch.map Node.piece))
      = other.branchText .elseBranch := by
    rw [List.map_singleton, renderChain_cons]
    exact (congrArg (_ ++ ·) (if_neg hlast)).trans (List.append_nil _)
  have hlength := hnode.length_le
  rw [generate_cons_if hhead, generate_cons_if hhead, htake, htakeOther, hchain]
  simp only [inBraces, List.length_append]
  omega

/-- What is reported can be left out of a tag among all siblings only if its first conditional
directive decides. -/
theorem Tag.firstCounts_of_generate_eq {tag : Tag} {children : List Node}
    (h : ∀ before, generate (before ++ [.element tag.withoutIgnored children])
      = generate (before ++ [.element tag children])) : tag.FirstCounts := by
  have hcontent : (Node.element tag.withoutIgnored children).piece.content
      = (Node.element tag children).piece.content := by
    rw [Node.piece_element, Node.piece_element]
    exact tag.renderExpression_withoutIgnored _
  have hkind : (Node.element tag.withoutIgnored children).branchKind? = tag.firstBranchKind? :=
    tag.branchKind?_withoutIgnored
  cases hfirst : tag.firstBranchKind? with
  | none =>
      cases hplace : tag.branchKind? with
      | none => exact hplace.trans hfirst.symm
      | some place =>
          obtain ⟨first, hsome⟩ := Tag.exists_firstBranchKind? hplace
          rw [hfirst] at hsome
          cases hsome
  | some first =>
      obtain ⟨place, hplace⟩ := Tag.exists_branchKind? hfirst
      have hplace' : (Node.element tag children).branchKind? = some place := hplace
      rw [hfirst] at hkind
      rcases Tag.place_cases hplace hfirst with rfl | ⟨rfl, hne⟩ | ⟨rfl, rfl⟩
      · exact hplace.trans hfirst.symm
      · -- a later `v-if` decides, which shows where the element stands alone
        have hother : (Node.element tag.withoutIgnored children).branchKind? ≠ some .ifBranch := by
          rw [hkind]
          simpa using hne
        exact absurd (congrArg List.length (h []))
          (Nat.ne_of_lt (length_generate_if hplace' hother hcontent))
      · -- `v-else-if` after `v-else` is a branch in either case, so a chain has to be open
        obtain ⟨head, hhead⟩ := exists_ifBranch
        exact absurd (congrArg List.length (h [head]))
          (Nat.ne_of_lt (length_generate_elseIf hhead hplace' hkind hcontent))

/-- The checks report, element by element, the directives that `Tag.withoutIgnored` leaves out. If
in every element the first conditional directive decides the place in a chain, the markup stays the
same without them. An element in which another one decides has siblings among which the markup
changes. -/
theorem generate_withoutIgnored (nodes : List Node) :
    ((checkStructure nodes).filter (·.code = .duplicateDirective)).map Diagnostic.span
        = (Node.all nodes).flatMap (fun node => node.ignored.map Directive.span) ∧
      (∀ tag : Tag, tag.withoutIgnored.props.Sublist tag.props ∧
        tag.props.Perm (tag.withoutIgnored.props ++ tag.ignored.map TagProp.directive)) ∧
      ((∀ tag children, .element tag children ∈ Node.all nodes → tag.FirstCounts) →
        generate (Node.allWithoutIgnored nodes) = generate nodes) ∧
      ∀ (tag : Tag) (children : List Node),
        (∀ before after, generate (before ++ .element tag.withoutIgnored children :: after)
          = generate (before ++ .element tag children :: after)) ↔ tag.FirstCounts := by
  refine ⟨?_, fun tag => ⟨unrepeated_sublist .., tag.perm_withoutIgnored⟩, ?_, ?_⟩
  · rw [filter_checkStructure_directive, List.map_flatMap]
    refine List.flatMap_congr fun node _ => ?_
    cases node with
    | element tag children => exact tag.span_repeatedDirectives
    | text => rfl
    | interpolation => rfl
    | comment => rfl
  · intro h
    refine generate_congr ?_
    rw [Node.allWithoutIgnored_eq_map, List.map_map]
    refine List.map_congr_left fun node hnode => node.view_withoutIgnored ?_
    exact fun tag children hmem => h tag children (Node.mem_all.2 ⟨node, hnode, hmem⟩)
  · intro tag children
    constructor
    · intro h
      exact Tag.firstCounts_of_generate_eq fun before => h before []
    · intro htag before after
      refine generate_congr ?_
      rw [List.map_append, List.map_append, List.map_cons, List.map_cons,
        Node.view_element_withoutIgnored htag rfl]

/-- The `v-if` in `<p v-else v-if="a"></p>` is reported as ignored, yet it makes the element a first
branch. -/
theorem generate_withoutIgnored_else :
    ((checkStructure (Template.read .condense "<p v-else v-if=\"a\"></p>".toList).nodes).map
        fun d => (d.code, d.span)) = [(.duplicateDirective, ⟨10, 18⟩)] ∧
      generate (Template.read .condense "<p v-else v-if=\"a\"></p>".toList).nodes
        = "\x7ba ? (<p></p>) : null\x7d".toList ∧
      generate (Node.allWithoutIgnored
        (Template.read .condense "<p v-else v-if=\"a\"></p>".toList).nodes) = "<p></p>".toList := by
  decide +kernel

end AstroTemplate
