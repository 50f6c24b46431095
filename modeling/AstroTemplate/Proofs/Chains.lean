import AstroTemplate.Astro.Group
import Mathlib.Data.List.Induction

set_option autoImplicit false

/-! # Groups of siblings and open chains

A chain is open after some siblings if one more branch would belong to it. `groupSiblings` finds
this out by taking several siblings at once; `chainOpen` keeps it up to date from one sibling to
the next, and `PrecededByIf` says it without going through the siblings in any order. The three
agree (`chainOpen_iff`, `groupSiblings_append`, `groupSiblings_single_iff`). Grouping asks for
nothing but the place of each member (`groupSiblings_map`).
-/

namespace AstroTemplate

/-! ## Groups of mapped siblings -/

section

variable {α β : Type}

def Branch.map (f : α → β) (branch : Branch α) : Branch β := ⟨branch.kind, f branch.member⟩

def Group.map (f : α → β) : Group α → Group β
  | .single member => .single (f member)
  | .chain branches => .chain (branches.map (Branch.map f))

variable (kind? : β → Option BranchKind) (f : α → β)

theorem takeBranches_map (siblings : List α) :
    takeBranches kind? (siblings.map f)
      = ((takeBranches (kind? ∘ f) siblings).1.map (Branch.map f),
          (takeBranches (kind? ∘ f) siblings).2.map f) := by
  induction siblings with
  | nil => rfl
  | cons a rest ih =>
      have hkind : (kind? ∘ f) a = kind? (f a) := rfl
      rw [List.map_cons, takeBranches, takeBranches, hkind, ih]
      cases kind? (f a) with
      | none => rfl
      | some kind => cases kind <;> rfl

/-- What is made of siblings falls into the groups that the siblings fall into. -/
theorem groupSiblings_map (siblings : List α) :
    groupSiblings kind? (siblings.map f)
      = (groupSiblings (kind? ∘ f) siblings).map (Group.map f) := by
  fun_induction groupSiblings (kind? ∘ f) siblings with
  | case1 => rw [List.map_nil, List.map_nil, groupSiblings]
  | case2 a rest hif _ ih =>
      have hkind : kind? (f a) = some .ifBranch := hif
      rw [List.map_cons, groupSiblings, if_pos hkind, takeBranches_map, ih]
      rfl
  | case3 a rest hother ih =>
      have hkind : ¬ kind? (f a) = some .ifBranch := hother
      rw [List.map_cons, groupSiblings, if_neg hkind, ih]
      rfl

end

section

variable {α : Type} (kind? : α → Option BranchKind)

theorem kind_of_mem_takeBranches {siblings : List α} {branch : Branch α}
    (h : branch ∈ (takeBranches kind? siblings).1) :
    kind? branch.member = some branch.kind := by
  induction siblings with
  | nil => cases h
  | cons a rest ih =>
      unfold takeBranches at h
      split at h
      · rename_i hkind
        rcases List.mem_cons.1 h with rfl | h
        · exact hkind
        · exact ih h
      · rename_i hkind
        rw [List.mem_singleton.1 h]
        exact hkind
      · cases h

/-- A branch of a chain has the place there that its member asks for. -/
theorem kind_of_mem_chain {siblings : List α} {branches : List (Branch α)} {branch : Branch α}
    (h : .chain branches ∈ groupSiblings kind? siblings) (hbranch : branch ∈ branches) :
    kind? branch.member = some branch.kind := by
  fun_induction groupSiblings kind? siblings with
  | case1 => cases h
  | case2 a rest hif _ ih =>
      rcases List.mem_cons.1 h with heq | h
      · obtain rfl := Group.chain.inj heq
        rcases List.mem_cons.1 hbranch with rfl | hbranch
        · exact hif
        · exact kind_of_mem_takeBranches kind? hbranch
      · exact ih h
  | case3 a rest hother ih =>
      rcases List.mem_cons.1 h with heq | h
      · cases heq
      · exact ih h

/-! ## Open chains -/

/-- Whether a chain is open after a member, if `isOpen` says whether one is open before it. -/
def chainStays (isOpen : Bool) (a : α) : Bool :=
  match kind? a with
  | some .ifBranch => true
  | some .elseIfBranch => isOpen
  | _ => false

/-- Whether a chain is open after the siblings, if `isOpen` says so of the time before them. -/
def chainOpenFrom (isOpen : Bool) (siblings : List α) : Bool :=
  siblings.foldl (chainStays kind?) isOpen

/-- Whether a chain is open after the siblings. -/
def chainOpen (siblings : List α) : Bool := chainOpenFrom kind? false siblings

/-- Among the siblings `before` there is the first branch of a chain, and all that stands after it
are further branches with a condition. -/
def PrecededByIf (before : List α) : Prop :=
  ∃ earlier head between, before = earlier ++ head :: between ∧ kind? head = some .ifBranch ∧
    ∀ a ∈ between, kind? a = some .elseIfBranch

/-- Whether the siblings begin with a branch that needs a chain before it. -/
def continuesChain (siblings : List α) : Bool :=
  match siblings.head?.bind kind? with
  | some .elseIfBranch => true
  | some .elseBranch => true
  | _ => false

theorem chainOpen_concat (before : List α) (a : α) :
    chainOpen kind? (before ++ [a]) = chainStays kind? (chainOpen kind? before) a := by
  simp [chainOpen, chainOpenFrom]

/-- A chain is open exactly if its first branch stands before, and only branches with a condition
follow it. -/
theorem chainOpen_iff (before : List α) :
    chainOpen kind? before = true ↔ PrecededByIf kind? before := by
  induction before using List.reverseRecOn with
  | nil => simp [chainOpen, chainOpenFrom, PrecededByIf]
  | append_singleton before a ih =>
      rw [chainOpen_concat, chainStays]
      constructor
      · intro h
        split at h
        · rename_i hkind
          exact ⟨before, a, [], rfl, hkind, by simp⟩
        · rename_i hkind
          obtain ⟨earlier, head, between, rfl, hhead, hbetween⟩ := ih.1 h
          refine ⟨earlier, head, between ++ [a], by simp, hhead, ?_⟩
          intro b hb
          rcases List.mem_append.1 hb with hb | hb
          · exact hbetween b hb
          · rw [List.mem_singleton.1 hb]
            exact hkind
        · cases h
      · rintro ⟨earlier, head, between, heq, hhead, hbetween⟩
        -- the last sibling is the first branch, or it is one of those that follow it
        rcases List.eq_nil_or_concat between with rfl | ⟨more, b, rfl⟩
        · obtain ⟨-, hlast⟩ := List.append_inj' heq rfl
          obtain rfl := List.head_eq_of_cons_eq hlast
          rw [hhead]
        · rw [List.concat_eq_append] at heq hbetween
          rw [← List.cons_append, ← List.append_assoc] at heq
          obtain ⟨hbefore, hlast⟩ := List.append_inj' heq rfl
          obtain rfl := List.head_eq_of_cons_eq hlast
          rw [hbetween a (by simp)]
          exact ih.2 ⟨earlier, head, more, hbefore, hhead,
            fun b hb => hbetween b (List.mem_append_left _ hb)⟩

instance instDecidablePrecededByIf (before : List α) : Decidable (PrecededByIf kind? before) :=
  decidable_of_iff _ (chainOpen_iff kind? before)

/-! ## Grouping one list after another -/

theorem chainOpenFrom_cons (isOpen : Bool) (a : α) (rest : List α) :
    chainOpenFrom kind? isOpen (a :: rest)
      = chainOpenFrom kind? (chainStays kind? isOpen a) rest := rfl

/-- Where a member does not continue a chain, it does not matter whether one was open. -/
theorem chainStays_eq_of_ne_elseIf {a : α} (h : kind? a ≠ some .elseIfBranch) (isOpen : Bool) :
    chainStays kind? isOpen a = chainStays kind? false a := by
  unfold chainStays
  split
  · rfl
  · rename_i hkind
    exact absurd hkind h
  · rfl

theorem chainStays_of_if {a : α} (h : kind? a = some .ifBranch) (isOpen : Bool) :
    chainStays kind? isOpen a = true := by
  rw [chainStays, h]

theorem chainStays_of_ne_if {a : α} (h : kind? a ≠ some .ifBranch) :
    chainStays kind? false a = false := by
  unfold chainStays
  split
  · rename_i hkind
    exact absurd hkind h
  · rfl
  · rfl

/-- An open chain takes nothing where it is not continued. -/
theorem takeBranches_of_not_continues {siblings : List α}
    (h : continuesChain kind? siblings = false) : takeBranches kind? siblings = ([], siblings) := by
  cases siblings with
  | nil => rfl
  | cons a rest =>
      rw [continuesChain, List.head?_cons, Option.bind_some] at h
      rw [takeBranches]
      split
      · rename_i hkind
        rw [hkind] at h
        cases h
      · rename_i hkind
        rw [hkind] at h
        cases h
      · rfl

/-- The branches of a chain stay the same if it is closed, or if what follows does not continue
it. -/
theorem takeBranches_append_of_closed {siblings after : List α}
    (h : chainOpenFrom kind? true siblings = false ∨ continuesChain kind? after = false) :
    takeBranches kind? (siblings ++ after)
        = ((takeBranches kind? siblings).1, (takeBranches kind? siblings).2 ++ after) ∧
      (chainOpen kind? (takeBranches kind? siblings).2 = false ∨
        continuesChain kind? after = false) := by
  induction siblings with
  | nil =>
      have hafter : continuesChain kind? after = false := h.resolve_left (by simp [chainOpenFrom])
      exact ⟨takeBranches_of_not_continues kind? hafter, .inr hafter⟩
  | cons a rest ih =>
      rw [chainOpenFrom_cons] at h
      rw [List.cons_append, takeBranches, takeBranches]
      split
      · rename_i hkind
        have hstays : chainStays kind? true a = true := by rw [chainStays, hkind]
        rw [hstays] at h
        obtain ⟨htake, hopen⟩ := ih h
        rw [htake]
        exact ⟨rfl, hopen⟩
      · rename_i hkind
        have hstays : chainStays kind? true a = false := by rw [chainStays, hkind]
        rw [hstays] at h
        exact ⟨rfl, h⟩
      · rename_i hnot _
        rw [chainStays_eq_of_ne_elseIf kind? hnot true] at h
        exact ⟨rfl, h⟩

/-- Two lists of siblings may be grouped apart, unless the second one continues a chain that is open
after the first one. -/
theorem groupSiblings_append {before after : List α}
    (h : chainOpen kind? before = false ∨ continuesChain kind? after = false) :
    groupSiblings kind? (before ++ after)
      = groupSiblings kind? before ++ groupSiblings kind? after := by
  fun_induction groupSiblings kind? before with
  | case1 => rfl
  | case2 a rest hif _ ih =>
      -- `a` opens a chain; what it takes is the same with and without `after`
      rw [chainOpen, chainOpenFrom_cons, chainStays_of_if kind? hif] at h
      obtain ⟨htake, hopen⟩ := takeBranches_append_of_closed kind? h
      rw [List.cons_append, groupSiblings, if_pos hif, htake, ih hopen, List.cons_append]
  | case3 a rest hother ih =>
      rw [chainOpen, chainOpenFrom_cons, chainStays_of_ne_if kind? hother] at h
      rw [List.cons_append, groupSiblings, if_neg hother, ih h, List.cons_append]

/-- Members with a condition after an open chain are branches of it. -/
theorem takeBranches_append_elseIf {between : List α}
    (h : ∀ a ∈ between, kind? a = some .elseIfBranch) (after : List α) :
    takeBranches kind? (between ++ after)
      = (between.map (Branch.mk .elseIfBranch) ++ (takeBranches kind? after).1,
          (takeBranches kind? after).2) := by
  induction between with
  | nil => rfl
  | cons a rest ih =>
      rw [List.cons_append, takeBranches, h a List.mem_cons_self,
        ih fun b hb => h b (List.mem_cons_of_mem a hb)]
      rfl

/-- A later branch after an open chain belongs to it. -/
theorem exists_takeBranches_cons {a : α} {kind : BranchKind} (h : kind? a = some kind)
    (hlater : kind ≠ .ifBranch) (rest : List α) :
    ∃ more later, takeBranches kind? (a :: rest) = (⟨kind, a⟩ :: more, later) ∧ later <:+ rest := by
  rw [takeBranches, h]
  cases kind with
  | ifBranch => exact absurd rfl hlater
  | elseIfBranch => exact ⟨_, _, rfl, _, takeBranches_append kind? rest⟩
  | elseBranch => exact ⟨[], rest, rfl, List.suffix_refl rest⟩

/-- The first branch of a chain and those that follow it with a condition, before `rest` is looked
at. -/
theorem groupSiblings_cons_if {head : α} {between : List α} (hhead : kind? head = some .ifBranch)
    (hbetween : ∀ a ∈ between, kind? a = some .elseIfBranch) (earlier rest : List α) :
    groupSiblings kind? (earlier ++ head :: between ++ rest)
      = groupSiblings kind? earlier ++ .chain (⟨.ifBranch, head⟩
          :: (between.map (Branch.mk .elseIfBranch) ++ (takeBranches kind? rest).1))
            :: groupSiblings kind? (takeBranches kind? rest).2 := by
  have hfirst : continuesChain kind? (head :: (between ++ rest)) = false := by
    rw [continuesChain, List.head?_cons, Option.bind_some, hhead]
  rw [List.append_assoc, List.cons_append, groupSiblings_append kind? (.inr hfirst), groupSiblings,
    if_pos hhead, takeBranches_append_elseIf kind? hbetween]

variable {before : List α} {a : α} {kind : BranchKind}

theorem groupSiblings_of_not_precededByIf (hkind : kind? a = some kind) (hlater : kind ≠ .ifBranch)
    (h : ¬ PrecededByIf kind? before) (after : List α) :
    groupSiblings kind? (before ++ a :: after)
      = groupSiblings kind? before ++ .single a :: groupSiblings kind? after := by
  have hclosed : chainOpen kind? before = false := by
    rw [← Bool.not_eq_true, chainOpen_iff]
    exact h
  have hother : ¬ kind? a = some .ifBranch := by
    rw [hkind]
    simpa using hlater
  rw [groupSiblings_append kind? (.inl hclosed), groupSiblings, if_neg hother]

/-- A later branch is a group of its own exactly if it is not preceded by a first branch. -/
theorem groupSiblings_single_iff (hkind : kind? a = some kind) (hlater : kind ≠ .ifBranch)
    (after : List α) :
    groupSiblings kind? (before ++ a :: after)
        = groupSiblings kind? before ++ .single a :: groupSiblings kind? after ↔
      ¬ PrecededByIf kind? before := by
  refine ⟨?_, fun h => groupSiblings_of_not_precededByIf kind? hkind hlater h after⟩
  rintro heq ⟨earlier, head, between, rfl, hhead, hbetween⟩
  obtain ⟨more, later, htake, -⟩ := exists_takeBranches_cons kind? hkind hlater after
  have hbefore := groupSiblings_cons_if kind? hhead hbetween earlier []
  rw [List.append_nil, takeBranches, List.append_nil] at hbefore
  rw [groupSiblings_cons_if kind? hhead hbetween, hbefore, htake, List.append_assoc,
    List.cons_append] at heq
  -- the chain would have to end before `a` and hold it as well
  have hchain := Group.chain.inj (List.head_eq_of_cons_eq (List.append_cancel_left heq))
  simpa using congrArg List.length hchain

/-! ## Members outside of chains -/

variable {β : Type}

/-- What `f` makes of the members of groups that are no chains. -/
def Group.alone (f : α → List β) : Group α → List β
  | .single member => f member
  | .chain _ => []

/-- What `f` makes of the members before which no chain is open. -/
def outsideChains (f : α → List β) (isOpen : Bool) : List α → List β
  | [] => []
  | a :: rest =>
    (if isOpen then [] else f a) ++ outsideChains f (chainStays kind? isOpen a) rest

variable {f : α → List β}

/-- What is left to group of the siblings: an open chain first takes its branches. -/
def afterChain (isOpen : Bool) (siblings : List α) : List α :=
  if isOpen then (takeBranches kind? siblings).2 else siblings

/-- A first member is alone or opens a chain. -/
theorem flatMap_alone_cons {a : α} (hf : kind? a = some .ifBranch → f a = []) (rest : List α) :
    (groupSiblings kind? (a :: rest)).flatMap (Group.alone f)
      = f a ++ (groupSiblings kind? (afterChain kind? (chainStays kind? false a) rest)).flatMap
          (Group.alone f) := by
  rw [groupSiblings]
  split
  · rename_i hif
    rw [chainStays_of_if kind? hif, hf hif]
    rfl
  · rename_i hother
    rw [chainStays_of_ne_if kind? hother]
    rfl

/-- If `f` makes something of branches that need a chain only, it is asked for those without
one. -/
theorem flatMap_alone
    (hf : ∀ a, kind? a ≠ some .elseIfBranch → kind? a ≠ some .elseBranch → f a = [])
    (isOpen : Bool) (siblings : List α) :
    (groupSiblings kind? (afterChain kind? isOpen siblings)).flatMap (Group.alone f)
      = outsideChains kind? f isOpen siblings := by
  induction siblings generalizing isOpen with
  | nil =>
      have hnil : afterChain kind? isOpen ([] : List α) = [] := by cases isOpen <;> rfl
      rw [hnil, groupSiblings]
      rfl
  | cons a rest ih =>
      have hcons := flatMap_alone_cons kind? (a := a) (f := f)
        (fun hif => hf a (by simp [hif]) (by simp [hif])) rest
      rw [ih] at hcons
      cases isOpen with
      | false => exact hcons
      | true =>
          show _ = outsideChains kind? f (chainStays kind? true a) rest
          rw [afterChain, if_pos rfl, takeBranches]
          split
          · rename_i hkind
            have hstays : chainStays kind? true a = true := by rw [chainStays, hkind]
            rw [hstays, ← ih true]
            rfl
          · rename_i hkind
            have hstays : chainStays kind? true a = false := by rw [chainStays, hkind]
            rw [hstays, ← ih false]
            rfl
          · rename_i helseIf helse
            rw [hcons, hf a helseIf helse, chainStays_eq_of_ne_elseIf kind? helseIf true]
            rfl

/-- The members before which no chain is open, by their places. -/
theorem outsideChains_eq (before siblings : List α) :
    outsideChains kind? f (chainOpen kind? before) siblings
      = (siblings.zipIdx before.length).flatMap fun place =>
          if PrecededByIf kind? ((before ++ siblings).take place.2) then [] else f place.1 := by
  induction siblings generalizing before with
  | nil => rfl
  | cons a rest ih =>
      have hrest := ih (before ++ [a])
      rw [chainOpen_concat, List.length_append, List.length_singleton, List.append_assoc,
        List.singleton_append] at hrest
      rw [outsideChains, hrest, List.zipIdx_cons, List.flatMap_cons, List.take_left]
      simp only [chainOpen_iff]

end

end AstroTemplate
