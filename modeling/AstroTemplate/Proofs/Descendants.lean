import AstroTemplate.Markup.Whitespace

set_option autoImplicit false

/-! # The nodes of a tree at any depth

`Node.all` lists the nodes of a list of siblings together with everything inside them, in the
order of the document. Statements about every node of a template quantify over it. Where siblings
are looked at together, `Node.siblingLists` lists the lists of siblings; every node is in exactly
one of them. What holds of an element if it holds of its children is shown by
`Node.tree_induction`.
-/

namespace AstroTemplate

namespace Node

mutual

/-- The node and everything inside it. -/
def family : Node → List Node
  | text span data blank => [text span data blank]
  | interpolation span expressionSpan expression => [interpolation span expressionSpan expression]
  | comment span data => [comment span data]
  | element tag children => element tag children :: all children

/-- All nodes of a list of siblings, at any depth. -/
def all : List Node → List Node
  | [] => []
  | node :: rest => node.family ++ all rest

end

mutual

/-- The lists of siblings inside the node. -/
def listsIn : Node → List (List Node)
  | element _ children => children :: listsInAll children
  | _ => []

/-- The lists of siblings inside the nodes. -/
def listsInAll : List Node → List (List Node)
  | [] => []
  | node :: rest => node.listsIn ++ listsInAll rest

end

/-- All lists of siblings, at any depth. -/
def siblingLists (nodes : List Node) : List (List Node) := nodes :: listsInAll nodes

mutual

/-- To show something of a node, show it of the leaves, and of an element whose children have
it. -/
@[elab_as_elim] theorem tree_induction {motive : Node → Prop}
    (leaf : ∀ node, node.sort ≠ .element → motive node)
    (element : ∀ tag children, (∀ n ∈ children, motive n) → motive (.element tag children)) :
    ∀ node, motive node
  | .text _ _ _ => leaf _ nofun
  | .interpolation _ _ _ => leaf _ nofun
  | .comment _ _ => leaf _ nofun
  | .element tag children => element tag children (children_induction leaf element children)

/-- The same for each of a list of siblings. -/
theorem children_induction {motive : Node → Prop}
    (leaf : ∀ node, node.sort ≠ .element → motive node)
    (element : ∀ tag children, (∀ n ∈ children, motive n) → motive (.element tag children)) :
    ∀ nodes : List Node, ∀ n ∈ nodes, motive n
  | [], _, hn => nomatch hn
  | node :: rest, n, hn =>
    (List.mem_cons.1 hn).elim (fun h => h ▸ tree_induction leaf element node)
      (children_induction leaf element rest n)

end

theorem all_eq_flatMap (nodes : List Node) : all nodes = nodes.flatMap family := by
  induction nodes with
  | nil => rfl
  | cons node nodes ih => rw [all, ih, List.flatMap_cons]

theorem listsInAll_eq_flatMap (nodes : List Node) : listsInAll nodes = nodes.flatMap listsIn := by
  induction nodes with
  | nil => rfl
  | cons node nodes ih => rw [listsInAll, ih, List.flatMap_cons]

/-- If the families of some siblings are the siblings and their inner lists, one by one, so they
are together. -/
theorem flatMap_family_perm {nodes : List Node}
    (h : ∀ n ∈ nodes, n.family.Perm (n :: n.listsIn.flatten)) :
    (nodes.flatMap family).Perm (nodes ++ (nodes.flatMap listsIn).flatten) := by
  induction nodes with
  | nil => exact List.Perm.refl []
  | cons node rest ih =>
      have hrest := ih fun n hn => h n (List.mem_cons_of_mem node hn)
      rw [List.flatMap_cons, List.flatMap_cons, List.flatten_append, List.cons_append,
        ← List.append_assoc]
      refine ((h node List.mem_cons_self).append hrest).trans ?_
      rw [List.cons_append, ← List.append_assoc]
      exact (List.perm_append_comm.append_right _).cons node

/-- Every node is in one of the lists of siblings, and in no other. -/
theorem flatten_siblingLists_perm (nodes : List Node) :
    (siblingLists nodes).flatten.Perm (all nodes) := by
  have hfamily : ∀ n : Node, n.family.Perm (n :: n.listsIn.flatten) := by
    intro n
    induction n using tree_induction with
    | leaf node hleaf =>
        cases node with
        | text => exact List.Perm.refl _
        | interpolation => exact List.Perm.refl _
        | comment => exact List.Perm.refl _
        | element => exact absurd rfl hleaf
    | element tag children ih =>
        rw [family, listsIn, all_eq_flatMap, listsInAll_eq_flatMap, List.flatten_cons]
        exact (flatMap_family_perm ih).cons _
  rw [siblingLists, List.flatten_cons, listsInAll_eq_flatMap, all_eq_flatMap]
  exact (flatMap_family_perm fun n _ => hfamily n).symm

theorem mem_all {n : Node} {nodes : List Node} : n ∈ all nodes ↔ ∃ m ∈ nodes, n ∈ m.family := by
  induction nodes with
  | nil => simp [all]
  | cons m nodes ih => simp [all, ih]

theorem mem_family_element {n : Node} {tag : Tag} {children : List Node} :
    n ∈ (element tag children).family ↔ n = element tag children ∨ n ∈ all children := by
  simp [family]

theorem subset_all (nodes : List Node) : nodes ⊆ all nodes := by
  intro node hnode
  refine mem_all.2 ⟨node, hnode, ?_⟩
  cases node <;> simp [family]

theorem family_subset_all {node : Node} {nodes : List Node} (h : node ∈ nodes) :
    node.family ⊆ all nodes := fun _ hn => mem_all.2 ⟨node, h, hn⟩

theorem family_subset_element {child : Node} {children : List Node} (h : child ∈ children)
    (tag : Tag) : child.family ⊆ (element tag children).family :=
  fun _ hn => mem_family_element.2 (.inr (family_subset_all h hn))

theorem all_subset {nodes nodes' : List Node} (h : nodes ⊆ nodes') : all nodes ⊆ all nodes' := by
  intro n hn
  obtain ⟨m, hm, hfamily⟩ := mem_all.1 hn
  exact mem_all.2 ⟨m, h hm, hfamily⟩

/-- Only a text is lost with the line break at the beginning, and no element is made. -/
theorem mem_of_mem_dropLeadingBreak {m : Node} {nodes : List Node} (hm : m.sort ≠ .text)
    (h : m ∈ dropLeadingBreak nodes) : m ∈ nodes := by
  unfold dropLeadingBreak at h
  split at h
  · split at h
    · exact List.mem_cons_of_mem _ h
    · rcases List.mem_cons.1 h with rfl | h
      · exact absurd rfl hm
      · exact List.mem_cons_of_mem _ h
  · exact h

theorem element_mem_all_of_dropLeadingBreak {tag : Tag} {children nodes : List Node}
    (h : element tag children ∈ all (dropLeadingBreak nodes)) :
    element tag children ∈ all nodes := by
  obtain ⟨m, hm, hfamily⟩ := mem_all.1 h
  have hsort : m.sort ≠ .text := by
    intro hsort
    cases m with
    | text => simp [family] at hfamily
    | interpolation => cases hsort
    | comment => cases hsort
    | element => cases hsort
  exact mem_all.2 ⟨m, mem_of_mem_dropLeadingBreak hsort hm, hfamily⟩

end Node

end AstroTemplate
