import AstroTemplate.Markup.Whitespace
import Mathlib.Data.List.Chain

set_option autoImplicit false

/-! # What condensing leaves of siblings

Condensing decides on each node by the node itself and the sorts of its two neighbours
(`Node.remaining`). Where no two texts stand next to each other, the neighbours of a text are kept,
so that a list may be condensed in parts: what stands before a text, the text, and what stands after
it (`condense_append_text`). Hence condensing a second time finds every text between the neighbours
it had the first time, and changes nothing (`condenseAfter_condenseAfter`).
-/

namespace AstroTemplate

/-! ## Runs of white space -/

/-- All white space in the text is single spaces. -/
structure SingleSpaced (s : List Char) : Prop where
  only_spaces : ∀ c ∈ s, isTagSpace c = true → c = ' '
  no_two : ¬ [' ', ' '] <:+: s

theorem singleSpaced_nil : SingleSpaced [] := ⟨List.forall_mem_nil _, by simp⟩

theorem singleSpaced_cons_iff {c : Char} {s : List Char} :
    SingleSpaced (c :: s) ↔ SingleSpaced s ∧
      (isTagSpace c = true → c = ' ' ∧ s.head?.any isTagSpace = false) := by
  constructor
  · rintro ⟨honly, htwo⟩
    have hrest : SingleSpaced s :=
      ⟨fun d hd => honly d (List.mem_cons_of_mem c hd), fun hin => htwo (List.infix_cons hin)⟩
    refine ⟨hrest, fun hc => ⟨honly c List.mem_cons_self hc, ?_⟩⟩
    cases s with
    | nil => rfl
    | cons d s =>
        refine Bool.not_eq_true _ ▸ fun hd => htwo ?_
        rw [honly c List.mem_cons_self hc, honly d (by simp) hd]
        exact (List.prefix_append [' ', ' '] s).isInfix
  · rintro ⟨⟨honly, htwo⟩, hc⟩
    refine ⟨List.forall_mem_cons.2 ⟨fun hspace => (hc hspace).1, honly⟩, fun hin => ?_⟩
    rcases List.infix_cons_iff.1 hin with hfirst | hin
    · obtain ⟨rfl, hnext⟩ := List.cons_prefix_cons.1 hfirst
      obtain ⟨t, rfl⟩ := hnext
      exact absurd (hc rfl).2 (by simp [isTagSpace])
    · exact htwo hin

/-- Where a run of white space has begun, the collapsed text begins with none. -/
theorem singleSpaced_collapseSpaceFrom (inRun : Bool) (s : List Char) :
    SingleSpaced (collapseSpaceFrom inRun s) ∧
      (inRun = true → (collapseSpaceFrom inRun s).head?.any isTagSpace = false) := by
  fun_induction collapseSpaceFrom inRun s with
  | case1 => exact ⟨singleSpaced_nil, fun _ => rfl⟩
  | case2 c s hspace ih => exact ih
  | case3 inRun c s hspace hfirst ih =>
      exact ⟨singleSpaced_cons_iff.2 ⟨ih.1, fun _ => ⟨rfl, ih.2 rfl⟩⟩, fun h => absurd h hfirst⟩
  | case4 inRun c s hword ih =>
      exact ⟨singleSpaced_cons_iff.2 ⟨ih.1, fun h => absurd h hword⟩, fun _ => by simp [hword]⟩

theorem collapseSpaceFrom_of_singleSpaced {s : List Char} (h : SingleSpaced s) (inRun : Bool)
    (hrun : inRun = true → s.head?.any isTagSpace = false) : collapseSpaceFrom inRun s = s := by
  induction s generalizing inRun with
  | nil => rfl
  | cons c s ih =>
      obtain ⟨hrest, hc⟩ := singleSpaced_cons_iff.1 h
      rw [collapseSpaceFrom]
      split
      · rename_i hspace
        obtain ⟨rfl, hnext⟩ := hc hspace
        rw [if_neg fun hin => absurd (hrun hin) (by simp [isTagSpace]),
          ih hrest true fun _ => hnext]
      · rw [ih hrest false fun hin => absurd hin Bool.false_ne_true]

/-- A collapsed text stays as it is. -/
theorem collapseSpace_collapseSpace (s : List Char) :
    collapseSpace (collapseSpace s) = collapseSpace s :=
  collapseSpaceFrom_of_singleSpaced (singleSpaced_collapseSpaceFrom false s).1 false
    fun hin => absurd hin Bool.false_ne_true

/-- The text without its white space. -/
def inkOf (s : List Char) : List Char := s.filter fun c => !isTagSpace c

theorem isTagBlank_iff {s : List Char} : isTagBlank s = true ↔ inkOf s = [] := by
  simp [isTagBlank, inkOf]

/-- Collapsing touches white space only. -/
theorem inkOf_collapseSpaceFrom (inRun : Bool) (s : List Char) :
    inkOf (collapseSpaceFrom inRun s) = inkOf s := by
  unfold inkOf
  fun_induction collapseSpaceFrom inRun s with
  | case1 => rfl
  | case2 c s hspace ih => rw [ih, List.filter_cons_of_neg (by simp [hspace])]
  | case3 inRun c s hspace hfirst ih =>
      rw [List.filter_cons_of_neg (by decide), ih, List.filter_cons_of_neg (by simp [hspace])]
  | case4 inRun c s hword ih =>
      rw [List.filter_cons_of_pos (by simpa using hword), ih,
        List.filter_cons_of_pos (by simpa using hword)]

theorem isTagBlank_collapseSpace (s : List Char) : isTagBlank (collapseSpace s) = isTagBlank s := by
  rw [Bool.eq_iff_iff, isTagBlank_iff, isTagBlank_iff, collapseSpace, inkOf_collapseSpaceFrom]

/-! ## One node -/

/-- What condensing leaves of a node that stands between two neighbours. -/
def Node.remaining (previous next : Option NodeSort) : Node → List Node
  | .text span data _ =>
    if isTagBlank data then
      if dropsBlank previous next data then [] else [.text span [' '] true]
    else [.text span (collapseSpace data) false]
  | node => [node]

theorem condenseAfter_cons (previous : Option NodeSort) (node : Node) (rest : List Node) :
    condenseAfter previous (node :: rest)
      = node.remaining previous (rest.head?.map Node.sort)
        ++ condenseAfter (some node.sort) rest := by
  cases node with
  | text span data blank =>
      rw [condenseAfter, Node.remaining]
      split
      · split <;> rfl
      · rfl
  | interpolation => rfl
  | comment => rfl
  | element => rfl

theorem Node.remaining_of_sort {node : Node} (h : node.sort ≠ .text)
    (previous next : Option NodeSort) : node.remaining previous next = [node] := by
  cases node with
  | text => exact absurd rfl h
  | interpolation => rfl
  | comment => rfl
  | element => rfl

/-- At most one node is left of a node, and it is of the same sort. -/
theorem Node.remaining_cases (node : Node) (previous next : Option NodeSort) :
    node.sort = .text ∧ node.remaining previous next = [] ∨
      ∃ kept : Node, kept.sort = node.sort ∧ node.remaining previous next = [kept] := by
  cases node with
  | text span data blank =>
      rw [Node.remaining]
      split
      · split
        · exact .inl ⟨rfl, rfl⟩
        · exact .inr ⟨.text span [' '] true, rfl, rfl⟩
      · exact .inr ⟨.text span (collapseSpace data) false, rfl, rfl⟩
  | interpolation => exact .inr ⟨_, rfl, rfl⟩
  | comment => exact .inr ⟨_, rfl, rfl⟩
  | element => exact .inr ⟨_, rfl, rfl⟩

/-- A blank text stays between two neighbours unless one of them is missing, both are comments, one
is a comment and the other one an element, or both are elements and the text breaks the line. -/
def KeepsSpace (previous next : Option Node) (data : List Char) : Prop :=
  ∃ p n, previous = some p ∧ next = some n ∧
    ¬ (p.sort = .comment ∧ n.sort = .comment) ∧ ¬ (p.sort = .comment ∧ n.sort = .element) ∧
    ¬ (p.sort = .element ∧ n.sort = .comment) ∧
    ¬ (p.sort = .element ∧ n.sort = .element ∧ ('\n' ∈ data ∨ '\r' ∈ data))

theorem dropsBlank_eq_false_iff {previous next : Option Node} {data : List Char} :
    dropsBlank (previous.map Node.sort) (next.map Node.sort) data = false ↔
      KeepsSpace previous next data := by
  have hbreak : (data.any fun c => c == '\n' || c == '\r') = false ↔
      ¬ ('\n' ∈ data ∨ '\r' ∈ data) := by
    simp only [List.any_eq_false, Bool.or_eq_true, beq_iff_eq, not_or]
    exact ⟨fun h => ⟨fun hn => (h _ hn).1 rfl, fun hr => (h _ hr).2 rfl⟩,
      fun h c hc => ⟨fun hn => h.1 (hn ▸ hc), fun hr => h.2 (hr ▸ hc)⟩⟩
  unfold KeepsSpace
  cases previous with
  | none => simp [dropsBlank]
  | some p =>
      cases next with
      | none => cases h : p.sort <;> simp [dropsBlank, h]
      | some n =>
          -- only between two elements does the text itself matter
          cases hp : p.sort <;> cases hn : n.sort <;> simp [dropsBlank, hp, hn]
          simpa using hbreak

/-- What is left of a node would be left once more. -/
theorem Node.remaining_of_mem {node kept : Node} {previous next : Option NodeSort}
    (h : kept ∈ node.remaining previous next) : kept.remaining previous next = [kept] := by
  cases node with
  | text span data blank =>
      rw [Node.remaining] at h
      split at h
      · split at h
        · cases h
        · rename_i hkept
          obtain rfl := List.mem_singleton.1 h
          have hspace : dropsBlank previous next [' '] = false := by
            rw [Bool.not_eq_true] at hkept
            unfold dropsBlank at hkept ⊢
            split <;> simp_all
          rw [Node.remaining, if_pos (by decide), if_neg (by simp [hspace])]
      · rename_i hword
        obtain rfl := List.mem_singleton.1 h
        rw [Node.remaining, isTagBlank_collapseSpace, if_neg hword, collapseSpace_collapseSpace]
  | interpolation => rw [List.mem_singleton.1 h]; rfl
  | comment => rw [List.mem_singleton.1 h]; rfl
  | element => rw [List.mem_singleton.1 h]; rfl

/-- White space in a text is single spaces, and the text is known to be blank if it is. -/
def Node.IsTidy : Node → Prop
  | .text _ data blank => SingleSpaced data ∧ blank = isTagBlank data
  | _ => True

theorem Node.isTidy_remaining {node kept : Node} {previous next : Option NodeSort}
    (h : kept ∈ node.remaining previous next) : kept.IsTidy := by
  cases node with
  | text span data blank =>
      rw [Node.remaining] at h
      split at h
      · split at h
        · cases h
        · rw [List.mem_singleton.1 h]
          exact ⟨singleSpaced_cons_iff.2 ⟨singleSpaced_nil, fun _ => ⟨rfl, rfl⟩⟩, rfl⟩
      · rename_i hword
        rw [List.mem_singleton.1 h]
        refine ⟨(singleSpaced_collapseSpaceFrom false data).1, ?_⟩
        rw [isTagBlank_collapseSpace, Bool.eq_false_iff.2 hword]
  | interpolation => rw [List.mem_singleton.1 h]; trivial
  | comment => rw [List.mem_singleton.1 h]; trivial
  | element => rw [List.mem_singleton.1 h]; trivial

/-- The text of a node without its white space, if there is any text. -/
def Node.ink? : Node → Option (List Char)
  | .text _ data _ => if isTagBlank data then none else some (inkOf data)
  | _ => none

theorem Node.filterMap_ink?_remaining (node : Node) (previous next : Option NodeSort) :
    (node.remaining previous next).filterMap Node.ink? = [node].filterMap Node.ink? := by
  cases node with
  | text span data blank =>
      rw [Node.remaining]
      split
      · rename_i hblank
        have hnone : (Node.text span data blank).ink? = none := if_pos hblank
        split
        · rw [List.filterMap_cons_none hnone]
        · rw [List.filterMap_cons_none hnone, List.filterMap_cons_none rfl]
      · rename_i hword
        have hsome : (Node.text span data blank).ink? = some (inkOf data) := if_neg hword
        have hkept : (Node.text span (collapseSpace data) false).ink? = some (inkOf data) := by
          rw [Node.ink?, isTagBlank_collapseSpace, if_neg hword, collapseSpace,
            inkOf_collapseSpaceFrom]
        rw [List.filterMap_cons_some hsome, List.filterMap_cons_some hkept]
  | interpolation => rfl
  | comment => rfl
  | element => rfl

/-! ## Lists of siblings -/

/-- No two texts stand next to each other. -/
def TextsApart (nodes : List Node) : Prop :=
  nodes.IsChain fun a b => a.sort = .text → b.sort ≠ .text

theorem TextsApart.head {node : Node} {rest : List Node} (h : TextsApart (node :: rest))
    (hnode : node.sort = .text) : ∀ n ∈ rest.head?, n.sort ≠ .text := fun n hn =>
  (List.isChain_cons.1 h).1 n hn hnode

/-- The node before the first one matters to a text only. -/
theorem condenseAfter_eq_condense {nodes : List Node} (h : ∀ n ∈ nodes.head?, n.sort ≠ .text)
    (previous : Option NodeSort) : condenseAfter previous nodes = condense nodes := by
  cases nodes with
  | nil => rfl
  | cons node rest =>
      have hnode := h node rfl
      rw [condense, condenseAfter_cons, condenseAfter_cons, Node.remaining_of_sort hnode,
        Node.remaining_of_sort hnode]

theorem head?_condenseAfter {nodes : List Node} (h : ∀ n ∈ nodes.head?, n.sort ≠ .text)
    (previous : Option NodeSort) : (condenseAfter previous nodes).head? = nodes.head? := by
  cases nodes with
  | nil => rfl
  | cons node rest =>
      rw [condenseAfter_cons, Node.remaining_of_sort (h node rfl)]
      rfl

theorem getLast?_condenseAfter {nodes : List Node} (h : ∀ n ∈ nodes.getLast?, n.sort ≠ .text)
    (previous : Option NodeSort) : (condenseAfter previous nodes).getLast? = nodes.getLast? := by
  induction nodes generalizing previous with
  | nil => rfl
  | cons node rest ih =>
      rw [condenseAfter_cons, List.getLast?_append]
      cases rest with
      | nil => rw [Node.remaining_of_sort (h node rfl)]; rfl
      | cons next rest =>
          rw [List.getLast?_cons_cons] at h ⊢
          rw [ih h, List.getLast?_eq_some_getLast (List.cons_ne_nil next rest), Option.some_or]

/-- A list can be cut after a node that is no text. -/
theorem condenseAfter_append {before : List Node} (h : ∀ n ∈ before.getLast?, n.sort ≠ .text)
    (previous : Option NodeSort) (rest : List Node) :
    condenseAfter previous (before ++ rest)
      = condenseAfter previous before
        ++ condenseAfter ((before.getLast?.map Node.sort).or previous) rest := by
  induction before generalizing previous with
  | nil => rfl
  | cons node before ih =>
      rw [List.cons_append, condenseAfter_cons, condenseAfter_cons, List.append_assoc]
      cases before with
      | nil => rw [Node.remaining_of_sort (h node rfl), Node.remaining_of_sort (h node rfl)]; rfl
      | cons next before =>
          rw [List.getLast?_cons_cons] at h ⊢
          rw [ih h, List.getLast?_eq_some_getLast (List.cons_ne_nil next before)]
          rfl

/-- **Siblings are condensed in parts.** What stands before a text, the text, and what stands after
it do not depend on each other, but for the neighbours of the text. -/
theorem condense_append_text {before after : List Node} {text : Node} (hsort : text.sort = .text)
    (h : TextsApart (before ++ text :: after)) :
    condense (before ++ text :: after)
      = condense before
        ++ (text.remaining (before.getLast?.map Node.sort) (after.head?.map Node.sort)
          ++ condense after) := by
  obtain ⟨-, hrest, hjoint⟩ := List.isChain_append.1 h
  have hlast : ∀ n ∈ before.getLast?, n.sort ≠ .text := fun n hn htext =>
    hjoint n hn text rfl htext hsort
  rw [condense, condenseAfter_append hlast, Option.or_none, condenseAfter_cons,
    condenseAfter_eq_condense (TextsApart.head hrest hsort)]
  rfl

theorem TextsApart.condenseAfter {nodes : List Node} (h : TextsApart nodes)
    (previous : Option NodeSort) : TextsApart (condenseAfter previous nodes) := by
  induction nodes generalizing previous with
  | nil => exact List.isChain_nil
  | cons node rest ih =>
      have hrest := ih h.tail (some node.sort)
      rw [condenseAfter_cons]
      rcases node.remaining_cases previous (rest.head?.map Node.sort) with
        ⟨-, hnone⟩ | ⟨kept, hsort, hkept⟩
      · rwa [hnone, List.nil_append]
      · rw [hkept, List.singleton_append]
        refine List.isChain_cons.2 ⟨fun next hnext htext => ?_, hrest⟩
        -- the node after a text is no text, so it has been kept
        have hhead := h.head (hsort ▸ htext)
        rw [head?_condenseAfter hhead] at hnext
        exact hhead next hnext

theorem condenseAfter_condenseAfter {nodes : List Node} (h : TextsApart nodes)
    (previous : Option NodeSort) :
    condenseAfter previous (condenseAfter previous nodes) = condenseAfter previous nodes := by
  induction nodes generalizing previous with
  | nil => rfl
  | cons node rest ih =>
      have hrest := ih h.tail (some node.sort)
      rw [condenseAfter_cons]
      rcases node.remaining_cases previous (rest.head?.map Node.sort) with
        ⟨htext, hnone⟩ | ⟨kept, hsort, hkept⟩
      · have hhead := h.head htext
        have hhead' := head?_condenseAfter hhead (some node.sort)
        rw [hnone, List.nil_append, condenseAfter_eq_condense (hhead' ▸ hhead),
          ← condenseAfter_eq_condense (hhead' ▸ hhead) (some node.sort), hrest]
      · have hagain := Node.remaining_of_mem (hkept ▸ List.mem_singleton_self kept)
        rw [hkept, List.singleton_append, condenseAfter_cons, hsort, hrest]
        -- a node that is no text is kept in any case, and a text has kept its neighbours
        by_cases htext : node.sort = .text
        · rw [head?_condenseAfter (h.head htext), hagain, List.singleton_append]
        · rw [Node.remaining_of_sort (hsort ▸ htext), List.singleton_append]

/-- What condensing leaves of every single node, it leaves of the list. -/
theorem filterMap_condenseAfter {β : Type} {f : Node → Option β}
    (h : ∀ node previous next, (Node.remaining previous next node).filterMap f = [node].filterMap f)
    (previous : Option NodeSort) (nodes : List Node) :
    (condenseAfter previous nodes).filterMap f = nodes.filterMap f := by
  induction nodes generalizing previous with
  | nil => rfl
  | cons node rest ih =>
      rw [condenseAfter_cons, List.filterMap_append, h, ih, ← List.filterMap_append,
        List.singleton_append]

theorem filter_condense (nodes : List Node) :
    (condense nodes).filter (·.sort ≠ .text) = nodes.filter (·.sort ≠ .text) := by
  rw [← List.filterMap_eq_filter]
  refine filterMap_condenseAfter (fun node previous next => ?_) none nodes
  rw [List.filterMap_eq_filter]
  rcases node.remaining_cases previous next with ⟨htext, hnone⟩ | ⟨kept, hsort, hkept⟩
  · simp [hnone, htext]
  · by_cases htext : node.sort = .text
    · simp [hkept, hsort, htext]
    · rw [Node.remaining_of_sort htext]

/-- What is left of a text at the end of the list is not blank. -/
theorem Node.not_isBlankText_remaining {node kept : Node} {previous next : Option NodeSort}
    (hend : previous = none ∨ next = none) (h : kept ∈ node.remaining previous next)
    (hsort : node.sort = .text) : kept.isBlankText = false := by
  cases node with
  | text span data blank =>
      have hdrops : dropsBlank previous next data = true := by
        rcases hend with rfl | rfl
        · rfl
        · rcases previous with - | (- | - | - | -) <;> rfl
      rw [Node.remaining, if_pos hdrops] at h
      split at h
      · cases h
      · rw [List.mem_singleton.1 h]
        rfl
  | interpolation => cases hsort
  | comment => cases hsort
  | element => cases hsort

theorem Node.not_isBlankText_of_sort {node : Node} (h : node.sort ≠ .text) :
    node.isBlankText = false := by
  cases node with
  | text => exact absurd rfl h
  | interpolation => rfl
  | comment => rfl
  | element => rfl

theorem not_isBlankText_head?_condense {nodes : List Node} (h : TextsApart nodes) :
    ∀ n ∈ (condense nodes).head?, n.isBlankText = false := by
  intro n hn
  rcases nodes with - | ⟨first, rest⟩
  · cases hn
  by_cases htext : first.sort = .text
  · have hhead := h.head htext
    rw [condense, condenseAfter_cons, condenseAfter_eq_condense hhead, List.head?_append,
      condense, head?_condenseAfter hhead, Option.mem_def, Option.or_eq_some_iff] at hn
    rcases hn with hn | ⟨-, hn⟩
    · exact Node.not_isBlankText_remaining (.inl rfl) (List.mem_of_head? hn) htext
    · exact Node.not_isBlankText_of_sort (hhead n hn)
  · rw [condense, condenseAfter_cons, Node.remaining_of_sort htext] at hn
    obtain rfl := Option.some.inj hn
    exact Node.not_isBlankText_of_sort htext

theorem not_isBlankText_getLast?_condense {nodes : List Node} (h : TextsApart nodes) :
    ∀ n ∈ (condense nodes).getLast?, n.isBlankText = false := by
  intro n hn
  rcases List.eq_nil_or_concat nodes with rfl | ⟨before, last, rfl⟩
  · cases hn
  rw [List.concat_eq_append] at h hn
  by_cases htext : last.sort = .text
  · have hlast : ∀ m ∈ before.getLast?, m.sort ≠ .text := fun m hm hsort =>
      (List.isChain_append.1 h).2.2 m hm last rfl hsort htext
    rw [condense_append_text htext h, show condense [] = [] from rfl, List.append_nil,
      List.getLast?_append, condense, getLast?_condenseAfter hlast, Option.mem_def,
      Option.or_eq_some_iff] at hn
    rcases hn with hn | ⟨-, hn⟩
    · exact Node.not_isBlankText_remaining (.inr rfl) (List.mem_of_getLast? hn) htext
    · exact Node.not_isBlankText_of_sort (hlast n hn)
  · rw [condense, getLast?_condenseAfter (by simpa using htext)] at hn
    obtain rfl : last = n := by simpa using hn
    exact Node.not_isBlankText_of_sort htext

theorem mem_condenseAfter {nodes : List Node} {previous : Option NodeSort} {kept : Node}
    (h : kept ∈ condenseAfter previous nodes) :
    ∃ node ∈ nodes, ∃ p n, kept ∈ node.remaining p n := by
  induction nodes generalizing previous with
  | nil => cases h
  | cons node rest ih =>
      rw [condenseAfter_cons] at h
      rcases List.mem_append.1 h with h | h
      · exact ⟨node, List.mem_cons_self, _, _, h⟩
      · obtain ⟨m, hm, hkept⟩ := ih h
        exact ⟨m, List.mem_cons_of_mem node hm, hkept⟩

theorem isTidy_of_mem_condense {nodes : List Node} {node : Node} (h : node ∈ condense nodes) :
    node.IsTidy := by
  obtain ⟨m, -, p, n, hnode⟩ := mem_condenseAfter h
  exact Node.isTidy_remaining hnode

end AstroTemplate
