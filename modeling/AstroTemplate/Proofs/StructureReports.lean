import AstroTemplate.Lint.Structure
import AstroTemplate.Proofs.Descendants
import Mathlib.Data.List.Basic

set_option autoImplicit false

/-! # The reports of the structure checks, by code

The three kinds of reports come mixed: an element brings its own, then those on its children. Here
the reports with one code are picked out. Those on branches without a chain come list of siblings
by list of siblings (`filter_checkStructure_orphan`), those on repeated attributes and directives
element by element (`filter_checkStructure_attribute`, `filter_checkStructure_directive`).
-/

namespace AstroTemplate

theorem code_repeatedAttributes {tag : Tag} {d : Diagnostic} (h : d ∈ tag.repeatedAttributes) :
    d.code = .duplicateAttribute := by
  obtain ⟨_, -, rfl⟩ := List.mem_map.1 h
  rfl

theorem code_repeatedDirectives {tag : Tag} {d : Diagnostic} (h : d ∈ tag.repeatedDirectives) :
    d.code = .duplicateDirective := by
  obtain ⟨_, -, rfl⟩ := List.mem_map.1 h
  rfl

theorem code_orphanBranch {tag : Tag} {d : Diagnostic} (h : d ∈ tag.orphanBranch) :
    d.code = .orphanElse := by
  unfold Tag.orphanBranch at h
  cases hkind : tag.branchKind? with
  | none =>
      rw [hkind] at h
      cases h
  | some kind =>
      rw [hkind] at h
      cases kind with
      | ifBranch => cases h
      | elseIfBranch => rw [List.mem_singleton.1 h]; rfl
      | elseBranch => rw [List.mem_singleton.1 h]; rfl

theorem code_orphanBranches {siblings : List Node} {d : Diagnostic}
    (h : d ∈ orphanBranches siblings) : d.code = .orphanElse := by
  obtain ⟨group, -, hd⟩ := List.mem_flatMap.1 h
  cases group with
  | chain branches => cases hd
  | single node =>
      cases node with
      | element tag children => exact code_orphanBranch hd
      | text => cases hd
      | interpolation => cases hd
      | comment => cases hd

section

variable {reports : List Diagnostic} {code : DiagnosticCode}

theorem filter_code_eq_self (h : ∀ d ∈ reports, d.code = code) :
    reports.filter (·.code = code) = reports :=
  List.filter_eq_self.2 fun d hd => decide_eq_true (h d hd)

theorem filter_code_eq_nil {other : DiagnosticCode} (h : ∀ d ∈ reports, d.code = other)
    (hne : other ≠ code) : reports.filter (·.code = code) = [] :=
  List.filter_eq_nil_iff.2 fun d hd => by simpa [h d hd] using hne

end

theorem Node.checkStructures_eq_flatMap (nodes : List Node) :
    Node.checkStructures nodes = nodes.flatMap Node.checkStructure := by
  induction nodes with
  | nil => rfl
  | cons node rest ih => rw [Node.checkStructures, ih, List.flatMap_cons]

/-- The reports on branches without a chain, in a node. -/
theorem Node.filter_checkStructure_orphan (node : Node) :
    node.checkStructure.filter (·.code = .orphanElse) = node.listsIn.flatMap orphanBranches := by
  induction node using Node.tree_induction with
  | leaf node hleaf =>
      cases node with
      | element => exact absurd rfl hleaf
      | text => rfl
      | interpolation => rfl
      | comment => rfl
  | element tag children ih =>
      rw [Node.checkStructure, Node.listsIn, Node.checkStructures_eq_flatMap,
        Node.listsInAll_eq_flatMap, List.filter_append, List.filter_append, List.filter_append,
        filter_code_eq_nil (fun _ => code_repeatedAttributes) (by decide),
        filter_code_eq_nil (fun _ => code_repeatedDirectives) (by decide),
        filter_code_eq_self fun _ => code_orphanBranches, List.filter_flatMap, List.flatMap_cons,
        List.flatMap_assoc, List.flatMap_congr ih]
      rfl

theorem filter_checkStructure_orphan (nodes : List Node) :
    (checkStructure nodes).filter (·.code = .orphanElse)
      = (Node.siblingLists nodes).flatMap orphanBranches := by
  rw [checkStructure, Node.siblingLists, Node.checkStructures_eq_flatMap,
    Node.listsInAll_eq_flatMap, List.filter_append,
    filter_code_eq_self fun _ => code_orphanBranches, List.filter_flatMap, List.flatMap_cons,
    List.flatMap_assoc, List.flatMap_congr fun node _ => node.filter_checkStructure_orphan]

/-- The reports on the attributes of a node itself. -/
def Node.attributeReports (node : Node) : List Diagnostic :=
  (node.tag?.map Tag.repeatedAttributes).getD []

/-- The reports on the directives of a node itself. -/
def Node.directiveReports (node : Node) : List Diagnostic :=
  (node.tag?.map Tag.repeatedDirectives).getD []

/-- The reports with a code other than that of branches, in a node: each element brings its own,
attributes first. -/
theorem Node.filter_checkStructure_own {code : DiagnosticCode} (hcode : .orphanElse ≠ code)
    (node : Node) :
    node.checkStructure.filter (·.code = code)
      = node.family.flatMap fun n =>
          (n.attributeReports ++ n.directiveReports).filter (·.code = code) := by
  induction node using Node.tree_induction with
  | leaf node hleaf =>
      cases node with
      | element => exact absurd rfl hleaf
      | text => rfl
      | interpolation => rfl
      | comment => rfl
  | element tag children ih =>
      rw [Node.checkStructure, Node.family, Node.checkStructures_eq_flatMap,
        Node.all_eq_flatMap, List.filter_append, List.filter_append (orphanBranches children),
        filter_code_eq_nil (fun _ => code_orphanBranches) hcode, List.nil_append,
        List.filter_flatMap, List.flatMap_cons, List.flatMap_assoc, List.flatMap_congr ih]
      rfl

theorem filter_checkStructure_own {code : DiagnosticCode} (hcode : .orphanElse ≠ code)
    (nodes : List Node) :
    (checkStructure nodes).filter (·.code = code)
      = (Node.all nodes).flatMap fun n =>
          (n.attributeReports ++ n.directiveReports).filter (·.code = code) := by
  rw [checkStructure, Node.checkStructures_eq_flatMap, Node.all_eq_flatMap, List.filter_append,
    filter_code_eq_nil (fun _ => code_orphanBranches) hcode, List.nil_append,
    List.filter_flatMap, List.flatMap_assoc,
    List.flatMap_congr fun node _ => node.filter_checkStructure_own hcode]

theorem Node.code_attributeReports {node : Node} {d : Diagnostic} (h : d ∈ node.attributeReports) :
    d.code = .duplicateAttribute := by
  cases node with
  | element tag children => exact code_repeatedAttributes h
  | text => cases h
  | interpolation => cases h
  | comment => cases h

theorem Node.code_directiveReports {node : Node} {d : Diagnostic} (h : d ∈ node.directiveReports) :
    d.code = .duplicateDirective := by
  cases node with
  | element tag children => exact code_repeatedDirectives h
  | text => cases h
  | interpolation => cases h
  | comment => cases h

theorem filter_checkStructure_attribute (nodes : List Node) :
    (checkStructure nodes).filter (·.code = .duplicateAttribute)
      = (Node.all nodes).flatMap Node.attributeReports := by
  rw [filter_checkStructure_own (by decide)]
  refine List.flatMap_congr fun node _ => ?_
  rw [List.filter_append, filter_code_eq_self fun _ => Node.code_attributeReports,
    filter_code_eq_nil (fun _ => Node.code_directiveReports) (by decide), List.append_nil]

theorem filter_checkStructure_directive (nodes : List Node) :
    (checkStructure nodes).filter (·.code = .duplicateDirective)
      = (Node.all nodes).flatMap Node.directiveReports := by
  rw [filter_checkStructure_own (by decide)]
  refine List.flatMap_congr fun node _ => ?_
  rw [List.filter_append, filter_code_eq_self fun _ => Node.code_directiveReports,
    filter_code_eq_nil (fun _ => Node.code_attributeReports) (by decide), List.nil_append]

end AstroTemplate
