import AstroTemplate.Astro.Generate
import AstroTemplate.Proofs.Cuts

set_option autoImplicit false

/-! # Plain markup and how it is written

Plain markup is made of text, comments and elements with plain attributes. Nothing of it has a
meaning of its own when markup is generated, so that generating it writes each node where it
stands (`generate_cons`), an element as its start tag, its children and its closing tag
(`content_element`).
-/

namespace AstroTemplate

/-! ## Plain nodes -/

/-- A letter followed by letters, digits and hyphens. -/
def IsPlainName : List Char → Prop
  | [] => False
  | c :: cs => c.isAlpha = true ∧ ∀ d ∈ cs, d.isAlphanum = true ∨ d = '-'

/-- An attribute that is no directive, and whose value, if it has one, has no placeholder. -/
def Attribute.IsPlain (a : Attribute) : Prop :=
  IsPlainName a.name ∧ ¬ ['v', '-'] <+: a.name ∧
    ∀ v, a.value = some v → ¬ ['$', '\x7b'] <:+: v.content

/-- All of the props are plain attributes. -/
def ArePlainProps (props : List TagProp) : Prop :=
  ∀ p ∈ props, ∃ a, p = .plain a ∧ a.IsPlain

/-- A tag with plain attributes that opens an element whose content is read as markup. -/
structure Tag.IsPlain (tag : Tag) : Prop where
  name : IsPlainName tag.name
  notVoid : isVoidElement tag.name = false
  notRaw : isRawTextElement tag.name = false
  notPre : isPreformatted tag.name = false
  notSelfClosing : tag.selfClosing = false
  props : ArePlainProps tag.props

/-- Whether the list begins with text. -/
def startsWithText : List Node → Bool
  | .text .. :: _ => true
  | _ => false

mutual

/-- Text that nothing else begins in, a comment that ends where it ends, or an element of such
nodes. -/
def Node.IsPlain : Node → Prop
  | .text _ data blank =>
    data ≠ [] ∧ '<' ∉ data ∧ ¬ ['\x7b', '\x7b'] <:+: data ∧ blank = isTagBlank data
  | .interpolation _ _ _ => False
  | .comment _ data => ¬ ['-', '-', '>'] <:+: data
  | .element tag children => tag.IsPlain ∧ Node.ArePlain children

/-- Siblings that are plain, no two texts among them next to each other. -/
def Node.ArePlain : List Node → Prop
  | [] => True
  | node :: rest =>
    node.IsPlain ∧ ¬ (startsWithText [node] = true ∧ startsWithText rest = true) ∧
      Node.ArePlain rest

end

/-! ## Nothing of a tag with plain attributes has a meaning of its own -/

namespace ArePlainProps

variable {tag : Tag}

theorem directives (h : ArePlainProps tag.props) : tag.directives = [] := by
  rw [Tag.directives, List.filterMap_eq_nil_iff]
  intro p hp
  obtain ⟨a, rfl, -⟩ := h p hp
  rfl

theorem directive? (h : ArePlainProps tag.props) (kind : DirectiveKind) :
    tag.directive? kind = none := by
  rw [Tag.directive?, h.directives]
  rfl

theorem branchKind? (h : ArePlainProps tag.props) : tag.branchKind? = none := by
  simp [Tag.branchKind?, Tag.hasDirective, h.directive?]

theorem loop? (h : ArePlainProps tag.props) : tag.loop? = none := by
  rw [Tag.loop?, h.directive?]
  rfl

theorem content? (h : ArePlainProps tag.props) : tag.content? = none := by
  simp [Tag.content?, h.directive?]

theorem outName (h : ArePlainProps tag.props) : tag.outName = tag.name := by
  simp [Tag.outName, Tag.conditional?, h.directives, h.directive?]

theorem outAttrs (h : ArePlainProps tag.props) :
    tag.outAttrs = tag.props.filterMap OutAttr.ofProp? := by
  rw [Tag.outAttrs, Tag.visibleWhen?, h.directive?]
  rfl

end ArePlainProps

/-- The attributes of a plain node are plain. -/
theorem Node.IsPlain.props {node : Node} (h : node.IsPlain) :
    ∀ tag ∈ node.tag?, ArePlainProps tag.props := by
  intro tag htag
  cases node with
  | text => cases htag
  | interpolation => cases htag
  | comment => cases htag
  | element plain children =>
      obtain rfl := Option.some.inj htag
      exact h.1.props

/-! ## The text of plain markup -/

/-- The text of the value of an attribute. -/
def Value.written : Option Value → List Char
  | none => []
  | some v => '=' :: '"' :: (escapeAttr v.content ++ ['"'])

/-- The text of an attribute in a start tag, with the space in front of it. -/
def TagProp.written : TagProp → List Char
  | .plain a => ' ' :: (a.name ++ Value.written a.value)
  | .directive _ => []

theorem hasPlaceholder_eq_false {s : List Char} (h : ¬ ['$', '\x7b'] <:+: s) :
    hasPlaceholder s = false := by
  rw [hasPlaceholder, occurs, Option.isSome_eq_false_iff, Option.isNone_iff_eq_none]
  exact cutAt?_eq_none_of_not_infix h

theorem render_static {a : Attribute} (h : a.IsPlain) :
    (OutAttr.static a.name (a.value.map (·.content))).render = TagProp.written (.plain a) := by
  cases hv : a.value with
  | none =>
      show ' ' :: a.name = ' ' :: (a.name ++ Value.written a.value)
      rw [hv, Value.written, List.append_nil]
  | some v =>
      have hplain := hasPlaceholder_eq_false (h.2.2 v hv)
      show (if hasPlaceholder v.content then _ else
        ' ' :: a.name ++ ['=', '"'] ++ escapeAttr v.content ++ ['"']) = _
      rw [hplain, if_neg Bool.false_ne_true, TagProp.written, hv, Value.written]
      simp

theorem flatMap_render {props : List TagProp} (h : ArePlainProps props) :
    (props.filterMap OutAttr.ofProp?).flatMap OutAttr.render = props.flatMap TagProp.written := by
  induction props with
  | nil => rfl
  | cons p props ih =>
      obtain ⟨a, rfl, ha⟩ := h p List.mem_cons_self
      have hprop : OutAttr.ofProp? (.plain a) = some (.static a.name (a.value.map (·.content))) :=
        rfl
      rw [List.filterMap_cons_some hprop, List.flatMap_cons, List.flatMap_cons, render_static ha,
        ih fun p hp => h p (List.mem_cons_of_mem _ hp)]

/-- An element with plain attributes is written as its start tag, its children and its closing
tag. -/
theorem content_element {tag : Tag} {children : List Node} (h : ArePlainProps tag.props) :
    (Node.element tag children).piece.content
      = '<' :: (tag.name ++ (tag.props.flatMap TagProp.written ++ '>' ::
          (generate children ++ (['<', '/'] ++ (tag.name ++ ['>']))))) := by
  have hopen : "</".toList = ['<', '/'] := by decide
  have hclose : ">".toList = ['>'] := by decide
  rw [Node.piece, Tag.renderExpression, h.loop?, Tag.renderElement, h.content?, h.outName,
    h.outAttrs, flatMap_render h, hopen, hclose]
  simp [generate]

theorem generate_nil : generate [] = [] := by
  rw [generate, Node.pieces, renderPieces, groupSiblings]
  rfl

/-- A node with plain attributes is written where it stands. -/
theorem generate_cons {node : Node} (h : ∀ tag ∈ node.tag?, ArePlainProps tag.props)
    (rest : List Node) : generate (node :: rest) = node.piece.content ++ generate rest := by
  have hkind : node.piece.branchKind? = none := by
    cases node with
    | text => rfl
    | interpolation => rfl
    | comment => rfl
    | element tag children => exact (h tag rfl).branchKind?
  have hsingle : node.piece.renderSingle = node.piece.content := by
    cases node with
    | text => rfl
    | interpolation => rfl
    | comment => rfl
    | element tag children => simp [Node.piece, Piece.renderSingle, (h tag rfl).loop?]
  rw [generate, Node.pieces, renderPieces, groupSiblings, if_neg (by simp [hkind]),
    List.flatMap_cons, Group.render, hsingle]
  rfl

end AstroTemplate
