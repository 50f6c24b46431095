import AstroTemplate.Proofs.BareTree
import AstroTemplate.Proofs.Origins

set_option autoImplicit false

/-! # Shorthands and long forms

The signs `:`, `@`, `#` and `.` stand for a longer way to write a directive (`longForms`). Both ways
lead to the same parts of a name, only that the argument begins further on in the longer one, and
that `.` adds a modifier (`DirectiveName.read?_longForm`). Of these parts markup shows the name and
the argument, so a directive of a tree can be spelled either way (`TagProp.Respelled`).
-/

namespace AstroTemplate

/-! ## Names -/

/-- The signs that a directive can begin with, and what they stand for. -/
def longForms : List (Char × List Char) :=
  [(':', "v-bind:".toList), ('@', "v-on:".toList), ('#', "v-slot:".toList), ('.', "v-bind:".toList)]

/-- The name with the sign at its beginning spelled out. -/
def longName? : List Char → Option (List Char)
  | [] => none
  | sign :: x => (longForms.lookup sign).map (· ++ x)

namespace DirectiveName

/-- The parts of a name in which the argument begins `distance` bytes further on. -/
def moved (parts : DirectiveName) (distance : Nat) : DirectiveName :=
  { parts with argument := parts.argument.map fun a => { a with offset := a.offset + distance } }

/-- The parts of a name with the modifier `prop` before the others. -/
def withProp (parts : DirectiveName) : DirectiveName :=
  { parts with modifiers := "prop".toList :: parts.modifiers }

theorem readArgument_add (offset distance : Nat) (s : List Char) :
    readArgument (offset + distance) s
      = ((readArgument offset s).1.map fun a => { a with offset := a.offset + distance },
          (readArgument offset s).2) := by
  rw [readArgument.eq_def, readArgument.eq_def]
  split
  · -- a bracket stands before the argument
    rename_i s
    rw [Nat.add_right_comm]
    cases cutAt? [']'] s <;> rfl
  · dsimp only
    split <;> rfl

theorem withArgument_add (name : List Char) (offset distance : Nat) (s : List Char) :
    withArgument name (offset + distance) s = (withArgument name offset s).moved distance := by
  rw [withArgument, withArgument, readArgument_add]
  rfl

/-- A sign and what it stands for lead to the same parts. -/
theorem read?_longForm (x : List Char) :
    ∀ form ∈ longForms, ∃ parts,
      read? (form.2 ++ x) = some (parts.moved (byteLength form.2 - 1)) ∧
      read? (form.1 :: x) = some (if form.1 = '.' then parts.withProp else parts) := by
  have hbind : read? ("v-bind:".toList ++ x) = some ((withArgument "bind".toList 1 x).moved 6) :=
    congrArg some (withArgument_add "bind".toList 1 6 x)
  have hon : read? ("v-on:".toList ++ x) = some ((withArgument "on".toList 1 x).moved 4) :=
    congrArg some (withArgument_add "on".toList 1 4 x)
  have hslot : read? ("v-slot:".toList ++ x) = some ((withArgument "slot".toList 1 x).moved 6) :=
    congrArg some (withArgument_add "slot".toList 1 6 x)
  simp only [longForms, List.forall_mem_cons]
  exact ⟨⟨_, hbind, rfl⟩, ⟨_, hon, rfl⟩, ⟨_, hslot, rfl⟩, ⟨_, hbind, rfl⟩, List.forall_mem_nil _⟩

end DirectiveName

/-! ## Directives -/

/-- What an argument says. -/
def Argument.key (a : Argument) : List Char × Bool := (a.content, a.isStatic)

def NameArgument.key (a : NameArgument) : List Char × Bool := (a.content, a.isStatic)

/-- The directive has the name and the argument that its raw name has. -/
def Directive.FollowsName (d : Directive) : Prop :=
  ∃ parts, DirectiveName.read? d.rawName = some parts ∧ d.name = parts.name ∧
    d.argument.map Argument.key = parts.argument.map NameArgument.key

def TagProp.FollowsName (prop : TagProp) : Prop := ∀ d, prop = .directive d → d.FollowsName

theorem TagProp.followsName_ofName (span : Span) (offset : Nat) (name : List Char)
    (value : Option Value) : (ofName span offset name value).FollowsName := by
  intro d hd
  obtain ⟨parts, argument, hparts, rfl, hargument⟩ := exists_of_ofName_eq_directive hd
  exact ⟨parts, hparts, rfl, hargument⟩

theorem TagProp.ReadFrom.followsName {source : List Char} {prop : TagProp}
    (h : prop.ReadFrom source) : prop.FollowsName := by
  obtain ⟨x, c, -, -, rfl⟩ := h
  obtain ⟨span, value, hread⟩ := readProp_ofName c
  rw [hread]
  exact TagProp.followsName_ofName span c.offset _ value

theorem DirectiveName.map_key_moved (parts : DirectiveName) (distance : Nat) :
    (parts.moved distance).argument.map NameArgument.key
      = parts.argument.map NameArgument.key := by
  rw [moved, Option.map_map]
  rfl

/-- A name and its long form have the same name and the same argument. -/
theorem DirectiveName.of_longName? {raw long : List Char} {parts others : DirectiveName}
    (hlong : longName? raw = some long) (hraw : read? raw = some parts)
    (hread : read? long = some others) :
    others.name = parts.name ∧
      others.argument.map NameArgument.key = parts.argument.map NameArgument.key := by
  cases raw with
  | nil => cases hlong
  | cons sign x =>
      obtain ⟨form, hform, rfl⟩ := Option.map_eq_some_iff.1 hlong
      obtain ⟨common, hlonger, hshorter⟩ := read?_longForm x _ (mem_of_lookup hform)
      obtain rfl := Option.some.inj (hread.symm.trans hlonger)
      obtain rfl := Option.some.inj (hraw.symm.trans hshorter)
      rw [map_key_moved]
      split <;> exact ⟨rfl, rfl⟩

/-! ## Trees -/

/-- `q` is `p`, somewhere, with its name as it is or in its long form. The modifiers are left open:
the long form of `.x` may keep the modifier `prop` or not. -/
inductive TagProp.Respelled : TagProp → TagProp → Prop
  | plain {a b : Attribute} (name : b.name = a.name)
      (value : b.value.map Value.content = a.value.map Value.content) :
      Respelled (.plain a) (.plain b)
  | directive {d e : Directive}
      (spelling : e.rawName = d.rawName ∨ longName? d.rawName = some e.rawName)
      (parts : e.FollowsName) (value : e.value.map Value.content = d.value.map Value.content) :
      Respelled (.directive d) (.directive e)

/-- A tag with some of its directives spelled out. -/
structure Tag.Respelled (tag other : Tag) : Prop where
  name : other.name = tag.name
  props : List.Forall₂ TagProp.Respelled tag.props other.props
  selfClosing : other.selfClosing = tag.selfClosing

/-- A node with some of the directives in it spelled out. -/
inductive Node.Respelled : Node → Node → Prop
  | text {span place : Span} {data : List Char} {blank : Bool} :
      Respelled (.text span data blank) (.text place data blank)
  | interpolation {span expressionSpan place expressionPlace : Span} {expression : List Char} :
      Respelled (.interpolation span expressionSpan expression)
        (.interpolation place expressionPlace expression)
  | comment {span place : Span} {data : List Char} :
      Respelled (.comment span data) (.comment place data)
  | element {tag other : Tag} {children others : List Node} (htag : tag.Respelled other)
      (hchildren : List.Forall₂ Respelled children others) :
      Respelled (.element tag children) (.element other others)

theorem Value.map_bare_eq {value other : Option Value}
    (h : other.map Value.content = value.map Value.content) :
    other.map Value.bare = value.map Value.bare := by
  have hbare : Value.bare = (Value.mk .nowhere) ∘ Value.content := rfl
  rw [hbare, ← Option.map_map, ← Option.map_map, h]

theorem Argument.map_bare_eq {argument other : Option Argument}
    (h : other.map Argument.key = argument.map Argument.key) :
    other.map Argument.bare = argument.map Argument.bare := by
  have hbare : Argument.bare = (fun k => Argument.mk .nowhere k.1 k.2) ∘ Argument.key := rfl
  rw [hbare, ← Option.map_map, ← Option.map_map, h]

/-- However a directive is spelled, the same is left of it in markup. -/
theorem TagProp.Respelled.bare_eq {p q : TagProp} (h : p.Respelled q) (hp : p.FollowsName) :
    q.bare = p.bare := by
  cases h with
  | plain name value =>
      rw [TagProp.bare, TagProp.bare, Attribute.bare, Attribute.bare, name, Value.map_bare_eq value]
  | @directive d e spelling parts value =>
      obtain ⟨long, hlong, hname, hargument⟩ := parts
      obtain ⟨short, hshort, hname', hargument'⟩ := hp d rfl
      have hsame : long.name = short.name ∧
          long.argument.map NameArgument.key = short.argument.map NameArgument.key := by
        rcases spelling with hraw | hraw
        · rw [hraw] at hlong
          obtain rfl := Option.some.inj (hlong.symm.trans hshort)
          exact ⟨rfl, rfl⟩
        · exact DirectiveName.of_longName? hraw hshort hlong
      have hkeys : e.argument.map Argument.key = d.argument.map Argument.key := by
        rw [hargument, hsame.2, hargument']
      rw [TagProp.bare, TagProp.bare, Directive.bare, Directive.bare, hname, hsame.1, ← hname',
        Argument.map_bare_eq hkeys, Value.map_bare_eq value]

/-- Lists that agree member by member in what `f` makes of them. -/
theorem map_eq_of_forall₂ {α β : Type} {R : α → α → Prop} {f : α → β} {as bs : List α}
    (h : List.Forall₂ R as bs) (hf : ∀ a ∈ as, ∀ b, R a b → f b = f a) :
    bs.map f = as.map f := by
  induction h with
  | nil => rfl
  | cons hab _ ih =>
      rw [List.map_cons, List.map_cons, hf _ List.mem_cons_self _ hab,
        ih fun a ha => hf a (List.mem_cons_of_mem _ ha)]

theorem Tag.Respelled.bare_eq {tag other : Tag} (h : tag.Respelled other)
    (hprops : ∀ p ∈ tag.props, p.FollowsName) : other.bare = tag.bare := by
  have hbare : other.props.map TagProp.bare = tag.props.map TagProp.bare :=
    map_eq_of_forall₂ h.props fun p hp _ hpq => hpq.bare_eq (hprops p hp)
  rw [Tag.bare, Tag.bare, h.name, hbare, h.selfClosing]

theorem Node.Respelled.bare_eq {node other : Node} (h : node.Respelled other)
    (hprops : ∀ tag children, .element tag children ∈ node.family →
      ∀ p ∈ tag.props, p.FollowsName) : other.bare = node.bare := by
  induction node using Node.tree_induction generalizing other with
  | leaf node hleaf =>
      cases h with
      | element => exact absurd rfl hleaf
      | text => rfl
      | interpolation => rfl
      | comment => rfl
  | element tag children ih =>
      cases h with
      | element htag hchildren =>
          have hinside := map_eq_of_forall₂ hchildren fun child hchild _ hrespelled =>
            ih child hchild hrespelled fun t cs hmem =>
              hprops t cs (Node.family_subset_element hchild tag hmem)
          have hself := hprops tag children (Node.mem_family_element.2 (.inl rfl))
          rw [Node.bare, Node.bare, Node.allBare_eq_map, Node.allBare_eq_map, hinside,
            htag.bare_eq hself]

/-- **Shorthands mean their long forms.** A sign at the beginning of a name and what it stands for
lead to the same name, argument and modifiers, apart from the modifier `prop` that `.` puts before
the others, and the argument begins further on by the difference in length. So, whatever directives
of a tree that has been read are spelled out, the same markup is generated. -/
theorem shorthands_mean_longForms :
    (∀ (x : List Char), ∀ form ∈ longForms, ∃ parts,
      DirectiveName.read? (form.2 ++ x) = some (parts.moved (byteLength form.2 - 1)) ∧
      DirectiveName.read? (form.1 :: x)
        = some (if form.1 = '.' then parts.withProp else parts)) ∧
    ∀ (mode : WhitespaceMode) (source : List Char) (others : List Node),
      List.Forall₂ Node.Respelled (Template.read mode source).nodes others →
      generate others = generate (Template.read mode source).nodes := by
  refine ⟨DirectiveName.read?_longForm, ?_⟩
  intro mode source others hothers
  have hbare : others.map Node.bare = (Template.read mode source).nodes.map Node.bare := by
    refine map_eq_of_forall₂ hothers fun node hnode other hrespelled => hrespelled.bare_eq ?_
    intro tag children hmem p hp
    have hread := Template.read_readFrom mode source _ (Node.family_subset_all hnode hmem)
    exact (hread p hp).followsName
  rw [← generate_bare, hbare, generate_bare]

/-- An element with two shorthands, and the same element with one of them spelled out. -/
theorem shorthands_mean_longForms_element :
    List.Forall₂ Node.Respelled (Template.read .condense "<p .a=b @c></p>".toList).nodes
        (Template.read .condense "<p v-bind:a=b @c></p>".toList).nodes ∧
      generate (Template.read .condense "<p v-bind:a=b @c></p>".toList).nodes
        = generate (Template.read .condense "<p .a=b @c></p>".toList).nodes := by
  have hshort : (Template.read .condense "<p .a=b @c></p>".toList).nodes
      = [.element ⟨⟨0, 15⟩, ['p'],
          [.directive ⟨⟨3, 7⟩, ".a".toList, "bind".toList, some ⟨⟨4, 5⟩, ['a'], true⟩,
              ["prop".toList], some ⟨⟨6, 7⟩, ['b']⟩⟩,
            .directive ⟨⟨8, 10⟩, "@c".toList, "on".toList, some ⟨⟨9, 10⟩, ['c'], true⟩, [], none⟩],
          false⟩ []] := by decide +kernel
  have hlong : (Template.read .condense "<p v-bind:a=b @c></p>".toList).nodes
      = [.element ⟨⟨0, 21⟩, ['p'],
          [.directive ⟨⟨3, 13⟩, "v-bind:a".toList, "bind".toList, some ⟨⟨10, 11⟩, ['a'], true⟩,
              [], some ⟨⟨12, 13⟩, ['b']⟩⟩,
            .directive ⟨⟨14, 16⟩, "@c".toList, "on".toList, some ⟨⟨15, 16⟩, ['c'], true⟩, [],
              none⟩],
          false⟩ []] := by decide +kernel
  have hrespelled : List.Forall₂ Node.Respelled
      (Template.read .condense "<p .a=b @c></p>".toList).nodes
      (Template.read .condense "<p v-bind:a=b @c></p>".toList).nodes := by
    rw [hshort, hlong]
    refine .cons (.element ⟨rfl, .cons ?_ (.cons ?_ .nil), rfl⟩ .nil) .nil
    · exact .directive (.inr (by decide +kernel)) ⟨_, rfl, rfl, rfl⟩ rfl
    · exact .directive (.inl rfl) ⟨_, rfl, rfl, rfl⟩ rfl
  exact ⟨hrespelled, shorthands_mean_longForms.2 .condense _ _ hrespelled⟩

end AstroTemplate
