import AstroTemplate.Proofs.Names
import AstroTemplate.Proofs.Positions

set_option autoImplicit false

/-! # Reports on one line

A report for machines is meant to take one line for each diagnostic. It ends each diagnostic with a
line break, so what matters is whether a message has line breaks of its own. Names have none
(`Unspaced`), and what else a message says is fixed, but for one: a loop that is not understood is
quoted, and its expression is an attribute value, which may go on over several lines. So the report
has one line more for each line break in a quoted loop.
-/

namespace AstroTemplate

/-! ## Line breaks in texts -/

/-- A text without line breaks. -/
def OneLine (s : String) : Prop := '\n' ∉ s.toList

instance decidableOneLine (s : String) : Decidable (OneLine s) :=
  inferInstanceAs (Decidable ('\n' ∉ s.toList))

theorem OneLine.append {s t : String} (hs : OneLine s) (ht : OneLine t) : OneLine (s ++ t) := by
  rw [OneLine, String.toList_append, List.mem_append]
  exact not_or_intro hs ht

/-- A text that is written out is checked character by character. -/
theorem oneLine_of_all {s : List Char} (h : s.all (· != '\n') = true) :
    OneLine (String.ofList s) := by
  rw [OneLine, String.toList_ofList]
  intro hmem
  have hne := List.all_eq_true.1 h _ hmem
  simp at hne

theorem Unspaced.not_mem {s : List Char} (h : Unspaced s) : '\n' ∉ s := fun hmem =>
  absurd (h _ hmem) (by decide)

theorem Unspaced.oneLine {s : List Char} (h : Unspaced s) : OneLine (String.ofList s) := by
  rw [OneLine, String.toList_ofList]
  exact h.not_mem

theorem oneLine_toString (n : Nat) : OneLine (toString n) := by
  rw [OneLine, Nat.toString_eq_ofList_toDigits, String.toList_ofList]
  intro hmem
  exact absurd (Nat.isDigit_of_mem_toDigits (by decide) (by decide) hmem) (by decide)

theorem Unspaced.lower {s : List Char} (h : Unspaced s) : '\n' ∉ lower s := by
  intro hmem
  obtain ⟨c, hc, hlower⟩ := List.mem_map.1 hmem
  rw [eq_of_toLower_eq (by decide) hlower] at hc
  exact h.not_mem hc

/-! ## Messages -/

theorem TokenKind.oneLine_name (kind : TokenKind) : OneLine kind.name := by
  cases kind <;> exact oneLine_of_all rfl

theorem AttributeProblem.oneLine_message (problem : AttributeProblem) :
    OneLine problem.message := by
  cases problem <;> exact oneLine_of_all rfl

theorem ParseErrorKind.oneLine_message {kind : ParseErrorKind}
    (h : ∀ name ∈ kind.names, Unspaced name) : OneLine kind.message := by
  cases kind with
  | strayClosingTag found =>
      have hfound := (h found List.mem_cons_self).oneLine
      refine (OneLine.append ?_ hfound).append ?_ <;> exact oneLine_of_all rfl
  | mismatchedClosingTag expected found =>
      have hexpected := (h expected List.mem_cons_self).oneLine
      have hfound := (h found (List.mem_cons_of_mem _ List.mem_cons_self)).oneLine
      refine (((OneLine.append ?_ hexpected).append ?_).append hfound).append ?_ <;>
        exact oneLine_of_all rfl
  | unclosedTag name =>
      have hname := (h name List.mem_cons_self).oneLine
      refine (OneLine.append ?_ hname).append ?_ <;> exact oneLine_of_all rfl
  | unfinishedStartTag found => exact OneLine.append (oneLine_of_all rfl) found.oneLine_name
  | invalidAttribute problem => exact OneLine.append (oneLine_of_all rfl) problem.oneLine_message
  | endInsideTag => exact oneLine_of_all rfl
  | unterminatedInterpolation => exact oneLine_of_all rfl
  | unterminatedComment => exact oneLine_of_all rfl

/-- The names of a tag, of its attributes and of its directives have no white space. -/
structure Tag.Named (tag : Tag) : Prop where
  name : Unspaced tag.name
  props : ∀ p ∈ tag.props, ∀ s ∈ p.names, Unspaced s

section

variable {tag : Tag} {d : Diagnostic}

theorem Tag.Named.rawName {directive : Directive} (h : tag.Named)
    (hmem : directive ∈ tag.directives) : OneLine (String.ofList directive.rawName) := by
  obtain ⟨p, hp, hdirective⟩ := List.mem_filterMap.1 hmem
  cases p with
  | plain a => cases hdirective
  | directive other =>
      obtain rfl := Option.some.inj hdirective
      exact (h.props _ hp _ List.mem_cons_self).oneLine

theorem Tag.Named.staticArgument {directive : Directive} {argument : List Char} (h : tag.Named)
    (hmem : directive ∈ tag.directives) (hargument : directive.staticArgument? = some argument) :
    OneLine (String.ofList argument) := by
  obtain ⟨p, hp, hdirective⟩ := List.mem_filterMap.1 hmem
  cases p with
  | plain a => cases hdirective
  | directive other =>
      obtain rfl := Option.some.inj hdirective
      refine (h.props _ hp _ (List.mem_cons_of_mem _ ?_)).oneLine
      exact Option.mem_toList.2 hargument

/-- What is repeated has its key. -/
theorem key_of_mem_repeated {α β : Type} [DecidableEq β] (key? : α → Option β) {seen : List β}
    {members : List α} {a : α} {key : β} (h : (a, key) ∈ repeated key? seen members) :
    key? a = some key := by
  fun_induction repeated key? seen members with
  | case1 => cases h
  | case2 seen b rest hkey ih => exact ih h
  | case3 seen b rest other hkey hmem ih =>
      rcases List.mem_cons.1 h with hsame | h
      · obtain ⟨rfl, rfl⟩ := Prod.mk.inj hsame
        exact hkey
      · exact ih h
  | case4 seen b rest other hkey hnew ih => exact ih h

theorem Tag.Named.setName {prop : TagProp} {name : List Char} (h : tag.Named)
    (hmem : prop ∈ tag.props) (hname : prop.setName? = some name) :
    OneLine (String.ofList name) := by
  rw [OneLine, String.toList_ofList]
  cases prop with
  | plain a =>
      rw [← Option.some.inj hname]
      exact (h.props _ hmem _ List.mem_cons_self).lower
  | directive d =>
      obtain ⟨-, hname⟩ := Option.ite_none_right_eq_some.1 hname
      obtain ⟨argument, hargument, rfl⟩ := Option.map_eq_some_iff.1 hname
      refine (h.props _ hmem _ (List.mem_cons_of_mem _ ?_)).lower
      exact Option.mem_toList.2 hargument

theorem Tag.Named.repeatedAttributes (h : tag.Named) (hd : d ∈ tag.repeatedAttributes) :
    OneLine d.message := by
  obtain ⟨⟨prop, name⟩, hmem, rfl⟩ := List.mem_map.1 hd
  have hname := h.setName (mem_of_mem_repeated hmem) (key_of_mem_repeated _ hmem)
  refine (((OneLine.append ?_ hname).append ?_).append h.name.oneLine).append ?_ <;>
    exact oneLine_of_all rfl

/-- A directive with a role has one of the known names. -/
theorem Directive.oneLine_name {directive : Directive} {role : ControlRole}
    (h : directive.kind.controlRole? = some role) : OneLine (String.ofList directive.name) := by
  cases hlookup : DirectiveKind.known.lookup directive.name with
  | none =>
      rw [Directive.kind, DirectiveKind.ofName, hlookup] at h
      cases h
  | some kind =>
      have hknown : ∀ entry ∈ DirectiveKind.known, OneLine (String.ofList entry.1) := by
        decide +kernel
      exact hknown (directive.name, kind) (mem_of_lookup hlookup)

theorem Tag.Named.repeatedDirectives (h : tag.Named) (hd : d ∈ tag.repeatedDirectives) :
    OneLine d.message := by
  obtain ⟨⟨directive, role⟩, hmem, rfl⟩ := List.mem_map.1 hd
  have hraw := h.rawName (mem_of_mem_repeated hmem)
  have hrole : OneLine (if role = .conditional then "conditional"
      else "`v-" ++ String.ofList directive.name ++ "`") := by
    split
    · exact oneLine_of_all rfl
    · have hkey : directive.kind.controlRole? = some role :=
        key_of_mem_repeated (fun d : Directive => d.kind.controlRole?) hmem
      have hname := Directive.oneLine_name hkey
      refine (OneLine.append ?_ hname).append ?_ <;> exact oneLine_of_all rfl
  refine (((((OneLine.append ?_ hraw).append ?_).append h.name.oneLine).append ?_).append
    hrole).append ?_ <;> exact oneLine_of_all rfl

theorem Tag.Named.orphanBranch (h : tag.Named) (hd : d ∈ tag.orphanBranch) : OneLine d.message := by
  unfold Tag.orphanBranch at hd
  simp only at hd
  split at hd
  · rw [List.mem_singleton.1 hd]
    refine (((OneLine.append ?_ ?_).append ?_).append h.name.oneLine).append ?_ <;>
      exact oneLine_of_all rfl
  · rw [List.mem_singleton.1 hd]
    refine (((OneLine.append ?_ ?_).append ?_).append h.name.oneLine).append ?_ <;>
      exact oneLine_of_all rfl
  · cases hd

theorem Tag.Named.checkContent {children : List Node} (h : tag.Named)
    (hd : d ∈ tag.checkContent children) : OneLine d.message := by
  rcases List.mem_append.1 hd with hconflict | hdiscarded
  · split at hconflict
    · rw [List.mem_singleton.1 hconflict]
      refine (OneLine.append ?_ h.name.oneLine).append ?_ <;> exact oneLine_of_all rfl
    · cases hconflict
  · split at hdiscarded
    · rename_i directive hcontent
      split at hdiscarded
      · rw [List.mem_singleton.1 hdiscarded]
        have hraw : OneLine (String.ofList directive.rawName) := by
          rcases Option.or_eq_some_iff.1 hcontent with hhtml | ⟨-, htext⟩
          · exact h.rawName (List.mem_of_find?_eq_some hhtml)
          · exact h.rawName (List.mem_of_find?_eq_some htext)
        refine (((OneLine.append ?_ h.name.oneLine).append ?_).append hraw).append ?_ <;>
          exact oneLine_of_all rfl
      · cases hdiscarded
    · cases hdiscarded

theorem Tag.oneLine_checkVisibility (hd : d ∈ tag.checkVisibility) : OneLine d.message := by
  unfold Tag.checkVisibility at hd
  split at hd
  · split at hd
    · split at hd
      · rw [List.mem_singleton.1 hd]
        refine OneLine.append ?_ ?_ <;> exact oneLine_of_all rfl
      · rw [List.mem_singleton.1 hd]
        refine OneLine.append ?_ ?_ <;> exact oneLine_of_all rfl
      · cases hd
    · cases hd
  · cases hd

end

/-! ## What is quoted -/

/-- What the report on a loop quotes: the expression, if it is not understood, or else the names
that have no use. -/
def Directive.loopQuote (d : Directive) : List Char :=
  if d.kind = .loop then
    match d.expression? with
    | none => []
    | some expression =>
      let loop := Loop.read expression
      if loop.wellFormed then joinWith "`, `".toList loop.extraAliases else trim expression
  else []

/-- What the reports on the loops of an element quote. -/
def Node.loopQuotes : Node → List Char
  | .element tag _ => tag.directives.flatMap Directive.loopQuote
  | _ => []

/-- What the reports on the loops of a page quote. -/
def pageLoopQuotes (source : List Char) : List Char :=
  match Page.split? source with
  | none => []
  | some page => (Node.all (Template.read .condense page.body).nodes).flatMap Node.loopQuotes

/-! ## Counting line breaks -/

/-- The number of line breaks in a text. -/
def lineBreaks (s : String) : Nat := s.toList.count '\n'

theorem lineBreaks_append (s t : String) : lineBreaks (s ++ t) = lineBreaks s + lineBreaks t := by
  rw [lineBreaks, String.toList_append, List.count_append]
  rfl

theorem lineBreaks_ofList (s : List Char) : lineBreaks (String.ofList s) = s.count '\n' := by
  rw [lineBreaks, String.toList_ofList]

theorem OneLine.lineBreaks_eq {s : String} (h : OneLine s) : lineBreaks s = 0 :=
  List.count_eq_zero.2 h

/-- The number of line breaks in the messages of some diagnostics. -/
def messageBreaks (ds : List Diagnostic) : Nat :=
  (ds.flatMap fun d => d.message.toList).count '\n'

section

variable {ds : List Diagnostic}

theorem messageBreaks_singleton (d : Diagnostic) : messageBreaks [d] = lineBreaks d.message := by
  rw [messageBreaks, List.flatMap_singleton]
  rfl

theorem messageBreaks_append (ds es : List Diagnostic) :
    messageBreaks (ds ++ es) = messageBreaks ds + messageBreaks es := by
  rw [messageBreaks, List.flatMap_append, List.count_append]
  rfl

theorem messageBreaks_sortByPlace (ds : List Diagnostic) :
    messageBreaks (Diagnostic.sortByPlace ds) = messageBreaks ds :=
  ((List.mergeSort_perm ds _).flatMap_right _).count_eq '\n'

theorem messageBreaks_eq_zero (h : ∀ d ∈ ds, OneLine d.message) : messageBreaks ds = 0 := by
  refine List.count_eq_zero.2 fun hmem => ?_
  obtain ⟨d, hd, hbreak⟩ := List.mem_flatMap.1 hmem
  exact h d hd hbreak

theorem messageBreaks_map_shift (ds : List Diagnostic) (distance : Nat) :
    messageBreaks (ds.map (·.shift distance)) = messageBreaks ds := by
  rw [messageBreaks, List.flatMap_map]
  rfl

/-- If each member is reported with the line breaks of what it quotes, so are all. -/
theorem messageBreaks_flatMap {α : Type} {reports : α → List Diagnostic} {quote : α → List Char}
    {members : List α} (h : ∀ a ∈ members, messageBreaks (reports a) = (quote a).count '\n') :
    messageBreaks (members.flatMap reports) = (members.flatMap quote).count '\n' := by
  induction members with
  | nil => rfl
  | cons a rest ih =>
      rw [List.flatMap_cons, List.flatMap_cons, messageBreaks_append, List.count_append,
        h a List.mem_cons_self, ih fun b hb => h b (List.mem_cons_of_mem a hb)]

end

/-! ## The checks -/

/-- A quotation has the line breaks of what is quoted. -/
theorem messageBreaks_quotation {before after : String} {quoted : List Char} (code : DiagnosticCode)
    (span : Span) (hbefore : OneLine before) (hafter : OneLine after) :
    messageBreaks [.ofCode code (before ++ String.ofList quoted ++ after) span]
      = quoted.count '\n' := by
  rw [messageBreaks_singleton]
  show lineBreaks (before ++ String.ofList quoted ++ after) = quoted.count '\n'
  rw [lineBreaks_append, lineBreaks_append, lineBreaks_ofList, hbefore.lineBreaks_eq,
    hafter.lineBreaks_eq, Nat.zero_add, Nat.add_zero]

theorem messageBreaks_oneLine {message : String} (code : DiagnosticCode) (span : Span)
    (h : OneLine message) : messageBreaks [.ofCode code message span] = 0 := by
  rw [messageBreaks_singleton]
  exact h.lineBreaks_eq

namespace Directive

theorem messageBreaks_checkLoop {d : Directive} (hkind : d.kind = .loop) :
    messageBreaks d.checkLoop = d.loopQuote.count '\n' := by
  unfold checkLoop loopQuote
  rw [if_pos hkind]
  cases d.expression? with
  | none => exact messageBreaks_oneLine _ _ (oneLine_of_all rfl)
  | some expression =>
      simp only [Bool.not_eq_true']
      by_cases hform : (Loop.read expression).wellFormed = true
      · rw [if_neg (by rw [hform]; decide), if_pos hform]
        by_cases hnone : (Loop.read expression).extraAliases = []
        · rw [hnone]
          rfl
        · rw [if_pos (List.isEmpty_eq_false_iff.2 hnone)]
          exact messageBreaks_quotation _ _ (oneLine_of_all rfl) (oneLine_of_all rfl)
      · rw [if_pos (Bool.eq_false_iff.2 hform), if_neg hform]
        exact messageBreaks_quotation _ _ (oneLine_of_all rfl) (oneLine_of_all rfl)

theorem oneLine_unsupported {d : Directive} (hraw : OneLine (String.ofList d.rawName)) :
    OneLine d.unsupported.message := by
  show OneLine (if d.name = "model".toList then _ else if d.name = "slot".toList then _ else _)
  split
  · exact oneLine_of_all rfl
  · split
    · exact (OneLine.append (oneLine_of_all rfl) hraw).append (oneLine_of_all rfl)
    · exact (OneLine.append (oneLine_of_all rfl) hraw).append (oneLine_of_all rfl)

theorem messageBreaks_checkMeaning {d : Directive} (hraw : OneLine (String.ofList d.rawName))
    (hargument : ∀ argument, d.staticArgument? = some argument → OneLine (String.ofList argument)) :
    messageBreaks d.checkMeaning = d.loopQuote.count '\n' := by
  by_cases hloop : d.kind = .loop
  · rw [checkMeaning, hloop]
    exact messageBreaks_checkLoop hloop
  · -- no other directive is quoted but for its names
    rw [loopQuote, if_neg hloop, List.count_nil]
    unfold checkMeaning
    split
    · contradiction
    · refine messageBreaks_oneLine _ _ ?_
      have hevent : OneLine (String.ofList (d.staticArgument?.getD "event".toList)) := by
        cases h : d.staticArgument? with
        | none => exact oneLine_of_all rfl
        | some argument => exact hargument argument h
      exact (((OneLine.append (oneLine_of_all rfl) hraw).append (oneLine_of_all rfl)).append
        hevent).append (oneLine_of_all rfl)
    · exact messageBreaks_oneLine _ _ (oneLine_unsupported hraw)
    · rfl

end Directive

/-- The tags of all the nodes have names without white space. -/
def AllNamed (nodes : List Node) : Prop :=
  ∀ tag children, Node.element tag children ∈ nodes → tag.Named

theorem AllNamed.mono {nodes others : List Node} (h : AllNamed others) (hsub : nodes ⊆ others) :
    AllNamed nodes := fun tag children hmem => h tag children (hsub hmem)

/-- Of the reports on the meaning only quotations of loops have line breaks. -/
theorem Node.messageBreaks_checkMeaning (node : Node) : AllNamed node.family →
    messageBreaks node.checkMeaning = (node.family.flatMap Node.loopQuotes).count '\n' := by
  induction node using Node.tree_induction with
  | leaf node hleaf =>
      cases node with
      | element => exact absurd rfl hleaf
      | text => exact fun _ => rfl
      | interpolation => exact fun _ => rfl
      | comment => exact fun _ => rfl
  | element tag children ih =>
      intro hnamed
      have htag : tag.Named := hnamed tag children (Node.mem_family_element.2 (.inl rfl))
      have hdirectives : messageBreaks (tag.directives.flatMap Directive.checkMeaning)
          = (tag.directives.flatMap Directive.loopQuote).count '\n' :=
        messageBreaks_flatMap fun directive hdirective =>
          Directive.messageBreaks_checkMeaning (htag.rawName hdirective)
            fun _ => htag.staticArgument hdirective
      have hchildren : messageBreaks (children.flatMap Node.checkMeaning)
          = (children.flatMap fun child => child.family.flatMap Node.loopQuotes).count '\n' :=
        messageBreaks_flatMap fun child hchild =>
          ih child hchild (hnamed.mono (Node.family_subset_element hchild tag))
      rw [Node.checkMeaning, Node.checkMeanings_eq_flatMap, messageBreaks_append,
        messageBreaks_append, messageBreaks_append, hdirectives, hchildren,
        messageBreaks_eq_zero fun d hd => htag.checkContent hd,
        messageBreaks_eq_zero fun d hd => Tag.oneLine_checkVisibility hd, Node.family,
        Node.all_eq_flatMap, List.flatMap_cons, List.count_append, List.flatMap_assoc,
        Nat.zero_add, Nat.add_zero]
      rfl

theorem oneLine_checkStructure {nodes : List Node} (hnamed : AllNamed (Node.all nodes)) :
    ∀ d ∈ checkStructure nodes, OneLine d.message := by
  intro d hd
  obtain ⟨tag, children, hmem, hd⟩ := reportsStructureOf_checkStructure hd
  have htag := hnamed tag children hmem
  rcases List.mem_append.1 hd with hd | hd
  · rcases List.mem_append.1 hd with hd | hd
    · exact htag.repeatedAttributes hd
    · exact htag.repeatedDirectives hd
  · exact htag.orphanBranch hd

theorem messageBreaks_checkNodes {nodes : List Node} (hnamed : AllNamed (Node.all nodes)) :
    messageBreaks (checkNodes {} nodes) = ((Node.all nodes).flatMap Node.loopQuotes).count '\n' := by
  have hmeaning : messageBreaks (nodes.flatMap Node.checkMeaning)
      = (nodes.flatMap fun node => node.family.flatMap Node.loopQuotes).count '\n' :=
    messageBreaks_flatMap fun node hnode =>
      node.messageBreaks_checkMeaning (hnamed.mono (Node.family_subset_all hnode))
  rw [checkNodes, messageBreaks_sortByPlace, messageBreaks_append,
    if_pos rfl, if_pos rfl, messageBreaks_eq_zero (oneLine_checkStructure hnamed), Nat.zero_add,
    checkMeaning, Node.checkMeanings_eq_flatMap, hmeaning, Node.all_eq_flatMap, List.flatMap_assoc]

/-! ## Reports -/

theorem Template.allNamed (mode : WhitespaceMode) (source : List Char) :
    AllNamed (Node.all (Template.read mode source).nodes) := fun tag _ hmem =>
  ⟨Template.read_named mode source _ hmem tag rfl,
    fun p hp => (Template.read_readFrom mode source _ hmem p hp).unspaced⟩

theorem messageBreaks_pageDiagnostics (source : List Char) :
    messageBreaks (pageDiagnostics source) = (pageLoopQuotes source).count '\n' := by
  unfold pageDiagnostics pageLoopQuotes
  cases Page.split? source with
  | none => rfl
  | some page =>
      have herrors : ∀ d ∈ (Template.read .condense page.body).errors.map Diagnostic.ofParseError,
          OneLine d.message := by
        intro d hd
        obtain ⟨e, he, rfl⟩ := List.mem_map.1 hd
        exact ParseErrorKind.oneLine_message (Template.errors_named .condense page.body e he)
      rw [messageBreaks_map_shift, messageBreaks_sortByPlace, messageBreaks_append,
        messageBreaks_eq_zero herrors, Nat.zero_add,
        messageBreaks_checkNodes (Template.allNamed .condense page.body)]

theorem Finding.lineBreaks_machine {f : Finding} (hpath : '\n' ∉ f.path) :
    lineBreaks f.machine = lineBreaks f.diagnostic.message + 1 := by
  have hlabel : OneLine f.diagnostic.severity.label.toUpper := by
    cases f.diagnostic.severity <;> decide +kernel
  have hcode : OneLine f.diagnostic.code.name := by
    cases f.diagnostic.code <;> exact oneLine_of_all rfl
  have hpath : lineBreaks (String.ofList f.path) = 0 := by
    rw [lineBreaks_ofList, List.count_eq_zero.2 hpath]
  have hblank : lineBreaks " " = 0 := (oneLine_of_all rfl).lineBreaks_eq
  have hcolon : lineBreaks ":" = 0 := (oneLine_of_all rfl).lineBreaks_eq
  have hopen : lineBreaks " (" = 0 := (oneLine_of_all rfl).lineBreaks_eq
  have hclose : lineBreaks ")" = 0 := (oneLine_of_all rfl).lineBreaks_eq
  have hend : lineBreaks "\n" = 1 := by decide +kernel
  simp only [machine, text, lineBreaks_append, (oneLine_toString _).lineBreaks_eq,
    hlabel.lineBreaks_eq, hcode.lineBreaks_eq, hpath, hblank, hcolon, hopen, hclose, hend,
    Nat.zero_add, Nat.add_zero]

theorem Finding.getLast?_machine (f : Finding) : f.machine.toList.getLast? = some '\n' := by
  obtain ⟨text, htext⟩ : ∃ text, f.machine = text ++ "\n" := ⟨_, rfl⟩
  rw [htext, String.toList_append, List.getLast?_append]
  rfl

theorem report_machine_cons (path source : List Char) (d : Diagnostic) (rest : List Diagnostic) :
    ∃ start stop, report .machine path source (d :: rest)
      = (Finding.mk path d start stop).machine ++ report .machine path source rest :=
  ⟨_, _, String.join_cons⟩

theorem lineBreaks_report {path : List Char} (hpath : '\n' ∉ path) (source : List Char)
    (ds : List Diagnostic) :
    lineBreaks (report .machine path source ds) = ds.length + messageBreaks ds := by
  induction ds with
  | nil => rfl
  | cons d rest ih =>
      obtain ⟨start, stop, hcons⟩ := report_machine_cons path source d rest
      rw [hcons, lineBreaks_append, ih, Finding.lineBreaks_machine hpath, List.length_cons,
        ← List.singleton_append, messageBreaks_append, messageBreaks_singleton]
      show lineBreaks d.message + 1 + (rest.length + messageBreaks rest)
        = rest.length + 1 + (lineBreaks d.message + messageBreaks rest)
      omega

theorem getLast?_report (path source : List Char) {ds : List Diagnostic} (h : ds ≠ []) :
    (report .machine path source ds).toList.getLast? = some '\n' := by
  induction ds with
  | nil => exact absurd rfl h
  | cons d rest ih =>
      obtain ⟨start, stop, hcons⟩ := report_machine_cons path source d rest
      rw [hcons, String.toList_append, List.getLast?_append, Finding.getLast?_machine]
      by_cases hrest : rest = []
      · rw [hrest]
        rfl
      · rw [ih hrest]
        rfl

/-- **One line for each diagnostic, but for the loops that are quoted.** Let the path have no line
break. The report for machines on a page has a line break for each diagnostic and one for each line
break in what it quotes of the loops of the page, so it has as many lines as there are diagnostics
exactly if no loop is quoted over several lines. If there are diagnostics, it ends in a line
break. -/
theorem report_machine_lines (path source : List Char) (hpath : '\n' ∉ path) :
    (report .machine path source (pageDiagnostics source)).toList.count '\n'
        = (pageDiagnostics source).length + (pageLoopQuotes source).count '\n' ∧
      ((report .machine path source (pageDiagnostics source)).toList.count '\n'
        = (pageDiagnostics source).length ↔ '\n' ∉ pageLoopQuotes source) ∧
      (pageDiagnostics source ≠ [] →
        (report .machine path source (pageDiagnostics source)).toList.getLast? = some '\n') := by
  have hcount : (report .machine path source (pageDiagnostics source)).toList.count '\n'
      = (pageDiagnostics source).length + (pageLoopQuotes source).count '\n' := by
    rw [← messageBreaks_pageDiagnostics]
    exact lineBreaks_report hpath source _
  refine ⟨hcount, ?_, fun h => getLast?_report path source h⟩
  rw [hcount, Nat.add_eq_left, List.count_eq_zero]

/-- A name without a use is quoted, and an attribute that is set twice is named. -/
theorem report_machine_lines_alias :
    '\n' ∉ "a.astro".toList ∧
      (report .machine "a.astro".toList
        "---\n---\n<p v-for=\"(a,b,c\nd) in e\" id id\n/>".toList
        (pageDiagnostics "---\n---\n<p v-for=\"(a,b,c\nd) in e\" id id\n/>".toList)).toList.count
          '\n'
        = (pageDiagnostics "---\n---\n<p v-for=\"(a,b,c\nd) in e\" id id\n/>".toList).length + 1 := by
  have hpath : '\n' ∉ "a.astro".toList := by decide +kernel
  have hquotes : (pageLoopQuotes "---\n---\n<p v-for=\"(a,b,c\nd) in e\" id id\n/>".toList).count '\n'
      = 1 := by decide +kernel
  exact ⟨hpath, (report_machine_lines _ _ hpath).1.trans (congrArg (_ + ·) hquotes)⟩

/-- A loop that is not understood takes two lines if it is written on two. -/
theorem report_machine_two_lines :
    (report .machine "a.astro".toList "---\n---\n<li v-for=\"a\nb\"></li>\n".toList
        (pageDiagnostics "---\n---\n<li v-for=\"a\nb\"></li>\n".toList)).toList.count '\n'
      = (pageDiagnostics "---\n---\n<li v-for=\"a\nb\"></li>\n".toList).length + 1 := by
  have hpath : '\n' ∉ "a.astro".toList := by decide +kernel
  have hquotes : (pageLoopQuotes "---\n---\n<li v-for=\"a\nb\"></li>\n".toList).count '\n' = 1 := by
    decide +kernel
  have hbreaks : messageBreaks (pageDiagnostics "---\n---\n<li v-for=\"a\nb\"></li>\n".toList) = 1 :=
    (messageBreaks_pageDiagnostics _).trans hquotes
  exact (lineBreaks_report hpath _ _).trans (congrArg (_ + ·) hbreaks)

end AstroTemplate
