import AstroTemplate.Astro.Generate
import AstroTemplate.Markup.Template

set_option autoImplicit false

/-! # The test of a generated conditional

A condition is put in front of a `?` as it is written. Whether the whole of it is then the test
depends on the condition: `testOf?` is the part of an expression before its first conditional `?`,
the first one outside of all brackets and quotes that is not one of the operators `?.` and `??`. For
a condition with balanced brackets and quotes, the test of the generated conditional is the whole
condition exactly if the condition has no such `?` itself (`testsWhole_append_question_iff`). Where
the condition is put into parentheses it always is (`testOf?_visibilityTernary`).
-/

namespace AstroTemplate

/-! ## Going through an expression -/

/-- Whether an expression is being read as such, or inside quotes. -/
inductive ScanMode where
  | code
  | quoted (quote : Char)
  /-- After a backslash inside quotes. -/
  | escaped (quote : Char)
  deriving DecidableEq, Repr

/-- A place in an expression, with the closing brackets that are awaited there, the innermost
first. -/
structure ScanState where
  mode : ScanMode
  awaited : List Char
  deriving DecidableEq, Repr

def isQuote (c : Char) : Bool := "'\"`".toList.contains c

def isClosing (c : Char) : Bool := ")]\x7d".toList.contains c

/-- The bracket that closes an opening one. -/
def closingFor? : Char → Option Char
  | '(' => some ')'
  | '[' => some ']'
  | '\x7b' => some '\x7d'
  | _ => none

namespace ScanState

/-- Outside of all brackets and quotes. -/
def outermost : ScanState := ⟨.code, []⟩

/-- The place after the character `c`, unless it closes a bracket that is not open. -/
def step (s : ScanState) (c : Char) : Option ScanState :=
  match s.mode with
  | .escaped quote => some ⟨.quoted quote, s.awaited⟩
  | .quoted quote =>
    if c = '\\' then some ⟨.escaped quote, s.awaited⟩
    else if c = quote then some ⟨.code, s.awaited⟩
    else some s
  | .code =>
    if isQuote c then some ⟨.quoted c, s.awaited⟩
    else
      match closingFor? c with
      | some close => some ⟨.code, close :: s.awaited⟩
      | none =>
        if isClosing c then
          match s.awaited with
          | close :: rest => if close = c then some ⟨.code, rest⟩ else none
          | [] => none
        else some s

/-- The place after a text. -/
def scan (s : ScanState) (text : List Char) : Option ScanState := text.foldlM step s

end ScanState

/-- Every bracket and every quote is closed by its counterpart. -/
def Balanced (text : List Char) : Prop := ScanState.outermost.scan text = some .outermost

instance instDecidableBalanced (text : List Char) : Decidable (Balanced text) :=
  inferInstanceAs (Decidable (ScanState.outermost.scan text = some .outermost))

/-- The part of a text before its first conditional `?`, if `s` is the place where it begins. -/
def testFrom? (s : ScanState) : List Char → Option (List Char)
  | [] => none
  | c :: rest =>
    if s = .outermost ∧ c = '?' then
      match rest with
      | [] => some []
      | next :: more =>
        if next = '?' ∨ next = '.' then (testFrom? s more).map (c :: next :: ·) else some []
    else (s.step c).bind fun next => (testFrom? next rest).map (c :: ·)

/-- The part of an expression before its first conditional `?`. -/
def testOf? (text : List Char) : Option (List Char) := testFrom? .outermost text

namespace ScanState

theorem scan_cons (s : ScanState) (c : Char) (text : List Char) :
    s.scan (c :: text) = (s.step c).bind (·.scan text) := rfl

theorem step_operator {c : Char} (h : c = '?' ∨ c = '.') : outermost.step c = some outermost := by
  rcases h with rfl | rfl <;> rfl

theorem testFrom?_question {rest : List Char} (h : ∀ c ∈ rest.head?, ¬ (c = '?' ∨ c = '.')) :
    testFrom? outermost ('?' :: rest) = some [] := by
  cases rest with
  | nil => rfl
  | cons next more =>
      rw [testFrom?.eq_def]
      dsimp only
      rw [if_pos ⟨rfl, rfl⟩, if_neg (h next rfl)]

theorem testFrom?_operator {next : Char} (h : next = '?' ∨ next = '.') (more : List Char) :
    testFrom? outermost ('?' :: next :: more)
      = (testFrom? outermost more).map ('?' :: next :: ·) := by
  rw [testFrom?.eq_def]
  dsimp only
  rw [if_pos ⟨rfl, rfl⟩, if_pos h]

theorem testFrom?_step {s : ScanState} {c : Char} (h : ¬ (s = outermost ∧ c = '?'))
    (rest : List Char) :
    testFrom? s (c :: rest) = (s.step c).bind fun next => (testFrom? next rest).map (c :: ·) := by
  rw [testFrom?.eq_def]
  exact if_neg h

/-- A test is found in a text or after it. What follows must not make an operator of a `?` at the
end of the text. -/
theorem testFrom?_append {s s' : ScanState} {text tail : List Char} (h : s.scan text = some s')
    (htail : ∀ c ∈ tail.head?, ¬ (c = '?' ∨ c = '.')) :
    testFrom? s (text ++ tail)
      = (testFrom? s text).or ((testFrom? s' tail).map (text ++ ·)) := by
  fun_induction testFrom? s text with
  | case1 s =>
      obtain rfl := Option.some_inj.1 h
      rw [List.nil_append, Option.none_or]
      exact Option.map_id'.symm
  | case2 s c hc =>
      -- the text ends with a `?`, and only here does it matter what follows
      obtain ⟨rfl, rfl⟩ := hc
      rw [List.singleton_append, testFrom?_question htail, Option.some_or]
  | case3 s c hc next more hnext ih =>
      -- both characters of an operator leave the scan where it is
      obtain ⟨rfl, rfl⟩ := hc
      rw [scan_cons, step_operator (.inl rfl), Option.bind_some, scan_cons, step_operator hnext,
        Option.bind_some] at h
      rw [List.cons_append, List.cons_append, testFrom?_operator hnext, ih h, Option.map_or,
        Option.map_map]
      rfl
  | case4 s c hc next more hnext =>
      obtain ⟨rfl, rfl⟩ := hc
      rw [List.cons_append, List.cons_append, Option.some_or]
      refine testFrom?_question fun c' hc' => ?_
      obtain rfl := Option.some_inj.1 hc'
      exact hnext
  | case5 s c rest hc ih =>
      rw [scan_cons] at h
      obtain ⟨next, hnext, hrest⟩ := Option.bind_eq_some_iff.1 h
      rw [List.cons_append, testFrom?_step hc, hnext, Option.bind_some, Option.bind_some,
        ih next hrest, Option.map_or, Option.map_map]
      rfl

/-- What comes before a conditional `?` is part of the text, and so is the `?`. -/
theorem exists_eq_of_testFrom? {s : ScanState} {text test : List Char}
    (h : testFrom? s text = some test) : ∃ rest, text = test ++ '?' :: rest := by
  fun_induction testFrom? s text generalizing test with
  | case1 s => cases h
  | case2 s c hc =>
      obtain rfl := Option.some_inj.1 h
      exact ⟨[], by rw [hc.2]; rfl⟩
  | case3 s c hc next more hnext ih =>
      obtain ⟨found, hfound, rfl⟩ := Option.map_eq_some_iff.1 h
      obtain ⟨rest, rfl⟩ := ih hfound
      exact ⟨rest, rfl⟩
  | case4 s c hc next more hnext =>
      obtain rfl := Option.some_inj.1 h
      exact ⟨next :: more, by rw [hc.2]; rfl⟩
  | case5 s c rest hc ih =>
      obtain ⟨next, hnext, hrest⟩ := Option.bind_eq_some_iff.1 h
      obtain ⟨found, hfound, rfl⟩ := Option.map_eq_some_iff.1 hrest
      obtain ⟨after, rfl⟩ := ih next hfound
      exact ⟨after, rfl⟩

/-! ## Inside brackets -/

/-- The same place inside further brackets. -/
def under (s : ScanState) (below : List Char) : ScanState := ⟨s.mode, s.awaited ++ below⟩

theorem step_under {s s' : ScanState} {c : Char} (h : s.step c = some s') (below : List Char) :
    (s.under below).step c = some (s'.under below) := by
  obtain ⟨mode, awaited⟩ := s
  cases mode with
  | escaped quote =>
      obtain rfl := Option.some_inj.1 h
      rfl
  | quoted quote => grind [step, under]
  | code =>
      -- a closing bracket closes one of the text itself
      cases awaited with
      | nil => grind [step, under]
      | cons close rest => grind [step, under]

/-- No conditional `?` is found in a text inside brackets. -/
theorem testFrom?_under {s s' : ScanState} {text below : List Char} (h : s.scan text = some s')
    (hbelow : below ≠ []) (tail : List Char) :
    testFrom? (s.under below) (text ++ tail)
      = (testFrom? (s'.under below) tail).map (text ++ ·) := by
  induction text generalizing s with
  | nil =>
      obtain rfl := Option.some_inj.1 h
      exact Option.map_id'.symm
  | cons c text ih =>
      have hinside : ¬ (s.under below = outermost ∧ c = '?') := by
        rintro ⟨hout, -⟩
        have hnil : s.awaited ++ below = [] := congrArg ScanState.awaited hout
        exact hbelow (List.append_eq_nil_iff.1 hnil).2
      obtain ⟨next, hnext, hrest⟩ := Option.bind_eq_some_iff.1 h
      rw [List.cons_append, testFrom?_step hinside, step_under hnext, Option.bind_some, ih hrest,
        Option.map_map]
      rfl

end ScanState

/-! ## Generated conditionals -/

/-- The test of the conditional `text` is the whole condition, apart from blanks around it. -/
def TestsWhole (condition text : List Char) : Prop :=
  (testOf? text).map trim = some (trim condition)

instance instDecidableTestsWhole (condition text : List Char) :
    Decidable (TestsWhole condition text) :=
  inferInstanceAs (Decidable ((testOf? text).map trim = some (trim condition)))

/-- The test of a condition followed by `?` is the test that the condition itself has, if it is a
conditional, and otherwise the condition. -/
theorem testOf?_append_question {condition : List Char} (h : Balanced condition)
    (rest : List Char) :
    testOf? (condition ++ ' ' :: '?' :: ' ' :: rest)
      = some ((testOf? condition).getD (condition ++ [' '])) := by
  have hrest : testFrom? .outermost (' ' :: '?' :: ' ' :: rest) = some [' '] := rfl
  rw [testOf?, ScanState.testFrom?_append h (by simp), hrest, Option.map_some, testOf?]
  cases testFrom? .outermost condition <;> rfl

/-- A conditional that tests a part of the condition leaves out a `?`. -/
theorem trim_test_iff (condition : List Char) :
    trim ((testOf? condition).getD (condition ++ [' '])) = trim condition ↔
      testOf? condition = none := by
  cases htest : testOf? condition with
  | none => exact iff_of_true (trim_append_blank condition (by decide)) rfl
  | some test =>
      obtain ⟨rest, hrest⟩ := ScanState.exists_eq_of_testFrom? htest
      -- trimming takes no `?` away, and the condition has one more than its test
      refine iff_of_false (fun htrim => ?_) nofun
      have hcount := congrArg (List.count '?') htrim
      rw [Option.getD_some, count_trim (by decide), count_trim (by decide), hrest,
        List.count_append, List.count_cons_self] at hcount
      omega

theorem testsWhole_append_question_iff {condition : List Char} (h : Balanced condition)
    (rest : List Char) :
    TestsWhole condition (condition ++ ' ' :: '?' :: ' ' :: rest) ↔ testOf? condition = none := by
  rw [TestsWhole, testOf?_append_question h, Option.map_some, Option.some_inj, trim_test_iff]

theorem renderChain_eq_of_condition? {branch : Branch (Piece (List Char))} {condition : List Char}
    (h : branch.condition? = some condition) (rest : List (Branch (Piece (List Char)))) :
    renderChain (branch :: rest) = condition ++ ' ' :: '?' :: ' '
      :: ('(' :: branch.member.content ++ ") : ".toList ++ renderChain rest) := by
  rw [renderChain, h]
  simp

/-- What a fixed style has in front of the condition that it takes in. -/
def styleBefore (style : List Char) : List Char :=
  "`".toList ++ escapeBackticks style
    ++ if (trimEnd style).isEmpty || (trimEnd style).getLast? == some ';' then [] else [';']

/-- The conditional inside a fixed style that takes a condition in. -/
def styleTest (condition : List Char) : List Char :=
  condition ++ ' ' :: '?' :: ' ' :: ("'' : '".toList ++ hiddenStyle ++ "'".toList)

theorem styleTemplate_eq (style condition : List Char) :
    styleTemplate style condition
      = styleBefore style ++ "$\x7b".toList ++ styleTest condition ++ "\x7d`".toList := by
  delta styleTemplate styleBefore styleTest
  simp

/-- The first style takes the condition in. -/
theorem mergeVisibility_append_static {condition name : List Char} {before : List OutAttr}
    (hbefore : ∀ attr ∈ before, attr.withVisibility? condition = none)
    (hname : isStyleName name = true) (value : Option (List Char)) (after : List OutAttr) :
    mergeVisibility condition (before ++ .static name value :: after)
      = before ++ .bound name (some (styleTemplate (value.getD []) condition)) :: after := by
  induction before with
  | nil =>
      rw [List.nil_append, mergeVisibility, OutAttr.withVisibility?, if_pos hname]
      rfl
  | cons attr before ih =>
      rw [List.cons_append, mergeVisibility, hbefore attr List.mem_cons_self]
      exact congrArg (attr :: ·) (ih fun a ha => hbefore a (List.mem_cons_of_mem attr ha))

/-- In parentheses the whole condition is the test. -/
theorem testOf?_visibilityTernary {condition : List Char} (h : Balanced condition) :
    testOf? (visibilityTernary condition)
      = some ("(".toList ++ condition ++ ") ".toList) := by
  have hne : [')'] ≠ [] := List.cons_ne_nil _ _
  have hsplit : visibilityTernary condition = '(' :: (condition
      ++ ')' :: ' ' :: '?' :: ' ' :: ("'' : '".toList ++ hiddenStyle ++ "'".toList)) := by
    rw [visibilityTernary]
    simp
  have hopen : ScanState.outermost.step '(' = some (ScanState.outermost.under [')']) := rfl
  have hclose : ∀ rest, testFrom? (ScanState.outermost.under [')'])
      (')' :: ' ' :: '?' :: ' ' :: rest) = some [')', ' '] := fun _ => rfl
  rw [testOf?, hsplit, ScanState.testFrom?_step (by decide), hopen, Option.bind_some,
    ScanState.testFrom?_under h hne, hclose, Option.map_some, Option.map_some]
  simp

/-- A chain, and a fixed style that takes a condition in, test the whole condition exactly if the
condition has no conditional `?` of its own; if it has one, they test what stands before that. In
parentheses, as in a style that is all condition, the whole condition is tested. -/
theorem conditional_testsWhole_iff (condition : List Char) (h : Balanced condition) :
    (∀ (branch : Branch (Piece (List Char))) rest, branch.condition? = some condition →
      testOf? (renderChain (branch :: rest))
          = some ((testOf? condition).getD (condition ++ [' '])) ∧
        (TestsWhole condition (renderChain (branch :: rest)) ↔ testOf? condition = none)) ∧
      (∀ (before : List OutAttr) name value after,
        (∀ attr ∈ before, attr.withVisibility? condition = none) → isStyleName name = true →
        mergeVisibility condition (before ++ .static name value :: after)
            = before ++ .bound name (some (styleBefore (value.getD []) ++ "$\x7b".toList
                ++ styleTest condition ++ "\x7d`".toList)) :: after ∧
          testOf? (styleTest condition) = some ((testOf? condition).getD (condition ++ [' '])) ∧
          (TestsWhole condition (styleTest condition) ↔ testOf? condition = none)) ∧
      testOf? (visibilityTernary condition) = some ("(".toList ++ condition ++ ") ".toList) := by
  refine ⟨?_, ?_, testOf?_visibilityTernary h⟩
  · intro branch rest hcondition
    rw [renderChain_eq_of_condition? hcondition]
    exact ⟨testOf?_append_question h _, testsWhole_append_question_iff h _⟩
  · intro before name value after hbefore hname
    rw [mergeVisibility_append_static hbefore hname, styleTemplate_eq]
    exact ⟨rfl, testOf?_append_question h _, testsWhole_append_question_iff h _⟩

/-- The operators `?.` and `??` and a quoted `?` do not cut a condition short. -/
theorem conditional_testsWhole_iff_operators :
    Balanced "a?.b ?? f('?')".toList ∧
      TestsWhole "a?.b ?? f('?')".toList (renderChain [⟨.ifBranch, (Node.element ⟨⟨0, 32⟩,
        "p".toList, [.directive ⟨⟨3, 24⟩, "v-if".toList, "if".toList, none, [],
          some ⟨⟨9, 23⟩, "a?.b ?? f('?')".toList⟩⟩], false⟩ []).piece⟩]) ∧
      TestsWhole "a?.b ?? f('?')".toList (styleTest "a?.b ?? f('?')".toList) := by
  have hbalanced : Balanced "a?.b ?? f('?')".toList := by decide +kernel
  have hnone : testOf? "a?.b ?? f('?')".toList = none := by decide +kernel
  have h := conditional_testsWhole_iff "a?.b ?? f('?')".toList hbalanced
  refine ⟨hbalanced, ?_, ?_⟩
  · exact (h.1 _ [] (by decide +kernel)).2.2 hnone
  · exact (h.2.1 [] "style".toList none [] nofun (by decide)).2.2.2 hnone

/-- In `<p v-if="a ? b : c"></p>` the generated conditional tests `a`, and the condition `c` decides
what is shown if it fails. -/
theorem conditional_testsWhole_iff_nested :
    Balanced "a ? b : c".toList ∧
      generate (Template.read .condense "<p v-if=\"a ? b : c\"></p>".toList).nodes
        = inBraces "a ? b : c ? (<p></p>) : null".toList ∧
      (testOf? "a ? b : c ? (<p></p>) : null".toList).map trim = some ['a'] ∧
      ¬ TestsWhole "a ? b : c".toList "a ? b : c ? (<p></p>) : null".toList := by
  decide +kernel

end AstroTemplate
