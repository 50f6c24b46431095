import AstroTemplate.Proofs.OutermostTest
import Mathlib.Data.List.Induction

set_option autoImplicit false

/-! # The backticks of a template literal

A text is put between backticks with a backslash in front of each of its own backticks. Whether a
backtick is escaped depends on all the backslashes in front of it: it is, if their number is odd
(`escapesNext`). One more backslash makes an even number odd, and an odd one even. So the result is
one literal, with no unescaped backtick but the first and the last character (`IsOneLiteral`),
exactly if no backtick of the text was escaped already and the text does not end in the middle of an
escape (`isOneLiteral_iff`). A reader of the literal stops at its end in the same case
(`afterLiteral?_eq_rest_iff`).
-/

namespace AstroTemplate

/-! ## Escaped characters -/

/-- Whether a character after `s` is escaped, because `s` ends in an odd number of backslashes. -/
def escapesNext (s : List Char) : Bool := (s.reverse.takeWhile (· == '\\')).length % 2 == 1

theorem escapesNext_concat (s : List Char) (c : Char) :
    escapesNext (s ++ [c]) = (c == '\\' && !escapesNext s) := by
  rw [escapesNext, List.reverse_append, List.reverse_singleton, List.singleton_append]
  by_cases hc : c = '\\'
  · subst hc
    rw [List.takeWhile_cons_of_pos (by decide), List.length_cons, escapesNext]
    -- one backslash more, so what is left is a matter of parity
    generalize (s.reverse.takeWhile (· == '\\')).length = n
    by_cases hn : n % 2 = 1
    · have hnext : (n + 1) % 2 = 0 := by omega
      simp [hn, hnext]
    · have hn : n % 2 = 0 := by omega
      have hnext : (n + 1) % 2 = 1 := by omega
      simp [hn, hnext]
  · rw [List.takeWhile_cons_of_neg (by simpa using hc)]
    simp [hc]

/-- What comes before a character that is no backslash does not matter. -/
theorem escapesNext_cons {c : Char} (hc : c ≠ '\\') (s : List Char) :
    escapesNext (c :: s) = escapesNext s := by
  induction s using List.reverseRecOn with
  | nil =>
      have hend : escapesNext ([] ++ [c]) = false := by
        rw [escapesNext_concat, beq_eq_false_iff_ne.2 hc, Bool.false_and]
      exact hend
  | append_singleton s d ih => rw [← List.cons_append, escapesNext_concat, escapesNext_concat, ih]

/-- No backtick of the text is escaped. -/
def TicksBare (s : List Char) : Prop :=
  ∀ before after, s = before ++ '`' :: after → escapesNext before = false

/-- The unescaped backticks of the text are its first and its last character. -/
def IsOneLiteral (t : List Char) : Prop :=
  (∃ body, t = '`' :: (body ++ ['`'])) ∧
    ∀ before after, t = before ++ '`' :: after →
      (escapesNext before = false ↔ before = [] ∨ after = [])

/-- The first character of the text is its only unescaped backtick. -/
def OpensOneLiteral (t : List Char) : Prop :=
  t.head? = some '`' ∧
    ∀ before after, t = before ++ '`' :: after → (escapesNext before = false ↔ before = [])

/-! ## Escaped backticks -/

theorem escapeBackticks_cons (c : Char) (s : List Char) :
    escapeBackticks (c :: s) = (if c = '`' then ['\\', '`'] else [c]) ++ escapeBackticks s :=
  List.flatMap_cons

theorem escapeBackticks_append (s t : List Char) :
    escapeBackticks (s ++ t) = escapeBackticks s ++ escapeBackticks t :=
  List.flatMap_append

/-- A text and the escaped text end in the same number of backslashes. -/
theorem escapesNext_escapeBackticks (s : List Char) :
    escapesNext (escapeBackticks s) = escapesNext s := by
  induction s using List.reverseRecOn with
  | nil => rfl
  | append_singleton s c ih =>
      rw [escapeBackticks_append, escapeBackticks_cons, escapesNext_concat]
      by_cases hc : c = '`'
      · rw [if_pos hc, hc]
        have htwo : escapeBackticks s ++ (['\\', '`'] ++ escapeBackticks [])
            = (escapeBackticks s ++ ['\\']) ++ ['`'] := by simp [escapeBackticks]
        rw [htwo, escapesNext_concat]
        rfl
      · have hone : escapeBackticks s ++ ([c] ++ escapeBackticks [])
            = escapeBackticks s ++ [c] := by simp [escapeBackticks]
        rw [if_neg hc, hone, escapesNext_concat, ih]

/-- A backtick of the escaped text is one of the text, with a backslash more in front of it. -/
theorem exists_of_escapeBackticks_eq {s before after : List Char}
    (h : escapeBackticks s = before ++ '`' :: after) :
    ∃ x y, s = x ++ '`' :: y ∧ before = escapeBackticks x ++ ['\\'] ∧
      after = escapeBackticks y := by
  induction s generalizing before with
  | nil => simp [escapeBackticks] at h
  | cons c s ih =>
      rw [escapeBackticks_cons] at h
      by_cases hc : c = '`'
      · subst hc
        rw [if_pos rfl] at h
        -- the new backslash is in front, so the backtick is the second character or a later one
        rcases before with - | ⟨d, - | ⟨e, before⟩⟩
        · simp at h
        · obtain ⟨rfl, rfl⟩ : '\\' = d ∧ escapeBackticks s = after := by simpa using h
          exact ⟨[], s, rfl, rfl, rfl⟩
        · obtain ⟨rfl, rfl, hrest⟩ :
              '\\' = d ∧ '`' = e ∧ escapeBackticks s = before ++ '`' :: after := by
            simpa using h
          obtain ⟨x, y, rfl, rfl, rfl⟩ := ih hrest
          exact ⟨'`' :: x, y, rfl, rfl, rfl⟩
      · rw [if_neg hc, List.singleton_append] at h
        cases before with
        | nil => exact absurd (List.cons.inj h).1 hc
        | cons d before =>
            obtain ⟨rfl, hrest⟩ := List.cons.inj h
            obtain ⟨x, y, rfl, rfl, rfl⟩ := ih hrest
            refine ⟨c :: x, y, rfl, ?_, rfl⟩
            rw [escapeBackticks_cons, if_neg hc]
            rfl

/-- After the first backtick, a backtick of the text is escaped exactly if it was not before. -/
theorem escapesNext_before_tick (x : List Char) :
    escapesNext ('`' :: (escapeBackticks x ++ ['\\'])) = !escapesNext x := by
  rw [escapesNext_cons (by decide), escapesNext_concat, escapesNext_escapeBackticks]
  rfl

/-- The backticks of a text are found in the literal, each after a backslash. -/
theorem literal_split (x y tail : List Char) :
    '`' :: (escapeBackticks (x ++ '`' :: y) ++ tail)
      = ('`' :: (escapeBackticks x ++ ['\\'])) ++ '`' :: (escapeBackticks y ++ tail) := by
  rw [escapeBackticks_append, escapeBackticks_cons, if_pos rfl]
  simp

/-- A backtick of a literal is the first one, one of the text, or one of what follows the text. -/
theorem tick_cases {s tail before after : List Char}
    (h : '`' :: (escapeBackticks s ++ tail) = before ++ '`' :: after) :
    before = [] ∨
      (∃ x y, s = x ++ '`' :: y ∧ before = '`' :: (escapeBackticks x ++ ['\\']) ∧
        after = escapeBackticks y ++ tail) ∨
      ∃ u, before = '`' :: (escapeBackticks s ++ u) ∧ tail = u ++ '`' :: after := by
  cases before with
  | nil => exact .inl rfl
  | cons c before =>
      obtain ⟨rfl, hrest⟩ := List.cons.inj h
      refine .inr ?_
      rcases List.append_eq_append_iff.1 hrest with ⟨u, rfl, htail⟩ | ⟨u, hs, hafter⟩
      · exact .inr ⟨u, rfl, htail⟩
      · cases u with
        | nil => exact .inr ⟨[], by simpa using hs.symm, hafter.symm⟩
        | cons d u =>
            obtain ⟨rfl, rfl⟩ := List.cons.inj hafter
            obtain ⟨x, y, rfl, rfl, rfl⟩ := exists_of_escapeBackticks_eq hs
            exact .inl ⟨x, y, rfl, rfl, rfl⟩

/-- Between backticks, an escaped text is one literal exactly if it has no backtick that is escaped
already and does not escape the last backtick. -/
theorem isOneLiteral_iff (s : List Char) :
    IsOneLiteral ('`' :: (escapeBackticks s ++ ['`'])) ↔ TicksBare s ∧ escapesNext s = false := by
  have hlast : escapesNext ('`' :: escapeBackticks s) = escapesNext s := by
    rw [escapesNext_cons (by decide), escapesNext_escapeBackticks]
  constructor
  · rintro ⟨-, hticks⟩
    constructor
    · rintro x y rfl
      have htick := hticks _ _ (literal_split x y ['`'])
      rw [escapesNext_before_tick] at htick
      simpa using htick
    · rw [← hlast, hticks _ [] rfl]
      exact .inr rfl
  · rintro ⟨hbare, hend⟩
    refine ⟨⟨escapeBackticks s, rfl⟩, ?_⟩
    intro before after heq
    rcases tick_cases heq with rfl | ⟨x, y, hs, rfl, rfl⟩ | ⟨u, rfl, htail⟩
    · exact iff_of_true rfl (.inl rfl)
    · rw [escapesNext_before_tick, hbare x y hs]
      exact iff_of_false (by decide) (by simp)
    · -- only the last backtick is left
      obtain ⟨rfl, rfl⟩ : u = [] ∧ after = [] := by
        cases u with
        | nil => exact ⟨rfl, (List.cons.inj htail).2.symm⟩
        | cons d u => simp at htail
      rw [List.append_nil, hlast, hend]
      exact iff_of_true rfl (.inr rfl)

/-- After a backtick, an escaped text opens one literal exactly if it has no backtick that is
escaped already. -/
theorem opensOneLiteral_iff (s : List Char) {tail : List Char} (htail : '`' ∉ tail) :
    OpensOneLiteral ('`' :: (escapeBackticks s ++ tail)) ↔ TicksBare s := by
  constructor
  · rintro ⟨-, hticks⟩ x y rfl
    have htick := hticks _ _ (literal_split x y tail)
    rw [escapesNext_before_tick] at htick
    simpa using htick
  · intro hbare
    refine ⟨rfl, ?_⟩
    intro before after heq
    rcases tick_cases heq with rfl | ⟨x, y, hs, rfl, rfl⟩ | ⟨u, rfl, rfl⟩
    · exact iff_of_true rfl rfl
    · rw [escapesNext_before_tick, hbare x y hs]
      exact iff_of_false (by decide) (by simp)
    · simp at htail

/-! ## Reading a literal -/

/-- What follows a literal of which the text is left to read, its first character being escaped or
not. A backslash escapes the character after it, and the first backtick that is not escaped ends the
literal. Placeholders are not looked into. -/
def afterBody? : Bool → List Char → Option (List Char)
  | _, [] => none
  | true, _ :: s => afterBody? false s
  | false, c :: s => if c = '`' then some s else afterBody? (c == '\\') s

/-- What follows the literal that a text begins with. -/
def afterLiteral? : List Char → Option (List Char)
  | [] => none
  | c :: s => if c = '`' then afterBody? false s else none

/-- A reader steps over an escaped character, unless it is a backtick that was escaped already. -/
theorem afterBody?_escape_cons {x : List Char} {c : Char} (hbare : c = '`' → escapesNext x = false)
    (s tail : List Char) :
    afterBody? (escapesNext x) (escapeBackticks (c :: s) ++ tail)
      = afterBody? (escapesNext (x ++ [c])) (escapeBackticks s ++ tail) := by
  rw [escapeBackticks_cons, escapesNext_concat]
  by_cases hc : c = '`'
  · -- the new backslash takes the backtick along, and nothing is escaped after it
    rw [if_pos hc, hbare hc, hc]
    rfl
  · rw [if_neg hc]
    cases escapesNext x with
    | true => simp [afterBody?]
    | false => simp [afterBody?, hc]

/-- A reader that has read `x` reads all of a text whose backticks are not escaped after `x`. -/
theorem afterBody?_of_bare {x s : List Char}
    (hbare : ∀ y z, s = y ++ '`' :: z → escapesNext (x ++ y) = false) (tail : List Char) :
    afterBody? (escapesNext x) (escapeBackticks s ++ tail)
      = afterBody? (escapesNext (x ++ s)) tail := by
  induction s generalizing x with
  | nil => rw [List.append_nil]; rfl
  | cons c s ih =>
      have hfirst : c = '`' → escapesNext x = false := by
        rintro rfl
        simpa using hbare [] s rfl
      rw [afterBody?_escape_cons hfirst, ih, List.append_assoc, List.singleton_append]
      intro y z hs
      rw [List.append_assoc, List.singleton_append]
      exact hbare (c :: y) z (congrArg (c :: ·) hs)

/-- A reader that has read `x` stops inside a text with a backtick that is escaped after `x`. -/
theorem afterBody?_of_escaped {x y z : List Char} (h : escapesNext (x ++ y) = true)
    (tail : List Char) :
    ∃ u, afterBody? (escapesNext x) (escapeBackticks (y ++ '`' :: z) ++ tail)
      = some (escapeBackticks u ++ tail) := by
  induction y generalizing x with
  | nil =>
      -- the new backslash is escaped itself, so the backtick after it is not
      rw [List.append_nil] at h
      refine ⟨z, ?_⟩
      rw [h, List.nil_append, escapeBackticks_cons, if_pos rfl]
      rfl
  | cons c y ih =>
      by_cases hfirst : c = '`' ∧ escapesNext x = true
      · obtain ⟨rfl, hx⟩ := hfirst
        refine ⟨y ++ '`' :: z, ?_⟩
        rw [hx, List.cons_append, escapeBackticks_cons, if_pos rfl]
        rfl
      · have hbare : c = '`' → escapesNext x = false := fun hc =>
          Bool.eq_false_iff.2 fun hx => hfirst ⟨hc, hx⟩
        rw [List.cons_append, afterBody?_escape_cons hbare]
        apply ih
        rwa [List.append_assoc, List.singleton_append]

theorem afterBody?_of_notMem {escaped : Bool} {s : List Char} (h : '`' ∉ s) :
    afterBody? escaped s = none := by
  induction s generalizing escaped with
  | nil => cases escaped <;> rfl
  | cons c s ih =>
      obtain ⟨hc, hs⟩ := List.ne_and_not_mem_of_not_mem_cons h
      cases escaped with
      | true => exact ih hs
      | false => rw [afterBody?, if_neg (Ne.symm hc), ih hs]

/-- A reader comes to the end of the text exactly if no backtick of it was escaped already. -/
theorem afterLiteral?_cases (s tail : List Char) :
    (TicksBare s ∧ afterLiteral? ('`' :: (escapeBackticks s ++ tail))
        = afterBody? (escapesNext s) tail) ∨
      (¬ TicksBare s ∧ ∃ u, afterLiteral? ('`' :: (escapeBackticks s ++ tail))
        = some (escapeBackticks u ++ tail)) := by
  by_cases hbare : TicksBare s
  · exact .inl ⟨hbare, afterBody?_of_bare (x := []) hbare tail⟩
  · refine .inr ⟨hbare, ?_⟩
    rw [TicksBare] at hbare
    push Not at hbare
    obtain ⟨y, z, rfl, hy⟩ := hbare
    exact afterBody?_of_escaped (x := []) (eq_true_of_ne_false hy) tail

/-- A reader stops behind the last backtick, whatever follows, exactly if there is one literal. -/
theorem afterLiteral?_eq_rest_iff (s : List Char) :
    (∀ rest, afterLiteral? ('`' :: (escapeBackticks s ++ ['`']) ++ rest) = some rest) ↔
      TicksBare s ∧ escapesNext s = false := by
  have hassoc (rest : List Char) : '`' :: (escapeBackticks s ++ ['`']) ++ rest
      = '`' :: (escapeBackticks s ++ '`' :: rest) := by simp
  constructor
  · intro hrest
    -- the literal alone shows it: a reader that goes wrong finds no end there, or leaves a rest
    have hread := hrest []
    rw [hassoc] at hread
    rcases afterLiteral?_cases s ['`'] with ⟨hbare, heq⟩ | ⟨-, u, heq⟩
    · refine ⟨hbare, Bool.eq_false_iff.2 fun hend => ?_⟩
      rw [heq, hend] at hread
      cases hread
    · rw [heq] at hread
      simp at hread
  · rintro ⟨hbare, hend⟩ rest
    rw [hassoc]
    rcases afterLiteral?_cases s ('`' :: rest) with ⟨-, heq⟩ | ⟨hnot, -⟩
    · rw [heq, hend]
      rfl
    · exact absurd hbare hnot

/-- A reader does not stop before the tail exactly if one literal is opened. -/
theorem afterLiteral?_eq_none_iff (s : List Char) {tail : List Char} (htail : '`' ∉ tail) :
    afterLiteral? ('`' :: (escapeBackticks s ++ tail)) = none ↔ TicksBare s := by
  rcases afterLiteral?_cases s tail with ⟨hbare, heq⟩ | ⟨hnot, u, heq⟩
  · rw [heq]
    exact iff_of_true (afterBody?_of_notMem htail) hbare
  · rw [heq]
    exact iff_of_false nofun hnot

/-! ## Values and styles -/

theorem exists_styleBefore_eq (style : List Char) :
    ∃ tail, '`' ∉ tail ∧ styleBefore style = '`' :: (escapeBackticks style ++ tail) := by
  refine ⟨if (trimEnd style).isEmpty || (trimEnd style).getLast? == some ';' then [] else [';'],
    ?_, rfl⟩
  split <;> decide

/-- **The literal of a value is closed where it should be exactly if the text that is escaped has no
backtick that a backslash escapes already, and does not end in a backslash that would escape the
closing backtick.** The literal that a style opens has to meet the first condition only. In both, a
reader finds the end of the literal where it should be in the same case. -/
theorem literal_closed_iff (v : List Char) :
    (IsOneLiteral (templateLiteral v) ↔
        TicksBare ((insideBackticks? v).getD v) ∧
          escapesNext ((insideBackticks? v).getD v) = false) ∧
      ((∀ rest, afterLiteral? (templateLiteral v ++ rest) = some rest) ↔
        IsOneLiteral (templateLiteral v)) ∧
      (∀ condition, styleTemplate v condition
        = styleBefore v ++ "$\x7b".toList ++ styleTest condition ++ "\x7d`".toList) ∧
      (OpensOneLiteral (styleBefore v) ↔ TicksBare v) ∧
      (afterLiteral? (styleBefore v) = none ↔ OpensOneLiteral (styleBefore v)) := by
  have hvalue := isOneLiteral_iff ((insideBackticks? v).getD v)
  obtain ⟨tail, htail, hbefore⟩ := exists_styleBefore_eq v
  have hstyle := opensOneLiteral_iff v htail
  refine ⟨hvalue, ?_, styleTemplate_eq v, ?_, ?_⟩
  · exact (afterLiteral?_eq_rest_iff _).trans hvalue.symm
  · rw [hbefore]
    exact hstyle
  · rw [hbefore]
    exact (afterLiteral?_eq_none_iff v htail).trans hstyle.symm

/-- The backslash at the end of the value in `<p title="${a}\"></p>` escapes the closing backtick,
and the literal runs on behind it. A backslash in front of a backtick ends the literal early, in a
value and in a style. -/
theorem literal_not_closed :
    generate (Template.read .condense "<p title=\"$\x7ba\x7d\\\"></p>".toList).nodes
        = "<p title=\x7b`$\x7ba\x7d\\`\x7d></p>".toList ∧
      templateLiteral "$\x7ba\x7d\\".toList = "`$\x7ba\x7d\\`".toList ∧
      ¬ IsOneLiteral "`$\x7ba\x7d\\`".toList ∧
      afterLiteral? ("`$\x7ba\x7d\\`".toList ++ "\x7d></p>".toList) = none ∧
      afterLiteral? (templateLiteral "$\x7ba\x7d\\`b".toList) = some "b`".toList ∧
      afterLiteral? (styleBefore "color: \\`red".toList) = some "red;".toList := by
  refine ⟨by decide +kernel, by decide, ?_, by decide, by decide, by decide +kernel⟩
  rintro ⟨-, hticks⟩
  have hlast := (hticks "`$\x7ba\x7d\\".toList [] rfl).2 (.inr rfl)
  exact absurd hlast (by decide)

end AstroTemplate
