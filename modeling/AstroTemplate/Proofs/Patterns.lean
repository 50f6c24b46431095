import AstroTemplate.Proofs.DetectionGaps
import AstroTemplate.Proofs.LoopSplit

set_option autoImplicit false

/-! # What the scanners look for

The scanners for loops and for template syntax stand for patterns. A pattern is a list of parts,
each of which takes a piece off the beginning of a text. A part may have several ways to do so, and
it prefers long pieces or short ones; the ways of a whole pattern are tried in that order, with the
first part's preference first, so that the one that counts is the first of `Pattern.ways`.

`Loop.split?` finds that one (`Loop.split?_eq_first?`), although it looks at each place of the text
only once. `needsConversion` finds out whether there is any (`needsConversion_iff_patterns`).
-/

namespace AstroTemplate

/-! ## Patterns -/

/-- A part of a pattern. -/
inductive PatternPart where
  /-- One character. -/
  | one (p : Char → Bool)
  /-- Any number of characters, as many as possible. -/
  | many (p : Char → Bool)
  /-- One or more characters, as many as possible. -/
  | some (p : Char → Bool)
  /-- One or more characters, as few as possible. -/
  | few (p : Char → Bool)
  /-- The first of several words that leads to a match. -/
  | word (words : List (List Char))
  /-- Nothing, at the end of a word. -/
  | endOfWord
  /-- Nothing, at the end of the text. -/
  | endOfText

/-- The ways to cut a text after characters that pass `p`, the longest one first. -/
def cutsWhile (p : Char → Bool) : List Char → List (List Char × List Char)
  | [] => [([], [])]
  | c :: s =>
    if p c then (cutsWhile p s).map (fun cut => (c :: cut.1, cut.2)) ++ [([], c :: s)]
    else [([], c :: s)]

/-- The pieces that a part can take off a text, each with what it leaves, in order of preference. -/
def PatternPart.cuts : PatternPart → List Char → List (List Char × List Char)
  | .one _, [] => []
  | .one p, c :: s => if p c then [([c], s)] else []
  | .many p, s => cutsWhile p s
  | .some p, s => (cutsWhile p s).filter (! ·.1.isEmpty)
  | .few p, s => ((cutsWhile p s).filter (! ·.1.isEmpty)).reverse
  | .word words, s => words.filterMap fun w => (afterPrefix? w s).map fun rest => (w, rest)
  | .endOfWord, s => if endsWord s then [([], s)] else []
  | .endOfText, s => if s.isEmpty then [([], s)] else []

abbrev Pattern := List PatternPart

/-- The ways to match a pattern at the beginning of a text, in order of preference. A way is the
list of the pieces that the parts take. -/
def Pattern.ways : Pattern → List Char → List (List (List Char))
  | [], _ => [[]]
  | part :: parts, s =>
    (part.cuts s).flatMap fun cut => (ways parts cut.2).map (cut.1 :: ·)

/-- The match of a pattern at the beginning of a text. -/
def Pattern.first? (pattern : Pattern) (s : List Char) : Option (List (List Char)) :=
  (pattern.ways s).head?

/-- A piece of the match. -/
def Pattern.piece? (pattern : Pattern) (i : Nat) (s : List Char) : Option (List Char) :=
  (pattern.first? s).map (·.getD i [])

/-- Blanks, an alias, blanks, a keyword, blanks, a source and blanks up to the end. Alias and source
are as short as possible. -/
def loopPattern : Pattern :=
  [.many isBlank, .few fun _ => true, .some isBlank, .word ["in".toList, "of".toList],
    .some isBlank, .few fun _ => true, .many isBlank, .endOfText]

def interpolationPattern : Pattern :=
  [.word [['\x7b', '\x7b']], .many isBlank, .few (· != '\x7d'), .many isBlank,
    .word [['\x7d', '\x7d']]]

def directivePattern : Pattern :=
  [.one isBlank, .word [['v', '-']], .word detectedDirectives, .endOfWord]

def shorthandPattern : Pattern :=
  [.one fun c => isBlank c || c == '<', .one fun c => c == ':' || c == '@', .one Char.isAlpha]

/-! ## The first match -/

section

variable {part : PatternPart} {parts : Pattern} {p : Char → Bool} {s : List Char}

theorem Pattern.first?_cons (part : PatternPart) (parts : Pattern) (s : List Char) :
    first? (part :: parts) s
      = (part.cuts s).findSome? fun cut => (first? parts cut.2).map (cut.1 :: ·) := by
  simp only [first?, ways, List.head?_flatMap, List.head?_map]

theorem Pattern.piece?_cons_succ (part : PatternPart) (parts : Pattern) (i : Nat) (s : List Char) :
    piece? (part :: parts) (i + 1) s = (part.cuts s).findSome? fun cut => piece? parts i cut.2 := by
  simp only [piece?, first?_cons, List.map_findSome?, Function.comp_def, Option.map_map,
    List.getD_cons_succ]

/-- The cuts of one or more characters go on after the first one. -/
theorem filter_cutsWhile_cons {c : Char} (hc : p c = true) (s : List Char) :
    (cutsWhile p (c :: s)).filter (! ·.1.isEmpty)
      = (cutsWhile p s).map fun cut => (c :: cut.1, cut.2) := by
  rw [cutsWhile, if_pos hc, List.filter_append, List.filter_eq_self.2]
  · simp
  · intro cut hcut
    obtain ⟨_, -, rfl⟩ := List.mem_map.1 hcut
    rfl

theorem filter_cutsWhile_cons_of_neg {c : Char} (hc : p c = false) (s : List Char) :
    (cutsWhile p (c :: s)).filter (! ·.1.isEmpty) = [] := by
  simp [cutsWhile, hc]

/-- The last way is to take nothing. -/
theorem cutsWhile_eq_append (p : Char → Bool) (s : List Char) :
    cutsWhile p s = (cutsWhile p s).filter (! ·.1.isEmpty) ++ [([], s)] := by
  cases s with
  | nil => rfl
  | cons c s =>
      cases hc : p c with
      | false => simp [cutsWhile, hc]
      | true => rw [filter_cutsWhile_cons hc, cutsWhile, if_pos hc]

/-- As few characters as possible: one, or one and as few more as possible. -/
theorem cuts_few_cons (c : Char) (s : List Char) :
    (PatternPart.few fun _ => true).cuts (c :: s)
      = ([c], s) :: ((PatternPart.few fun _ => true).cuts s).map fun cut => (c :: cut.1, cut.2) := by
  show ((cutsWhile _ (c :: s)).filter _).reverse = _
  rw [filter_cutsWhile_cons rfl, cutsWhile_eq_append, ← List.map_reverse, List.reverse_append]
  rfl

theorem findSome?_cutsWhile_cons {α : Type} (f : List Char → Option α) {c : Char} (hc : p c = true)
    (s : List Char) : ((cutsWhile p (c :: s)).findSome? fun cut => f cut.2)
      = ((cutsWhile p s).findSome? fun cut => f cut.2).or (f (c :: s)) := by
  rw [cutsWhile, if_pos hc, List.findSome?_append, List.findSome?_map]
  cases hf : f (c :: s) <;> simp [hf, Function.comp_def]

theorem mem_cutsWhile_iff {piece rest : List Char} :
    (piece, rest) ∈ cutsWhile p s ↔ s = piece ++ rest ∧ piece.all p = true := by
  induction s generalizing piece with
  | nil =>
      simp only [cutsWhile, List.mem_singleton, Prod.mk.injEq, List.nil_eq, List.append_eq_nil_iff]
      constructor
      · rintro ⟨rfl, rfl⟩
        exact ⟨⟨rfl, rfl⟩, rfl⟩
      · exact fun h => h.1
  | cons c s ih =>
      rw [cutsWhile_eq_append, List.mem_append, List.mem_singleton]
      cases piece with
      | nil => simp [eq_comm]
      | cons d piece =>
          cases hc : p c with
          | false =>
              rw [filter_cutsWhile_cons_of_neg hc]
              simp only [List.not_mem_nil, Prod.mk.injEq, reduceCtorEq, false_and, or_self,
                List.cons_append, List.cons.injEq, List.all_cons, Bool.and_eq_true, false_iff]
              rintro ⟨⟨rfl, -⟩, hd, -⟩
              rw [hc] at hd
              cases hd
          | true =>
              rw [filter_cutsWhile_cons hc]
              simp only [List.mem_map, Prod.mk.injEq, List.cons.injEq, reduceCtorEq, false_and,
                or_false, List.cons_append, List.all_cons, Bool.and_eq_true]
              constructor
              · rintro ⟨⟨_, _⟩, hcut, ⟨rfl, rfl⟩, rfl⟩
                exact ⟨⟨rfl, (ih.1 hcut).1⟩, hc, (ih.1 hcut).2⟩
              · rintro ⟨⟨rfl, hs⟩, -, hall⟩
                exact ⟨(piece, rest), ih.2 ⟨hs, hall⟩, ⟨rfl, rfl⟩, rfl⟩

theorem Pattern.isSome_first?_cons (part : PatternPart) (parts : Pattern) (s : List Char) :
    (first? (part :: parts) s).isSome = (part.cuts s).any fun cut => (first? parts cut.2).isSome := by
  rw [Bool.eq_iff_iff]
  simp only [first?_cons, List.findSome?_isSome_iff, Option.isSome_map, List.any_eq_true]

theorem Pattern.isSome_first?_one_cons (p : Char → Bool) (parts : Pattern) (c : Char)
    (s : List Char) :
    (first? (.one p :: parts) (c :: s)).isSome = (p c && (first? parts s).isSome) := by
  rw [isSome_first?_cons, PatternPart.cuts]
  cases p c <;> simp

theorem Pattern.piece?_cons_zero (part : PatternPart) (parts : Pattern) (s : List Char) :
    piece? (part :: parts) 0 s
      = (part.cuts s).findSome? fun cut => (first? parts cut.2).map fun _ => cut.1 := by
  simp only [piece?, first?_cons, List.map_findSome?, Function.comp_def, Option.map_map,
    List.getD_cons_zero]

end

/-! ## Loops -/

namespace Loop

/-- Blanks up to the end of the text. -/
theorem isSome_first?_blanks (s : List Char) :
    (Pattern.first? [.many isBlank, .endOfText] s).isSome = s.all isBlank := by
  have hend : ∀ t, (Pattern.first? [.endOfText] t).isSome = t.isEmpty := by
    rintro (- | ⟨c, t⟩) <;> rfl
  rw [Bool.eq_iff_iff, Pattern.isSome_first?_cons, List.any_eq_true]
  constructor
  · rintro ⟨⟨piece, rest⟩, hcut, hrest⟩
    obtain ⟨rfl, hall⟩ := mem_cutsWhile_iff.1 hcut
    rw [hend] at hrest
    obtain rfl := List.isEmpty_iff.1 hrest
    rwa [List.append_nil]
  · intro hall
    exact ⟨(s, []), mem_cutsWhile_iff.2 ⟨(List.append_nil s).symm, hall⟩, rfl⟩

/-- The shortest beginning of a text that only blanks follow. -/
def shortest? : List Char → Option (List Char)
  | [] => none
  | c :: s => if s.all isBlank then some [c] else (shortest? s).map (c :: ·)

theorem piece?_source (s : List Char) :
    Pattern.piece? [.few fun _ => true, .many isBlank, .endOfText] 0 s = shortest? s := by
  rw [Pattern.piece?_cons_zero]
  induction s with
  | nil => rfl
  | cons c s ih =>
      rw [cuts_few_cons, List.findSome?_cons, shortest?, List.findSome?_map]
      have hblanks := isSome_first?_blanks s
      cases hfirst : Pattern.first? [.many isBlank, .endOfText] s with
      | some pieces =>
          rw [hfirst, Option.isSome_some] at hblanks
          rw [if_pos hblanks.symm]
          rfl
      | none =>
          rw [hfirst, Option.isSome_none] at hblanks
          rw [← hblanks, if_neg Bool.false_ne_true, ← ih, List.map_findSome?]
          simp only [Option.map_none, Function.comp_def, Option.map_map]

theorem shortest?_eq {s : List Char} (hs : s.all isBlank = false) :
    shortest? s = some (trimEnd s) := by
  induction s with
  | nil => cases hs
  | cons c s ih =>
      rw [shortest?]
      cases hrest : s.all isBlank with
      | true =>
          have hc : isBlank c = false := by simpa [hrest] using hs
          have htrim : trimEnd (c :: s) = trimEnd [c] := trimEnd_append_blank hrest [c]
          rw [if_pos rfl, htrim, trimEnd_eq]
          simp [trimStart, hc]
      | false =>
          rw [if_neg Bool.false_ne_true, ih hrest, ← List.singleton_append, trimEnd_append hrest]
          rfl

/-- Blanks are taken off a text before the shortest source is, but for one of them if there is
nothing else. -/
theorem findSome?_shortest? (s : List Char) :
    ((cutsWhile isBlank s).findSome? fun cut => shortest? cut.2)
      = if s.isEmpty then none else if s.all isBlank then s.getLast?.map ([·])
        else some (trim s) := by
  induction s with
  | nil => rfl
  | cons c s ih =>
      rw [List.isEmpty_cons, if_neg Bool.false_ne_true]
      cases hc : isBlank c with
      | true =>
          rw [findSome?_cutsWhile_cons shortest? hc, ih, List.all_cons, hc, Bool.true_and]
          have htrim : trim (c :: s) = trim s := trim_blank_append (w := [c]) (by simp [hc]) s
          rw [htrim]
          cases s with
          | nil => rfl
          | cons d s =>
              rw [List.isEmpty_cons, if_neg Bool.false_ne_true, List.getLast?_cons_cons]
              cases (d :: s).all isBlank <;> simp [List.getLast?_cons]
      | false =>
          have hall : (c :: s).all isBlank = false := by simp [hc]
          rw [cutsWhile, hc, if_neg Bool.false_ne_true, hall, if_neg Bool.false_ne_true, trim,
            trimStart_cons_of_not_blank hc, ← shortest?_eq hall]
          cases hshort : shortest? (c :: s) <;> simp [hshort]

theorem piece?_afterKeyword (s : List Char) :
    Pattern.piece? [.some isBlank, .few fun _ => true, .many isBlank, .endOfText] 1 s
      = source? s := by
  simp only [Pattern.piece?_cons_succ, piece?_source, PatternPart.cuts]
  cases s with
  | nil => rfl
  | cons c s =>
      rw [source?]
      cases hc : isBlank c with
      | false =>
          rw [filter_cutsWhile_cons_of_neg hc]
          rfl
      | true =>
          rw [filter_cutsWhile_cons hc, List.findSome?_map]
          exact findSome?_shortest? s

theorem afterKeyword?_blank {b : Char} (hb : isBlank b = true) (s : List Char) :
    afterKeyword? (b :: s) = none := by
  rw [Option.eq_none_iff_forall_ne_some]
  intro rest hrest
  obtain ⟨word, hword, hs⟩ := afterKeyword?_eq_some_iff.1 hrest
  obtain ⟨x, y, rfl, hx, -⟩ := hword.exists_pair
  rw [← (List.cons.inj hs).1, hb] at hx
  cases hx

theorem piece?_keyword (s : List Char) :
    Pattern.piece? [.word ["in".toList, "of".toList], .some isBlank, .few fun _ => true,
      .many isBlank, .endOfText] 2 s = sourceAfterKeyword? s := by
  rw [Pattern.piece?_cons_succ, sourceAfterKeyword?, afterKeyword?]
  simp only [piece?_afterKeyword, PatternPart.cuts, List.filterMap_cons, List.filterMap_nil]
  cases hin : afterPrefix? "in".toList s with
  | none =>
      cases hof : afterPrefix? "of".toList s with
      | none => rfl
      | some rest => cases hsource : source? rest <;> simp [hsource]
  | some rest =>
      -- a text does not begin with both words
      have hof : afterPrefix? "of".toList s = none := by
        rw [eq_append_of_afterPrefix? hin]
        rfl
      rw [hof]
      cases hsource : source? rest <;> simp [hsource]

/-- The source of a loop whose alias ends before `s`. -/
def sourceAfterBlanks? (s : List Char) : Option (List Char) :=
  if s.head?.any isBlank then sourceAfterKeyword? (trimStart s) else none

/-- Only after all blanks can there be a keyword. -/
theorem findSome?_sourceAfterKeyword? (s : List Char) :
    ((cutsWhile isBlank s).findSome? fun cut => sourceAfterKeyword? cut.2)
      = sourceAfterKeyword? (trimStart s) := by
  induction s with
  | nil => rfl
  | cons c s ih =>
      cases hc : isBlank c with
      | true =>
          have hnone : sourceAfterKeyword? (c :: s) = none := by
            rw [sourceAfterKeyword?, afterKeyword?_blank hc]
            rfl
          rw [findSome?_cutsWhile_cons sourceAfterKeyword? hc, ih, hnone, Option.or_none,
            ← trimStart_blank_append (w := [c]) (by simp [hc]) s, List.singleton_append]
      | false =>
          rw [cutsWhile, hc, if_neg Bool.false_ne_true, trimStart_cons_of_not_blank hc]
          cases hsource : sourceAfterKeyword? (c :: s) <;> simp [hsource]

theorem piece?_afterAlias (s : List Char) :
    Pattern.piece? [.some isBlank, .word ["in".toList, "of".toList], .some isBlank,
      .few fun _ => true, .many isBlank, .endOfText] 3 s = sourceAfterBlanks? s := by
  rw [Pattern.piece?_cons_succ]
  simp only [piece?_keyword, PatternPart.cuts]
  cases s with
  | nil => rfl
  | cons c s =>
      rw [sourceAfterBlanks?, List.head?_cons, Option.any_some]
      cases hc : isBlank c with
      | false =>
          rw [filter_cutsWhile_cons_of_neg hc]
          rfl
      | true =>
          rw [filter_cutsWhile_cons hc, List.findSome?_map, if_pos rfl,
            ← List.singleton_append, trimStart_blank_append (w := [c]) (by simp [hc])]
          exact findSome?_sourceAfterKeyword? s

/-- The shortest alias, which may have blanks at its ends, and the source after it. -/
def shortestAlias? : List Char → Option (List Char × List Char)
  | [] => none
  | c :: s =>
    ((sourceAfterBlanks? s).map fun source => ([c], source)).or
      ((shortestAlias? s).map fun (name, source) => (c :: name, source))

theorem first?_alias (s : List Char) :
    (Pattern.first? [.few fun _ => true, .some isBlank, .word ["in".toList, "of".toList],
        .some isBlank, .few fun _ => true, .many isBlank, .endOfText] s).map
          (fun pieces => (pieces.getD 0 [], pieces.getD 4 []))
      = shortestAlias? s := by
  rw [Pattern.first?_cons, List.map_findSome?]
  simp only [Function.comp_def, Option.map_map, List.getD_cons_zero, List.getD_cons_succ]
  induction s with
  | nil => rfl
  | cons c s ih =>
      rw [cuts_few_cons, List.findSome?_cons, shortestAlias?, List.findSome?_map, ← ih,
        ← piece?_afterAlias, Pattern.piece?, List.map_findSome?, Option.map_map]
      cases Pattern.first? _ s with
      | some pieces => rfl
      | none => simp only [Option.map_none, Option.none_or, Function.comp_def, Option.map_map]

/-- Where no keyword follows the blanks at the beginning, the shortest alias ends in a character
that is not blank. -/
theorem shortestAlias?_eq {s : List Char} (h : sourceAfterBlanks? s = none) :
    shortestAlias? s = splitAlias? s := by
  induction s with
  | nil => rfl
  | cons c s ih =>
      rw [shortestAlias?, splitAlias?, sourceAfter?]
      cases hc : isBlank c with
      | false =>
          cases hsource : sourceAfterBlanks? s with
          | none =>
              rw [ih hsource]
              rw [sourceAfterBlanks?] at hsource
              simp [hsource]
          | some source =>
              rw [sourceAfterBlanks?] at hsource
              simp [hsource]
      | true =>
          -- the blanks that are left have no keyword after them either
          have hnone : sourceAfterBlanks? s = none := by
            rw [sourceAfterBlanks?, List.head?_cons, Option.any_some, hc, if_pos rfl,
              ← List.singleton_append, trimStart_blank_append (w := [c]) (by simp [hc])] at h
            rw [sourceAfterBlanks?, h, ite_self]
          rw [hnone, ih hnone]
          simp

theorem splitAlias?_eq_none_of_trimStart {s : List Char} (h : splitAlias? (trimStart s) = none) :
    splitAlias? s = none := by
  induction s with
  | nil => rfl
  | cons c s ih =>
      cases hc : isBlank c with
      | false => rwa [trimStart_cons_of_not_blank hc] at h
      | true =>
          rw [← List.singleton_append, trimStart_blank_append (w := [c]) (by simp [hc])] at h
          rw [splitAlias?, sourceAfter?, ih h, hc]
          rfl

/-- If no alias after the blanks does, the last blank but one is the alias. -/
theorem findSome?_shortestAlias? (s : List Char) :
    ((cutsWhile isBlank s).findSome? fun cut => shortestAlias? cut.2) = split? s := by
  induction s with
  | nil => rfl
  | cons c s ih =>
      cases hc : isBlank c with
      | false =>
          have hsource : sourceAfterBlanks? (c :: s) = none := by simp [sourceAfterBlanks?, hc]
          rw [cutsWhile, hc, if_neg Bool.false_ne_true, split?, trimStart_cons_of_not_blank hc,
            ← shortestAlias?_eq hsource, List.takeWhile_cons_of_neg (by simp [hc])]
          cases hshort : shortestAlias? (c :: s) <;> simp [hshort]
      | true =>
          have htrim : trimStart (c :: s) = trimStart s :=
            trimStart_blank_append (w := [c]) (by simp [hc]) s
          rw [findSome?_cutsWhile_cons shortestAlias? hc, ih, split?, split?, htrim,
            List.takeWhile_cons_of_pos hc, List.reverse_cons, shortestAlias?]
          cases hsplit : splitAlias? (trimStart s) with
          | some parts => rfl
          | none =>
              have hnone := splitAlias?_eq_none_of_trimStart hsplit
              have hhead : s.head?.any isBlank = !(s.takeWhile isBlank).reverse.isEmpty := by
                cases s with
                | nil => rfl
                | cons d s => cases hd : isBlank d <;> simp [hd]
              cases hsource : sourceAfterBlanks? s with
              | none =>
                  rw [shortestAlias?_eq hsource, hnone]
                  rw [sourceAfterBlanks?, hhead] at hsource
                  rcases hblanks : (s.takeWhile isBlank).reverse with _ | ⟨b, _ | ⟨b', blanks⟩⟩ <;>
                    simp_all
              | some source =>
                  rw [sourceAfterBlanks?, hhead] at hsource
                  rcases hblanks : (s.takeWhile isBlank).reverse with _ | ⟨b, _ | ⟨b', blanks⟩⟩ <;>
                    simp_all

/-- **A loop is split as its pattern says**: of all ways to tell an alias and a source apart, the
first one in the order of preference. -/
theorem split?_eq_first? (s : List Char) :
    split? s = (loopPattern.first? s).map fun pieces => (pieces.getD 1 [], pieces.getD 5 []) := by
  rw [← findSome?_shortestAlias?, loopPattern, Pattern.first?_cons, List.map_findSome?]
  simp only [← first?_alias, Function.comp_def, Option.map_map, List.getD_cons_succ,
    PatternPart.cuts]

end Loop

/-! ## Template syntax -/

theorem closesInterpolation_iff {s : List Char} :
    closesInterpolation s = true ↔
      ∃ inner rest, s = inner ++ ['\x7d', '\x7d'] ++ rest ∧ inner.all (· != '\x7d') = true := by
  induction s with
  | nil => simp [closesInterpolation]
  | cons c s ih =>
      rw [closesInterpolation]
      by_cases hc : c = '\x7d'
      · subst hc
        rw [if_pos rfl, decide_eq_true_iff, List.head?_eq_some_iff]
        constructor
        · rintro ⟨rest, rfl⟩
          exact ⟨[], rest, rfl, rfl⟩
        · rintro ⟨- | ⟨d, inner⟩, rest, hs, hinner⟩
          · exact ⟨rest, (List.cons.inj hs).2⟩
          · rw [← (List.cons.inj hs).1] at hinner
            cases hinner
      · rw [if_neg hc, ih]
        constructor
        · rintro ⟨inner, rest, rfl, hinner⟩
          exact ⟨c :: inner, rest, rfl, by simp [hc, hinner]⟩
        · rintro ⟨- | ⟨d, inner⟩, rest, hs, hinner⟩
          · exact absurd (List.cons.inj hs).1 hc
          · exact ⟨inner, rest, (List.cons.inj hs).2, (Bool.and_eq_true_iff.1 hinner).2⟩

theorem showsInterpolationHere_iff {s : List Char} :
    showsInterpolationHere s = true ↔ ∃ inner rest,
      s = ['\x7b', '\x7b'] ++ inner ++ ['\x7d', '\x7d'] ++ rest ∧ inner ≠ [] ∧
        inner.all (· != '\x7d') = true := by
  constructor
  · intro h
    unfold showsInterpolationHere at h
    split at h
    · rename_i c s
      obtain ⟨hc, hcloses⟩ := Bool.and_eq_true_iff.1 h
      obtain ⟨inner, rest, rfl, hinner⟩ := closesInterpolation_iff.1 hcloses
      exact ⟨c :: inner, rest, rfl, List.cons_ne_nil c inner, Bool.and_eq_true_iff.2 ⟨hc, hinner⟩⟩
    · cases h
  · rintro ⟨- | ⟨c, inner⟩, rest, rfl, hne, hinner⟩
    · exact absurd rfl hne
    · obtain ⟨hc, hinner⟩ := Bool.and_eq_true_iff.1 hinner
      show showsInterpolationHere
        ('\x7b' :: '\x7b' :: c :: (inner ++ ['\x7d', '\x7d'] ++ rest)) = true
      rw [showsInterpolationHere_braces]
      exact Bool.and_eq_true_iff.2 ⟨hc, closesInterpolation_iff.2 ⟨inner, rest, rfl, hinner⟩⟩

theorem mem_cuts_word_singleton {w s piece rest : List Char} :
    (piece, rest) ∈ (PatternPart.word [w]).cuts s ↔ piece = w ∧ s = w ++ rest := by
  rw [PatternPart.cuts, List.mem_filterMap]
  constructor
  · rintro ⟨word, hword, hcut⟩
    obtain ⟨_, hrest, heq⟩ := Option.map_eq_some_iff.1 hcut
    obtain ⟨rfl, rfl⟩ := Prod.mk.inj heq
    rw [List.mem_singleton.1 hword] at hrest ⊢
    exact ⟨rfl, eq_append_of_afterPrefix? hrest⟩
  · rintro ⟨rfl, rfl⟩
    exact ⟨piece, List.mem_singleton_self piece, by rw [afterPrefix?_append, Option.map_some]⟩

theorem isSome_first?_interpolation (s : List Char) :
    (interpolationPattern.first? s).isSome = showsInterpolationHere s := by
  rw [Bool.eq_iff_iff, showsInterpolationHere_iff]
  simp only [interpolationPattern, Pattern.isSome_first?_cons, List.any_eq_true]
  have hblanks : ∀ w : List Char, w.all isBlank = true → w.all (· != '\x7d') = true := by
    intro w hw
    rw [List.all_eq_true]
    rintro c hc
    rw [bne_iff_ne]
    rintro rfl
    exact notMem_of_blank hw (by decide) hc
  constructor
  · rintro ⟨⟨_, s₁⟩, hopen, ⟨before, s₂⟩, hcut₁, ⟨inner, s₃⟩, hcut₂, ⟨after, s₄⟩, hcut₃,
      ⟨_, rest⟩, hclose, -⟩
    obtain ⟨rfl, rfl⟩ := mem_cuts_word_singleton.1 hopen
    obtain ⟨rfl, rfl⟩ := mem_cuts_word_singleton.1 hclose
    obtain ⟨hcut₂, hne⟩ := List.mem_filter.1 (List.mem_reverse.1 hcut₂)
    obtain ⟨rfl, hbefore⟩ := mem_cutsWhile_iff.1 hcut₁
    obtain ⟨rfl, hinner⟩ := mem_cutsWhile_iff.1 hcut₂
    obtain ⟨rfl, hafter⟩ := mem_cutsWhile_iff.1 hcut₃
    refine ⟨before ++ inner ++ after, rest, by simp, ?_, ?_⟩
    · rintro hnil
      rw [(List.append_eq_nil_iff.1 (List.append_eq_nil_iff.1 hnil).1).2] at hne
      cases hne
    · simp only [List.all_append, hblanks before hbefore, hinner, hblanks after hafter,
        Bool.and_self]
  · -- the blanks can be left to the characters in between
    rintro ⟨inner, rest, rfl, hne, hinner⟩
    refine ⟨(['\x7b', '\x7b'], _), mem_cuts_word_singleton.2 ⟨rfl, List.append_assoc ..⟩,
      ([], _), mem_cutsWhile_iff.2 ⟨rfl, rfl⟩,
      (inner, _), List.mem_reverse.2 (List.mem_filter.2 ⟨mem_cutsWhile_iff.2 ⟨rfl, hinner⟩, ?_⟩),
      ([], _), mem_cutsWhile_iff.2 ⟨rfl, rfl⟩,
      (['\x7d', '\x7d'], rest), mem_cuts_word_singleton.2 ⟨rfl, rfl⟩, rfl⟩
    simpa using hne

theorem isSome_first?_directive (s : List Char) :
    (directivePattern.first? s).isSome = showsDirective s := by
  have hend : ∀ t, (Pattern.first? [.endOfWord] t).isSome = endsWord t := by
    intro t
    cases hword : endsWord t <;> simp [Pattern.first?, Pattern.ways, PatternPart.cuts, hword]
  have hname : ∀ t, (Pattern.first? [.word detectedDirectives, .endOfWord] t).isSome
      = detectedDirectives.any fun name => (afterPrefix? name t).any endsWord := by
    intro t
    rw [Pattern.isSome_first?_cons, PatternPart.cuts, List.any_filterMap]
    simp only [hend]
    congr 1
    funext name
    cases afterPrefix? name t <;> rfl
  cases s with
  | nil => rfl
  | cons c s =>
      rw [directivePattern, showsDirective, Pattern.isSome_first?_one_cons,
        Pattern.isSome_first?_cons]
      simp only [hname]
      cases hv : afterPrefix? ['v', '-'] s <;> simp [PatternPart.cuts, hv]

theorem isSome_first?_shorthand (s : List Char) :
    (shorthandPattern.first? s).isSome = showsShorthand s := by
  rw [shorthandPattern]
  match s with
  | [] => rfl
  | [a] | [a, b] | a :: b :: c :: s =>
      simp only [Pattern.isSome_first?_one_cons, showsShorthand, Bool.and_assoc]
      simp [Pattern.first?, Pattern.ways, PatternPart.cuts]

/-- **A template is converted as the patterns say**: if one of them has a match at some place of
it. -/
theorem needsConversion_iff_patterns {body : List Char} :
    needsConversion body = true ↔
      ∃ rest, rest <:+ body ∧ ∃ pattern ∈ [interpolationPattern, directivePattern, shorthandPattern],
        (pattern.first? rest).isSome = true := by
  rw [needsConversion_iff]
  refine exists_congr fun rest => and_congr_right fun _ => ?_
  simp only [showsSyntax, Bool.or_eq_true, or_assoc, List.mem_cons, List.not_mem_nil, or_false,
    exists_eq_or_imp, exists_eq_left, isSome_first?_interpolation, isSome_first?_directive,
    isSome_first?_shorthand]

end AstroTemplate
