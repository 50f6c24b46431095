import AstroTemplate.Astro.Generate
import AstroTemplate.Lint.Meaning
import AstroTemplate.Markup.Template
import Mathlib.Data.List.TakeWhile

set_option autoImplicit false

/-! # Where a loop is split

An expression is separated by a keyword with blanks on both sides (`Loop.Separates`). Of several
such keywords the first one counts that stands after a word: what is before it is the alias, and no
keyword stands in the alias as a word of its own (`Loop.splitAlias?_eq_some_iff`).

A text without an alias or without a source should not be taken for a loop. It is one nevertheless
if there are blanks enough to stand in for what is missing (`Loop.isSome_split?_iff`). Such blanks
are at the edges of the expression, so it matters whether an expression is trimmed before it is read
(`Loop.read_trim_iff`).
-/

namespace AstroTemplate

/-! ## Blanks at the edges of a text -/

section

variable {s t w : List Char}

theorem notMem_of_blank {c : Char} (hs : s.all isBlank = true) (hc : isBlank c = false) :
    c ∉ s := by
  intro hmem
  rw [List.all_eq_true.1 hs c hmem] at hc
  cases hc

theorem trimStart_eq_nil_iff : trimStart s = [] ↔ s.all isBlank = true := by
  rw [trimStart, List.dropWhile_eq_nil_iff, List.all_eq_true]

theorem trimStart_blank_append (hw : w.all isBlank = true) (s : List Char) :
    trimStart (w ++ s) = trimStart s :=
  List.dropWhile_append_of_pos (List.all_eq_true.1 hw)

theorem trimStart_append (hs : s.all isBlank = false) (t : List Char) :
    trimStart (s ++ t) = trimStart s ++ t := by
  have hne : ¬ (s.dropWhile isBlank).isEmpty = true := by
    rw [List.isEmpty_iff]
    intro hnil
    rw [trimStart_eq_nil_iff.1 hnil] at hs
    cases hs
  rw [trimStart, List.dropWhile_append, if_neg hne, trimStart]

theorem trimStart_cons_of_not_blank {c : Char} (hc : isBlank c = false) (s : List Char) :
    trimStart (c :: s) = c :: s :=
  List.dropWhile_cons_of_neg (by simp [hc])

theorem trimStart_append_cons {c : Char} (hc : isBlank c = false) (s t : List Char) :
    trimStart (s ++ c :: t) = trimStart s ++ c :: t := by
  by_cases hs : s.all isBlank = true
  · rw [trimStart_blank_append hs, trimStart_cons_of_not_blank hc, trimStart_eq_nil_iff.2 hs,
      List.nil_append]
  · exact trimStart_append (by simpa using hs) _

theorem trimEnd_eq (s : List Char) : trimEnd s = (trimStart s.reverse).reverse := rfl

theorem trimEnd_append_blank (hw : w.all isBlank = true) (s : List Char) :
    trimEnd (s ++ w) = trimEnd s := by
  have hreverse : w.reverse.all isBlank = true := by rwa [List.all_reverse]
  rw [trimEnd_eq, List.reverse_append, trimStart_blank_append hreverse, ← trimEnd_eq]

theorem trimEnd_append (hs : s.all isBlank = false) (t : List Char) :
    trimEnd (t ++ s) = t ++ trimEnd s := by
  have hreverse : s.reverse.all isBlank = false := by rwa [List.all_reverse]
  rw [trimEnd_eq, List.reverse_append, trimStart_append hreverse, List.reverse_append,
    List.reverse_reverse, ← trimEnd_eq]

theorem trim_blank_append (hw : w.all isBlank = true) (s : List Char) : trim (w ++ s) = trim s := by
  rw [trim, trimStart_blank_append hw, trim]

theorem trim_eq_nil_iff : trim s = [] ↔ s.all isBlank = true := by
  constructor
  · intro h
    obtain ⟨right, hs, hright⟩ := exists_eq_append_trim s
    rw [hs, h, List.nil_append, List.all_append, List.all_takeWhile, hright]
    rfl
  · intro h
    rw [trim, trimStart_eq_nil_iff.2 h]
    rfl

/-- Blanks at the end do not survive trimming. -/
theorem trim_append_blanks (hw : w.all isBlank = true) (s : List Char) :
    trim (s ++ w) = trim s := by
  by_cases hs : s.all isBlank = true
  · have hall : (s ++ w).all isBlank = true := by
      rw [List.all_append, hs, hw]
      rfl
    rw [trim_eq_nil_iff.2 hs, trim_eq_nil_iff.2 hall]
  · rw [trim, trimStart_append (by simpa using hs), trimEnd_append_blank hw, trim]

theorem trim_trim (s : List Char) : trim (trim s) = trim s := by
  obtain ⟨right, hs, hright⟩ := exists_eq_append_trim s
  calc trim (trim s) = trim (trim s ++ right) := (trim_append_blanks hright _).symm
    _ = trim (s.takeWhile isBlank ++ (trim s ++ right)) :=
        (trim_blank_append List.all_takeWhile _).symm
    _ = trim s := by rw [← hs]

theorem length_trim_le (s : List Char) : (trim s).length ≤ s.length := by
  obtain ⟨right, hs, -⟩ := exists_eq_append_trim s
  have hlength := congrArg List.length hs
  simp only [List.length_append] at hlength
  omega

/-- A text that is trimmed already begins and ends with a character that is not blank. -/
theorem ends_of_trim_eq (hs : trim s = s) (hne : s ≠ []) :
    (∃ c t, s = c :: t ∧ isBlank c = false) ∧ ∃ t c, s = t ++ [c] ∧ isBlank c = false := by
  constructor
  · obtain ⟨c, t, rfl⟩ := List.exists_cons_of_ne_nil hne
    refine ⟨c, t, rfl, Bool.eq_false_iff.2 fun hc => ?_⟩
    have htrim : trim (c :: t) = trim t := trim_blank_append (w := [c]) (by simp [hc]) t
    have hle := length_trim_le t
    rw [← htrim, hs, List.length_cons] at hle
    omega
  · obtain ⟨t, c, rfl⟩ : ∃ t c, s = t ++ [c] := ⟨_, _, (List.dropLast_concat_getLast hne).symm⟩
    refine ⟨t, c, rfl, Bool.eq_false_iff.2 fun hc => ?_⟩
    have hle := length_trim_le t
    rw [← trim_append_blank t hc, hs, List.length_append, List.length_singleton] at hle
    omega

end

/-- Blanks, and at least one of them. -/
structure IsGap (w : List Char) : Prop where
  ne_nil : w ≠ []
  blank : w.all isBlank = true

theorem IsGap.exists_cons {w : List Char} (h : IsGap w) :
    ∃ b t, w = b :: t ∧ isBlank b = true := by
  obtain ⟨hne, hblank⟩ := h
  cases w with
  | nil => exact absurd rfl hne
  | cons b t => exact ⟨b, t, rfl, (List.all_cons.symm.trans hblank |> Bool.and_eq_true_iff.1).1⟩

theorem IsGap.blank_append {v w : List Char} (h : IsGap w) (hv : v.all isBlank = true) :
    IsGap (v ++ w) := by
  refine ⟨fun hnil => h.ne_nil (List.append_eq_nil_iff.1 hnil).2, ?_⟩
  rw [List.all_append, hv, h.blank]
  rfl

namespace Loop

/-! ## Keywords between blanks -/

def IsKeyword (word : List Char) : Prop := word = "in".toList ∨ word = "of".toList

instance instDecidableIsKeyword (word : List Char) : Decidable (IsKeyword word) :=
  inferInstanceAs (Decidable (word = "in".toList ∨ word = "of".toList))

/-- A keyword is two characters, and neither is blank. -/
theorem IsKeyword.exists_pair {word : List Char} (h : IsKeyword word) :
    ∃ x y, word = [x, y] ∧ isBlank x = false ∧ isBlank y = false := by
  rcases h with rfl | rfl
  · exact ⟨'i', 'n', rfl, rfl, rfl⟩
  · exact ⟨'o', 'f', rfl, rfl, rfl⟩

/-- Blanks and a keyword are in front of `rest` in the text `s`. -/
def KeywordAhead (s rest : List Char) : Prop :=
  ∃ gap word, s = gap ++ (word ++ rest) ∧ IsGap gap ∧ IsKeyword word

theorem KeywordAhead.append {s rest : List Char} (h : KeywordAhead s rest) (t : List Char) :
    KeywordAhead (s ++ t) (rest ++ t) := by
  obtain ⟨gap, word, rfl, hgap, hword⟩ := h
  exact ⟨gap, word, by simp, hgap, hword⟩

theorem KeywordAhead.blank_append {s rest w : List Char} (h : KeywordAhead s rest)
    (hw : w.all isBlank = true) : KeywordAhead (w ++ s) rest := by
  obtain ⟨gap, word, rfl, hgap, hword⟩ := h
  exact ⟨w ++ gap, word, by simp, hgap.blank_append hw, hword⟩

theorem afterKeyword?_eq_some_iff {s rest : List Char} :
    afterKeyword? s = some rest ↔ ∃ word, IsKeyword word ∧ s = word ++ rest := by
  constructor
  · intro h
    rw [afterKeyword?, Option.or_eq_some_iff] at h
    rcases h with h | ⟨-, h⟩
    · exact ⟨_, .inl rfl, eq_append_of_afterPrefix? h⟩
    · exact ⟨_, .inr rfl, eq_append_of_afterPrefix? h⟩
  · rintro ⟨word, rfl | rfl, rfl⟩
    · rw [afterKeyword?, afterPrefix?_append, Option.some_or]
    · rfl

/-- What is read after a keyword, a blank and something more. -/
theorem source?_cons {b : Char} {t : List Char} (hb : isBlank b = true) (ht : t ≠ []) :
    source? (b :: t) = if t.all isBlank then t.getLast?.map ([·]) else some (trim t) := by
  have hmore : ¬ (!isBlank b || t.isEmpty) = true := by simp [hb, ht]
  rw [source?, if_neg hmore]

/-- After a keyword there is a source if a blank comes next, and then something more. -/
theorem isSome_source?_iff {rest : List Char} :
    (source? rest).isSome = true ↔ ∃ b t, rest = b :: t ∧ isBlank b = true ∧ t ≠ [] := by
  constructor
  · intro h
    cases rest with
    | nil => cases h
    | cons b t =>
        by_cases hmore : (!isBlank b || t.isEmpty) = true
        · rw [source?, if_pos hmore] at h
          cases h
        · exact ⟨b, t, rfl, by simpa using hmore⟩
  · rintro ⟨b, t, rfl, hb, ht⟩
    rw [source?_cons hb ht]
    split
    · simpa using ht
    · rfl

theorem exists_cons_of_source? {rest source : List Char} (h : source? rest = some source) :
    ∃ b t, rest = b :: t ∧ isBlank b = true ∧ t ≠ [] := by
  rw [← isSome_source?_iff, h, Option.isSome_some]

/-- The source is what follows the keyword, up to blanks. -/
theorem trim_of_source? {rest source : List Char} (h : source? rest = some source) :
    trim source = trim rest := by
  obtain ⟨b, t, rfl, hb, ht⟩ := exists_cons_of_source? h
  have hrest : trim (b :: t) = trim t := trim_blank_append (w := [b]) (by simp [hb]) t
  rw [source?_cons hb ht] at h
  split at h
  · -- a blank stands in for the source
    rename_i hall
    obtain ⟨last, hlast, rfl⟩ := Option.map_eq_some_iff.1 h
    have hblank := List.all_eq_true.1 hall last (List.mem_of_getLast? hlast)
    rw [hrest, trim_eq_nil_iff.2 hall, trim_eq_nil_iff]
    simp [hblank]
  · obtain rfl := Option.some.inj h
    rw [hrest, trim_trim]

/-! ## The first keyword -/

theorem sourceAfter?_eq_some_iff {c : Char} {s source : List Char} :
    sourceAfter? c s = some source ↔
      isBlank c = false ∧ ∃ rest, KeywordAhead s rest ∧ source? rest = some source := by
  constructor
  · intro h
    rw [sourceAfter?] at h
    split at h
    · rename_i hplace
      obtain ⟨hc, hs⟩ := Bool.and_eq_true_iff.1 hplace
      obtain ⟨rest, hrest, hsource⟩ := Option.bind_eq_some_iff.1 h
      obtain ⟨word, hword, hahead⟩ := afterKeyword?_eq_some_iff.1 hrest
      refine ⟨by simpa using hc, rest, ⟨s.takeWhile isBlank, word, ?_, ?_, hword⟩, hsource⟩
      · rw [← hahead, trimStart, List.takeWhile_append_dropWhile]
      · refine ⟨fun hnil => ?_, List.all_takeWhile⟩
        cases s with
        | nil => cases hs
        | cons b s =>
            rw [List.takeWhile_cons_of_pos (by simpa using hs)] at hnil
            cases hnil
    · cases h
  · rintro ⟨hc, rest, ⟨gap, word, rfl, hgap, hword⟩, hsource⟩
    obtain ⟨x, y, rfl, hx, -⟩ := hword.exists_pair
    obtain ⟨b, t, rfl, hb⟩ := hgap.exists_cons
    have hplace : (!isBlank c && ((b :: t) ++ ([x, y] ++ rest)).head?.any isBlank) = true := by
      simp [hc, hb]
    have hahead : afterKeyword? ([x, y] ++ rest) = some rest :=
      afterKeyword?_eq_some_iff.2 ⟨_, hword, rfl⟩
    rw [sourceAfter?, if_pos hplace, trimStart_blank_append hgap.blank, List.cons_append,
      trimStart_cons_of_not_blank hx, sourceAfterKeyword?, ← List.cons_append, hahead,
      Option.bind_some, hsource]

/-- After another word, a keyword stands in the text as a word of its own. -/
def HasKeyword (a : List Char) : Prop :=
  ∃ before c s after, a = before ++ c :: s ∧ isBlank c = false ∧ KeywordAhead s after ∧
    after.head?.all isBlank = true

theorem HasKeyword.cons {a : List Char} (h : HasKeyword a) (c : Char) : HasKeyword (c :: a) := by
  obtain ⟨before, d, s, after, rfl, hrest⟩ := h
  exact ⟨c :: before, d, s, after, rfl, hrest⟩

/-- One character is no room for a keyword after a word. -/
theorem not_hasKeyword_singleton (c : Char) : ¬ HasKeyword [c] := by
  rintro ⟨before, d, s, after, ha, -, ⟨gap, word, rfl, hgap, -⟩, -⟩
  have hlength := congrArg List.length ha
  have hpos := List.length_pos_iff.2 hgap.ne_nil
  simp only [List.length_append, List.length_cons, List.length_nil] at hlength
  omega

/-- A keyword that stands in a text and what follows it stands in the text alone, if there is a
blank after the text and after the keyword. -/
theorem KeywordAhead.inside {s t rest : List Char} {c b : Char}
    (h : KeywordAhead (s ++ c :: b :: t) rest) (hc : isBlank c = false) (hb : isBlank b = true)
    (hrest : rest.head?.any isBlank = true) :
    ∃ after, KeywordAhead (s ++ [c]) after ∧ after.head?.all isBlank = true := by
  obtain ⟨gap, word, heq, hgap, hword⟩ := h
  have hc' : c ∉ gap := notMem_of_blank hgap.blank hc
  obtain ⟨x, y, rfl, -, hy⟩ := hword.exists_pair
  rw [← List.singleton_append, ← List.append_assoc] at heq
  -- the gap ends before `c`, and the keyword before `b`
  rcases List.append_eq_append_iff.1 heq with ⟨u, rfl, -⟩ | ⟨u, hs, hu⟩
  · simp at hc'
  · rcases List.append_eq_append_iff.1 hu with ⟨v, rfl, rfl⟩ | ⟨v, hv, hbv⟩
    · refine ⟨v, ⟨gap, [x, y], hs, hgap, hword⟩, ?_⟩
      cases v with
      | nil => rfl
      | cons d v => simpa using hrest
    · rcases u with - | ⟨x', - | ⟨y', u⟩⟩
      · rw [List.append_nil] at hs
        simp [← hs] at hc'
      · obtain ⟨-, rfl⟩ := List.cons.inj hv
        obtain ⟨rfl, -⟩ := List.cons.inj hbv
        rw [hb] at hy
        cases hy
      · obtain ⟨rfl, rfl, rfl, -⟩ : x = x' ∧ y = y' ∧ u = [] ∧ v = [] := by simpa using hv
        exact ⟨[], ⟨gap, [x, y], hs, hgap, hword⟩, rfl⟩

/-- Where a keyword is ahead, and only a blank may come before that, there is a source. -/
theorem isSome_source?_append {after t rest : List Char} (hafter : after.head?.all isBlank = true)
    (ht : KeywordAhead t rest) : (source? (after ++ t)).isSome = true := by
  obtain ⟨gap, word, rfl, hgap, hword⟩ := ht
  obtain ⟨b, gap, rfl, hb⟩ := hgap.exists_cons
  obtain ⟨x, y, rfl, -, -⟩ := hword.exists_pair
  rw [isSome_source?_iff]
  cases after with
  | nil => exact ⟨b, _, rfl, hb, by simp⟩
  | cons d after => exact ⟨d, _, rfl, by simpa using hafter, by simp⟩

/-- The alias reaches up to the first keyword that stands after a word, with a source behind it. -/
theorem splitAlias?_eq_some_iff {s a source : List Char} :
    splitAlias? s = some (a, source) ↔
      ¬ HasKeyword a ∧ ∃ before c t rest, a = before ++ [c] ∧ s = before ++ c :: t ∧
        isBlank c = false ∧ KeywordAhead t rest ∧ source? rest = some source := by
  constructor
  · intro h
    induction s generalizing a with
    | nil => cases h
    | cons c s ih =>
        rw [splitAlias?, Option.or_eq_some_iff] at h
        rcases h with h | ⟨hnone, h⟩
        · obtain ⟨_, hsource, heq⟩ := Option.map_eq_some_iff.1 h
          obtain ⟨rfl, rfl⟩ := Prod.mk.inj heq
          obtain ⟨hc, rest, hrest⟩ := sourceAfter?_eq_some_iff.1 hsource
          exact ⟨not_hasKeyword_singleton c, [], c, s, rest, rfl, rfl, hc, hrest⟩
        · obtain ⟨⟨a, _⟩, hsource, heq⟩ := Option.map_eq_some_iff.1 h
          obtain ⟨rfl, rfl⟩ := Prod.mk.inj heq
          obtain ⟨hfirst, before, d, t, rest, rfl, rfl, hd, hahead, hrest⟩ := ih hsource
          refine ⟨?_, c :: before, d, t, rest, rfl, rfl, hd, hahead, hrest⟩
          -- a keyword right after `c` would have ended the alias there
          rintro ⟨before', c', u, after, heq, hc', hin, hafter⟩
          cases before' with
          | cons e before' =>
              exact hfirst ⟨before', c', u, after, (List.cons.inj heq).2, hc', hin, hafter⟩
          | nil =>
              obtain ⟨rfl, rfl⟩ := List.cons.inj heq
              have hsome := isSome_source?_append hafter hahead
              obtain ⟨source', hsource'⟩ := Option.isSome_iff_exists.1 hsome
              have hhere : sourceAfter? c (before ++ d :: t) = some source' := by
                refine sourceAfter?_eq_some_iff.2 ⟨hc', after ++ t, ?_, hsource'⟩
                simpa using hin.append t
              rw [hhere] at hnone
              cases hnone
  · rintro ⟨hfirst, before, c, t, rest, rfl, rfl, hc, hahead, hrest⟩
    -- the search goes on past each character before `c`, or a keyword would be in the alias
    induction before with
    | nil =>
        have hhere := sourceAfter?_eq_some_iff.2 ⟨hc, rest, hahead, hrest⟩
        rw [List.nil_append, splitAlias?, hhere]
        rfl
    | cons d before ih =>
        have hnone : sourceAfter? d (before ++ c :: t) = none := by
          rw [Option.eq_none_iff_forall_ne_some]
          intro source' hsource'
          obtain ⟨hd, rest', hahead', hrest'⟩ := sourceAfter?_eq_some_iff.1 hsource'
          obtain ⟨gap, word, rfl, hgap, hword⟩ := hahead
          obtain ⟨b, gap, rfl, hb⟩ := hgap.exists_cons
          obtain ⟨b', t', rfl, hb', -⟩ := exists_cons_of_source? hrest'
          obtain ⟨after, hin, hafter⟩ := hahead'.inside hc hb (by simpa using hb')
          exact hfirst ⟨[], d, before ++ [c], after, rfl, hd, hin, hafter⟩
        rw [List.cons_append, splitAlias?, hnone, ih fun h => hfirst (h.cons d)]
        rfl

/-- If a source follows some alias, then an alias is found. -/
theorem isSome_splitAlias? {before t rest : List Char} {c : Char} (hc : isBlank c = false)
    (hahead : KeywordAhead t rest) (hrest : (source? rest).isSome = true) :
    (splitAlias? (before ++ c :: t)).isSome = true := by
  induction before with
  | nil =>
      obtain ⟨source, hsource⟩ := Option.isSome_iff_exists.1 hrest
      have hhere := sourceAfter?_eq_some_iff.2 ⟨hc, rest, hahead, hsource⟩
      rw [List.nil_append, splitAlias?, hhere]
      rfl
  | cons d before ih =>
      rw [List.cons_append, splitAlias?, Option.isSome_or, Option.isSome_map, Option.isSome_map, ih,
        Bool.or_true]

/-! ## Separated expressions -/

/-- The text `e` is `aliases` and `source`, with a keyword between them that has blanks on both
sides. -/
def Separates (e aliases source : List Char) : Prop :=
  ∃ left word right, e = aliases ++ (left ++ (word ++ (right ++ source))) ∧ IsGap left ∧
    IsKeyword word ∧ IsGap right

/-- Something is on both sides of a keyword and the blanks around it, if only more blanks. -/
def IsSeparated (e : List Char) : Prop :=
  ∃ aliases source, Separates e aliases source ∧ aliases ≠ [] ∧ source ≠ []

/-- The form of a loop: an alias and a source are on the two sides of a keyword. -/
def HasForm (e : List Char) : Prop :=
  ∃ aliases source, Separates e aliases source ∧ trim aliases ≠ [] ∧ trim source ≠ []

/-- Nothing but blanks is where the source should be. -/
def LacksSource (e : List Char) : Prop :=
  ∃ aliases source, Separates e aliases source ∧ aliases ≠ [] ∧ source ≠ [] ∧ trim source = []

theorem LacksSource.isSeparated {e : List Char} (h : LacksSource e) : IsSeparated e := by
  obtain ⟨aliases, source, hsep, haliases, hsource, -⟩ := h
  exact ⟨aliases, source, hsep, haliases, hsource⟩

theorem Separates.isSome_source? {e aliases source : List Char} (h : Separates e aliases source)
    (hsource : source ≠ []) :
    ∃ t rest, e = aliases ++ t ∧ KeywordAhead t rest ∧ (source? rest).isSome = true ∧
      trim rest = trim source := by
  obtain ⟨left, word, right, rfl, hleft, hword, hright⟩ := h
  obtain ⟨b, right, rfl, hb⟩ := hright.exists_cons
  refine ⟨_, (b :: right) ++ source, rfl, ⟨left, word, rfl, hleft, hword⟩, ?_,
    trim_blank_append hright.blank source⟩
  exact isSome_source?_iff.2 ⟨b, right ++ source, rfl, hb, by simp [hsource]⟩

/-- The blanks in front of a text that begins with other characters. -/
theorem takeWhile_isBlank_append {w s : List Char} {c : Char} (hw : w.all isBlank = true)
    (hc : isBlank c = false) : (w ++ c :: s).takeWhile isBlank = w := by
  rw [List.takeWhile_append_of_pos (List.all_eq_true.1 hw),
    List.takeWhile_cons_of_neg (by simp [hc]), List.append_nil]

/-- If no alias is found, a blank takes its place, provided that another one comes after it. -/
theorem split?_eq_some_iff_of_none {e a source : List Char}
    (hnone : splitAlias? (trimStart e) = none) :
    split? e = some (a, source) ↔
      ∃ last blank blanks, (e.takeWhile isBlank).reverse = last :: blank :: blanks ∧ a = [blank] ∧
        sourceAfterKeyword? (trimStart e) = some source := by
  rw [split?, hnone]
  rcases (e.takeWhile isBlank).reverse with - | ⟨last, - | ⟨blank, blanks⟩⟩
  · simp
  · simp
  · constructor
    · intro h
      obtain ⟨_, hsource, heq⟩ := Option.map_eq_some_iff.1 h
      obtain ⟨rfl, rfl⟩ := Prod.mk.inj heq
      exact ⟨last, blank, blanks, rfl, rfl, hsource⟩
    · rintro ⟨last', blank', blanks', hblanks, rfl, hsource⟩
      obtain ⟨-, hblanks⟩ := List.cons.inj hblanks
      obtain ⟨rfl, -⟩ := List.cons.inj hblanks
      exact Option.map_eq_some_iff.2 ⟨source, hsource, rfl⟩

theorem split?_of_splitAlias? {e a source : List Char}
    (h : splitAlias? (trimStart e) = some (a, source)) : split? e = some (a, source) := by
  rw [split?, h]

/-- A source comes after blanks. -/
theorem exists_gap_of_source? {rest source : List Char} (h : source? rest = some source) :
    ∃ right more, rest = right ++ more ∧ IsGap right ∧ more ≠ [] ∧ trim more = trim source := by
  obtain ⟨b, more, rfl, hb, hmore⟩ := exists_cons_of_source? h
  have hright : IsGap [b] := ⟨List.cons_ne_nil b [], by simp [hb]⟩
  refine ⟨[b], more, rfl, hright, hmore, ?_⟩
  rw [trim_of_source? h, ← List.singleton_append, trim_blank_append hright.blank]

/-- What is taken for an alias and a source stands around a keyword. -/
theorem separates_of_split? {e a source : List Char} (h : split? e = some (a, source)) :
    ∃ aliases more, Separates e aliases more ∧ aliases ≠ [] ∧ more ≠ [] ∧
      trim aliases = trim a ∧ trim more = trim source := by
  have he : e = e.takeWhile isBlank ++ trimStart e := List.takeWhile_append_dropWhile.symm
  cases hfirst : splitAlias? (trimStart e) with
  | some parts =>
      obtain rfl : parts = (a, source) :=
        Option.some.inj ((split?_of_splitAlias? hfirst).symm.trans h)
      obtain ⟨-, before, c, t, rest, rfl, ht, -, ⟨gap, word, rfl, hgap, hword⟩, hsource⟩ :=
        splitAlias?_eq_some_iff.1 hfirst
      obtain ⟨right, more, rfl, hright, hmore, htrim⟩ := exists_gap_of_source? hsource
      refine ⟨e.takeWhile isBlank ++ (before ++ [c]), more,
        ⟨gap, word, right, ?_, hgap, hword, hright⟩, by simp, hmore,
        trim_blank_append List.all_takeWhile _, htrim⟩
      refine he.trans ?_
      rw [ht]
      simp
  | none =>
      obtain ⟨last, blank, blanks, hblanks, rfl, hsource⟩ := (split?_eq_some_iff_of_none hfirst).1 h
      obtain ⟨rest, hrest, hsource⟩ := Option.bind_eq_some_iff.1 hsource
      obtain ⟨word, hword, ht⟩ := afterKeyword?_eq_some_iff.1 hrest
      obtain ⟨right, more, rfl, hright, hmore, htrim⟩ := exists_gap_of_source? hsource
      -- the last of the leading blanks separates, and all before it are the alias
      have hlead : e.takeWhile isBlank = blanks.reverse ++ [blank] ++ [last] := by
        rw [← List.reverse_reverse (e.takeWhile isBlank), hblanks]
        simp
      have hall : (blanks.reverse ++ [blank] ++ [last]).all isBlank = true := by
        rw [← hlead]
        exact List.all_takeWhile
      obtain ⟨haliases, hlast⟩ := Bool.and_eq_true_iff.1 (List.all_append.symm.trans hall)
      obtain ⟨-, hblank⟩ := Bool.and_eq_true_iff.1 (List.all_append.symm.trans haliases)
      refine ⟨blanks.reverse ++ [blank], more,
        ⟨[last], word, right, ?_, ⟨List.cons_ne_nil last [], hlast⟩, hword, hright⟩, by simp, hmore,
        ?_, htrim⟩
      · refine he.trans ?_
        rw [ht, hlead]
        simp
      · rw [trim_eq_nil_iff.2 haliases, trim_eq_nil_iff.2 hblank]

/-- A text that is not all blanks has a last character that is not. -/
theorem exists_last_of_not_blank {s : List Char} (h : s.all isBlank = false) :
    ∃ before c blanks, s = before ++ c :: blanks ∧ isBlank c = false ∧
      blanks.all isBlank = true := by
  induction s with
  | nil => cases h
  | cons d s ih =>
      by_cases hs : s.all isBlank = true
      · refine ⟨[], d, s, rfl, ?_, hs⟩
        simpa [hs] using h
      · obtain ⟨before, c, blanks, rfl, hc, hblanks⟩ := ih (by simpa using hs)
        exact ⟨d :: before, c, blanks, rfl, hc, hblanks⟩

/-- An alias is found if anything but blanks is in front of a keyword. -/
theorem isSome_splitAlias?_of_separates {e aliases source : List Char}
    (h : Separates e aliases source) (haliases : trim aliases ≠ []) (hsource : source ≠ []) :
    (splitAlias? (trimStart e)).isSome = true := by
  obtain ⟨t, rest, rfl, hahead, hrest, -⟩ := h.isSome_source? hsource
  rw [Ne, trim_eq_nil_iff, Bool.not_eq_true] at haliases
  obtain ⟨before, c, blanks, rfl, hc, hblanks⟩ := exists_last_of_not_blank haliases
  rw [List.append_assoc, List.cons_append, trimStart_append_cons hc]
  exact isSome_splitAlias? hc (hahead.blank_append hblanks) hrest

/-- With blanks only in front of it, a keyword begins the trimmed text. -/
theorem Separates.trimStart_eq {e aliases source : List Char} (h : Separates e aliases source)
    (haliases : trim aliases = []) (hsource : source ≠ []) :
    ∃ left word rest, e.takeWhile isBlank = aliases ++ left ∧ left ≠ [] ∧ IsKeyword word ∧
      trimStart e = word ++ rest ∧ (source? rest).isSome = true ∧ trim rest = trim source := by
  obtain ⟨t, rest, rfl, ⟨left, word, rfl, hleft, hword⟩, hrest, htrim⟩ := h.isSome_source? hsource
  have hlead : (aliases ++ left).all isBlank = true := by
    rw [List.all_append, trim_eq_nil_iff.1 haliases, hleft.blank]
    rfl
  obtain ⟨x, y, rfl, hx, -⟩ := hword.exists_pair
  refine ⟨left, [x, y], rest, ?_, hleft.ne_nil, hword, ?_, hrest, htrim⟩
  · rw [← List.append_assoc]
    exact takeWhile_isBlank_append hlead hx
  · rw [← List.append_assoc, trimStart_blank_append hlead]
    exact trimStart_cons_of_not_blank hx _

/-- An expression is split exactly if it is separated by a keyword. -/
theorem isSome_split?_iff {e : List Char} : (split? e).isSome = true ↔ IsSeparated e := by
  constructor
  · intro h
    obtain ⟨⟨a, source⟩, hsplit⟩ := Option.isSome_iff_exists.1 h
    obtain ⟨aliases, more, hsep, haliases, hmore, -⟩ := separates_of_split? hsplit
    exact ⟨aliases, more, hsep, haliases, hmore⟩
  · rintro ⟨aliases, source, hsep, haliases, hsource⟩
    cases hfirst : splitAlias? (trimStart e) with
    | some parts => rw [split?_of_splitAlias? hfirst, Option.isSome_some]
    | none =>
        -- then blanks are in the alias's place, two of them at least
        have hblank : trim aliases = [] := by
          by_contra hink
          have hsome := isSome_splitAlias?_of_separates hsep hink hsource
          rw [hfirst] at hsome
          cases hsome
        obtain ⟨left, word, rest, hlead, hleft, hword, hstart, hrest, -⟩ :=
          hsep.trimStart_eq hblank hsource
        obtain ⟨found, hfound⟩ := Option.isSome_iff_exists.1 hrest
        have hsource' : sourceAfterKeyword? (trimStart e) = some found := by
          rw [sourceAfterKeyword?, afterKeyword?_eq_some_iff.2 ⟨word, hword, hstart⟩,
            Option.bind_some, hfound]
        have hlength : 2 ≤ (e.takeWhile isBlank).reverse.length := by
          have h1 := List.length_pos_iff.2 haliases
          have h2 := List.length_pos_iff.2 hleft
          rw [List.length_reverse, hlead, List.length_append]
          omega
        rcases hblanks : (e.takeWhile isBlank).reverse with - | ⟨last, - | ⟨blank, blanks⟩⟩
        · simp [hblanks] at hlength
        · simp [hblanks] at hlength
        · rw [(split?_eq_some_iff_of_none hfirst).2 ⟨last, blank, blanks, hblanks, rfl, hsource'⟩,
            Option.isSome_some]

/-! ## Expressions with and without blanks at the edges -/

/-- The parts at the two ends of a trimmed text are not blank. -/
theorem trim_ne_nil_of_append {s t : List Char} (h : trim (s ++ t) = s ++ t) :
    (s ≠ [] → trim s ≠ []) ∧ (t ≠ [] → trim t ≠ []) := by
  constructor
  · intro hs hnil
    obtain ⟨⟨c, u, hu, hc⟩, -⟩ := ends_of_trim_eq h (by simp [hs])
    obtain ⟨d, s, rfl⟩ := List.exists_cons_of_ne_nil hs
    obtain ⟨rfl, -⟩ := List.cons.inj hu
    exact notMem_of_blank (trim_eq_nil_iff.1 hnil) hc List.mem_cons_self
  · intro ht hnil
    obtain ⟨-, u, c, hu, hc⟩ := ends_of_trim_eq h (by simp [ht])
    obtain ⟨v, d, rfl⟩ : ∃ v d, t = v ++ [d] := ⟨_, _, (List.dropLast_concat_getLast ht).symm⟩
    rw [← List.append_assoc] at hu
    obtain ⟨rfl⟩ := (List.append_inj' hu rfl).2
    exact notMem_of_blank (trim_eq_nil_iff.1 hnil) hc (by simp)

/-- An expression has the form of a loop exactly if it is separated once it is trimmed. -/
theorem hasForm_iff {e : List Char} : HasForm e ↔ IsSeparated (trim e) := by
  constructor
  · rintro ⟨aliases, source, ⟨left, word, right, rfl, hleft, hword, hright⟩, haliases, hsource⟩
    rw [Ne, trim_eq_nil_iff, Bool.not_eq_true] at haliases hsource
    have htrim : trim (aliases ++ (left ++ (word ++ (right ++ source))))
        = trimStart aliases ++ (left ++ (word ++ (right ++ trimEnd source))) := by
      rw [trim, trimStart_append haliases]
      simp only [← List.append_assoc]
      rw [trimEnd_append hsource]
    refine ⟨trimStart aliases, trimEnd source, ⟨left, word, right, htrim, hleft, hword, hright⟩,
      ?_, ?_⟩
    · rw [Ne, trimStart_eq_nil_iff, haliases]
      exact Bool.false_ne_true
    · rw [Ne, trimEnd_eq, List.reverse_eq_nil_iff, trimStart_eq_nil_iff, List.all_reverse, hsource]
      exact Bool.false_ne_true
  · rintro ⟨aliases, source, ⟨left, word, right, htrim, hleft, hword, hright⟩, haliases, hsource⟩
    have hself : trim (trim e) = trim e := trim_trim e
    have hfirst := (trim_ne_nil_of_append (htrim ▸ hself)).1 haliases
    have hlast : trim source ≠ [] := by
      simp only [← List.append_assoc] at htrim
      exact (trim_ne_nil_of_append (htrim ▸ hself)).2 hsource
    -- the blanks at the edges go to the alias and to the source
    obtain ⟨blanks, he, hblanks⟩ := exists_eq_append_trim e
    refine ⟨e.takeWhile isBlank ++ aliases, source ++ blanks,
      ⟨left, word, right, ?_, hleft, hword, hright⟩, ?_, ?_⟩
    · refine he.trans ?_
      rw [htrim]
      simp
    · rwa [trim_blank_append List.all_takeWhile]
    · rwa [trim_append_blanks hblanks]

theorem read_of_none {e : List Char} (h : split? e = none) :
    read e = ⟨defaultItem, none, trim e, [], false⟩ := by
  rw [read, h]

theorem read_of_some {e a source : List Char} (h : split? e = some (a, source)) :
    (read e).source = trim source ∧ (read e).wellFormed = true := by
  rw [read, h]
  dsimp only
  cases insideParens? (trim a) with
  | none => exact ⟨rfl, rfl⟩
  | some inner => exact ⟨rfl, rfl⟩

/-- Blanks around an alias and a source do not count. -/
theorem read_congr {e e' a a' source source' : List Char} (h : split? e = some (a, source))
    (h' : split? e' = some (a', source')) (ha : trim a = trim a')
    (hsource : trim source = trim source') : read e = read e' := by
  rw [read, h, read, h']
  dsimp only
  rw [ha, hsource]

theorem wellFormed_iff {e : List Char} : (read e).wellFormed = true ↔ IsSeparated e := by
  rw [← isSome_split?_iff]
  cases h : split? e with
  | none => simp [read_of_none h]
  | some parts => simp [(read_of_some h).2]

theorem trimStart_trim (e : List Char) :
    trimStart (trim e) = trim e ∧ (trim e).takeWhile isBlank = [] := by
  by_cases hnil : trim e = []
  · rw [hnil]
    exact ⟨rfl, rfl⟩
  · obtain ⟨⟨c, t, ht, hc⟩, -⟩ := ends_of_trim_eq (trim_trim e) hnil
    rw [ht]
    exact ⟨trimStart_cons_of_not_blank hc t, List.takeWhile_cons_of_neg (by simp [hc])⟩

/-- In a trimmed expression no blank can take the place of the alias. -/
theorem splitAlias?_of_split?_trim {e a source : List Char}
    (h : split? (trim e) = some (a, source)) : splitAlias? (trim e) = some (a, source) := by
  obtain ⟨hstart, hlead⟩ := trimStart_trim e
  cases hfirst : splitAlias? (trimStart (trim e)) with
  | some parts =>
      rw [hstart] at hfirst
      rw [← h, split?, hstart, hfirst]
  | none =>
      obtain ⟨last, blank, blanks, hblanks, -⟩ := (split?_eq_some_iff_of_none hfirst).1 h
      rw [hlead] at hblanks
      cases hblanks

/-- A loop that has an alias and a source is read as one, with blanks around it or not. -/
theorem read_trim_of_hasForm {e : List Char} (h : HasForm e) :
    read e = read (trim e) ∧ (read e).source ≠ [] := by
  obtain ⟨⟨a, source⟩, hsplit⟩ := Option.isSome_iff_exists.1 (isSome_split?_iff.2 (hasForm_iff.1 h))
  obtain ⟨hfirst, before, c, t, rest, rfl, ht, hc, hahead, hsource⟩ :=
    splitAlias?_eq_some_iff.1 (splitAlias?_of_split?_trim hsplit)
  -- blanks at the end go to the source, and do not make another keyword the first
  obtain ⟨blanks, hstart, hblanks⟩ := exists_eq_trimEnd_append (trimStart e)
  obtain ⟨b, more, rfl, hb, hmore⟩ := exists_cons_of_source? hsource
  obtain ⟨source', hsource'⟩ : ∃ source', source? ((b :: more) ++ blanks) = some source' :=
    Option.isSome_iff_exists.1 (isSome_source?_iff.2 ⟨b, more ++ blanks, rfl, hb, by simp [hmore]⟩)
  have hsplit' : split? e = some (before ++ [c], source') := by
    refine split?_of_splitAlias? (splitAlias?_eq_some_iff.2 ⟨hfirst, before, c, t ++ blanks,
      (b :: more) ++ blanks, rfl, ?_, hc, hahead.append blanks, hsource'⟩)
    rw [hstart, ← trim, ht]
    simp
  have hsame : trim source' = trim source := by
    rw [trim_of_source? hsource', trim_append_blanks hblanks, trim_of_source? hsource]
  refine ⟨read_congr hsplit' hsplit rfl hsame, ?_⟩
  obtain ⟨gap, word, rfl, -, -⟩ := hahead
  have hend : trim e = (before ++ c :: (gap ++ word)) ++ (b :: more) := by
    rw [ht]
    simp
  rw [(read_of_some hsplit').1, hsame, trim_of_source? hsource]
  exact (trim_ne_nil_of_append (hend ▸ trim_trim e)).2 (List.cons_ne_nil b more)

/-- What is mapped over is something exactly if the source is. -/
theorem iterable_eq_nil_iff (loop : Loop) : loop.iterable = [] ↔ loop.source = [] := by
  rw [iterable]
  split
  · -- a number is not empty
    rename_i hdigits
    have hne : loop.source ≠ [] := by
      intro hnil
      rw [hnil] at hdigits
      cases hdigits
    refine iff_of_false ?_ hne
    exact List.append_ne_nil_of_left_ne_nil (List.append_ne_nil_of_right_ne_nil _ hne) _
  · rfl

theorem not_isSeparated_of_blank {e : List Char} (h : trim e = []) : ¬ IsSeparated e := by
  rintro ⟨aliases, source, ⟨left, word, right, rfl, -, hword, -⟩, -⟩
  obtain ⟨x, y, rfl, hx, -⟩ := hword.exists_pair
  exact notMem_of_blank (trim_eq_nil_iff.1 h) hx (by simp)

/-- If blanks stand in for a source that is lacking, and the expression is not split at another
keyword, then it is split there. -/
theorem LacksSource.trim_eq_nil {e a source : List Char} (h : LacksSource e) (hform : ¬ HasForm e)
    (hsplit : split? e = some (a, source)) : trim source = [] := by
  by_contra hink
  obtain ⟨aliases, more, hsep, haliases, hmore, htrimA, htrim⟩ := separates_of_split? hsplit
  rw [← htrim] at hink
  have hblank : trim aliases = [] := by
    by_contra hne
    exact hform ⟨aliases, more, hsep, hne, hink⟩
  obtain ⟨aliases', more', hsep', -, hmore', hblank'⟩ := h
  by_cases halso : trim aliases' = []
  · -- both keywords begin the trimmed text, so they are the same
    obtain ⟨-, word, rest, -, -, hword, hstart, -, hrest⟩ := hsep.trimStart_eq hblank hmore
    obtain ⟨-, word', rest', -, -, hword', hstart', -, hrest'⟩ := hsep'.trimStart_eq halso hmore'
    obtain ⟨x, y, rfl, -⟩ := hword.exists_pair
    obtain ⟨x', y', rfl, -⟩ := hword'.exists_pair
    obtain ⟨-, rfl⟩ := List.append_inj (hstart.symm.trans hstart') rfl
    exact hink (hrest.symm.trans (hrest'.trans hblank'))
  · -- an alias is found, and it is not blank
    obtain ⟨parts, hfirst⟩ :=
      Option.isSome_iff_exists.1 (isSome_splitAlias?_of_separates hsep' halso hmore')
    obtain rfl : parts = (a, source) :=
      Option.some.inj ((split?_of_splitAlias? hfirst).symm.trans hsplit)
    obtain ⟨-, before, c, -, -, rfl, -, hc, -⟩ := splitAlias?_eq_some_iff.1 hfirst
    rw [htrimA, trim_eq_nil_iff] at hblank
    exact notMem_of_blank hblank hc (by simp)

theorem source_eq_nil_iff {e : List Char} :
    (read e).source = [] ↔ trim e = [] ∨ ¬ HasForm e ∧ LacksSource e := by
  cases hsplit : split? e with
  | none =>
      have hnot : ¬ IsSeparated e := by
        rw [← isSome_split?_iff, hsplit]
        exact Bool.false_ne_true
      rw [read_of_none hsplit]
      exact ⟨.inl, fun h => h.elim id fun hlacks => absurd hlacks.2.isSeparated hnot⟩
  | some parts =>
      obtain ⟨a, source⟩ := parts
      have hsep : IsSeparated e := by rw [← isSome_split?_iff, hsplit, Option.isSome_some]
      rw [(read_of_some hsplit).1]
      constructor
      · intro hnil
        obtain ⟨aliases, more, hparts, haliases, hmore, -, htrim⟩ := separates_of_split? hsplit
        refine .inr ⟨fun hform => (read_trim_of_hasForm hform).2 ?_,
          aliases, more, hparts, haliases, hmore, htrim.trans hnil⟩
        rw [(read_of_some hsplit).1, hnil]
      · rintro (hblank | ⟨hform, hlacks⟩)
        · exact absurd hsep (not_isSeparated_of_blank hblank)
        · exact hlacks.trim_eq_nil hform hsplit

/-- An expression is read as a loop exactly if something, if only a blank, is on both sides of a
keyword and the blanks around it. Blanks at the edges are of no account unless the expression is a
loop because of them, and there is nothing to map over exactly if the expression is blank, or it
lacks a source and is no loop otherwise. -/
theorem read_trim_iff (e : List Char) :
    ((read e).wellFormed = true ↔ IsSeparated e) ∧
      ((read (trim e)).wellFormed = true ↔ HasForm e) ∧
      (read e = read (trim e) ↔ (IsSeparated e → HasForm e)) ∧
      ((read e).iterable = [] ↔ trim e = [] ∨ ¬ HasForm e ∧ LacksSource e) := by
  have htrimmed : (read (trim e)).wellFormed = true ↔ HasForm e := by
    rw [wellFormed_iff, hasForm_iff]
  refine ⟨wellFormed_iff, htrimmed, ⟨?_, ?_⟩, ?_⟩
  · intro heq hsep
    rw [← htrimmed, ← heq, wellFormed_iff]
    exact hsep
  · intro hform
    by_cases h : HasForm e
    · exact (read_trim_of_hasForm h).1
    · have hwhole : split? e = none := by
        rw [← Option.not_isSome_iff_eq_none, isSome_split?_iff]
        exact fun hsep => h (hform hsep)
      have hinner : split? (trim e) = none := by
        rw [← Option.not_isSome_iff_eq_none, isSome_split?_iff, ← hasForm_iff]
        exact h
      rw [read_of_none hwhole, read_of_none hinner, trim_trim]
  · rw [iterable_eq_nil_iff, source_eq_nil_iff]

/-- In `<li v-for="x in  "></li>` the blank after the keyword is taken for a source. Nothing is left
of it to map over, and nothing is reported. Without the blanks at its end the expression is no
loop. -/
theorem read_trim_differs :
    read "x in  ".toList = ⟨"x".toList, none, [], [], true⟩ ∧
      read (trim "x in  ".toList) = ⟨"item".toList, none, "x in".toList, [], false⟩ ∧
      trim "x in  ".toList ≠ [] ∧ (read "x in  ".toList).iterable = [] ∧
      generate (Template.read .condense "<li v-for=\"x in  \"></li>".toList).nodes
        = inBraces ".map((x) => (<li></li>))".toList ∧
      checkMeaning (Template.read .condense "<li v-for=\"x in  \"></li>".toList).nodes = [] := by
  decide +kernel

end Loop

end AstroTemplate
