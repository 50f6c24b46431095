set_option autoImplicit false

/-! # Blank characters, trimming and letter case

A text is a list of characters throughout the library; `String` appears only where a text is
handed to, or comes from, the outside. Three notions of character class are used on texts.

* `isTagSpace`: the five characters that separate the parts of a tag.
* `isBlank`: the characters with the Unicode property White_Space. Expressions are trimmed of
  these.
* Letter case is compared in the ASCII range only, by `lower` and `sameName`.
-/

namespace AstroTemplate

/-- White space inside markup: space, tab, line feed, carriage return and form feed. -/
def isTagSpace (c : Char) : Bool :=
  c == ' ' || c == '\t' || c == '\n' || c == '\r' || c == '\x0c'

/-- A text of white space only, in the sense of markup. -/
def isTagBlank (s : List Char) : Bool := s.all isTagSpace

/-- The characters with the Unicode property White_Space. -/
def isBlank (c : Char) : Bool :=
  let n := c.toNat
  (0x09 ≤ n && n ≤ 0x0d) || n == 0x20 || n == 0x85 || n == 0xa0 || n == 0x1680
    || (0x2000 ≤ n && n ≤ 0x200a) || n == 0x2028 || n == 0x2029 || n == 0x202f
    || n == 0x205f || n == 0x3000

/-- The text `s` without its leading blanks. -/
def trimStart (s : List Char) : List Char := s.dropWhile isBlank

/-- The text `s` without its trailing blanks. -/
def trimEnd (s : List Char) : List Char := (s.reverse.dropWhile isBlank).reverse

/-- The text `s` without its leading and trailing blanks. -/
def trim (s : List Char) : List Char := trimEnd (trimStart s)

/-- The ASCII letters of `s` in lower case. -/
def lower (s : List Char) : List Char := s.map Char.toLower

/-- Tag and attribute names are compared without regard to ASCII case. -/
def sameName : List Char → List Char → Bool
  | [], [] => true
  | a :: as, b :: bs => a.toLower == b.toLower && sameName as bs
  | _, _ => false

/-- Markup space is blank. -/
theorem isBlank_of_isTagSpace {c : Char} (h : isTagSpace c = true) : isBlank c = true := by
  simp only [isTagSpace, Bool.or_eq_true, beq_iff_eq] at h
  rcases h with (((rfl | rfl) | rfl) | rfl) | rfl <;> decide

/-- Trimming at the end takes blanks away and nothing else. -/
theorem exists_eq_trimEnd_append (s : List Char) :
    ∃ right, s = trimEnd s ++ right ∧ right.all isBlank = true := by
  refine ⟨(s.reverse.takeWhile isBlank).reverse, ?_, ?_⟩
  · rw [trimEnd, ← List.reverse_append, List.takeWhile_append_dropWhile, List.reverse_reverse]
  · rw [List.all_reverse]
    exact List.all_takeWhile

/-- A text is its leading blanks, the trimmed text and blanks. -/
theorem exists_eq_append_trim (s : List Char) :
    ∃ right, s = s.takeWhile isBlank ++ (trim s ++ right) ∧ right.all isBlank = true := by
  obtain ⟨right, hright, hblank⟩ := exists_eq_trimEnd_append (trimStart s)
  refine ⟨right, ?_, hblank⟩
  rw [trim, ← hright, trimStart, List.takeWhile_append_dropWhile]

/-- Trimming keeps every character that is not blank. -/
theorem count_trim {c : Char} (hc : isBlank c = false) (s : List Char) :
    (trim s).count c = s.count c := by
  have hblank : ∀ {t : List Char}, t.all isBlank = true → t.count c = 0 := by
    intro t ht
    refine List.count_eq_zero.2 fun hmem => ?_
    rw [List.all_eq_true.1 ht c hmem] at hc
    cases hc
  obtain ⟨right, hs, hright⟩ := exists_eq_append_trim s
  have hcount := congrArg (List.count c) hs
  rw [List.count_append, List.count_append, hblank List.all_takeWhile, hblank hright] at hcount
  omega

/-- A blank at the end does not survive trimming. -/
theorem trim_append_blank (s : List Char) {c : Char} (hc : isBlank c = true) :
    trim (s ++ [c]) = trim s := by
  have hend : ∀ t : List Char, trimEnd (t ++ [c]) = trimEnd t := by
    intro t
    rw [trimEnd, List.reverse_append, List.reverse_singleton, List.singleton_append,
      List.dropWhile_cons_of_pos hc, trimEnd]
  rw [trim, trimStart, List.dropWhile_append]
  split
  · rename_i hempty
    rw [trim, trimStart, List.isEmpty_iff.1 hempty, List.dropWhile_cons_of_pos hc]
    rfl
  · rw [hend, trim, trimStart]

/-- Names are the same if they are equal in lower case. -/
theorem sameName_iff {a b : List Char} : sameName a b = true ↔ lower a = lower b := by
  induction a generalizing b with
  | nil => cases b <;> simp [sameName, lower]
  | cons c a ih =>
    cases b with
    | nil => simp [sameName, lower]
    | cons d b => simpa [sameName, lower] using fun _ => ih

@[simp] theorem sameName_self (a : List Char) : sameName a a = true := sameName_iff.2 rfl

theorem sameName_comm (a b : List Char) : sameName a b = sameName b a := by
  rw [Bool.eq_iff_iff, sameName_iff, sameName_iff]
  exact eq_comm

end AstroTemplate
