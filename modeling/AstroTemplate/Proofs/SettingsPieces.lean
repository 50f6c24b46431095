import AstroTemplate.Run.Settings
import Mathlib.Data.List.Chain

set_option autoImplicit false

/-! # The pieces of a settings text

A settings text is made of string literals, comments and single characters (`SettingsPiece`).
Comments are taken out by one scan and commas at the end of a list by another one, each with its own
idea of where strings begin and end. On pieces the two agree: the first scan leaves just the pieces
that are no comments, and the second one leaves those but for each comma with a closing bracket next
(`SettingsPiece.removeTrailingCommas_removeComments`).
-/

namespace AstroTemplate

/-- A part of a string literal: a character that means itself, or one after a backslash. -/
inductive LiteralPart where
  | plain (c : Char) (notQuote : c ≠ '"') (notBackslash : c ≠ '\\')
  | escaped (c : Char)

def LiteralPart.written : LiteralPart → List Char
  | plain c _ _ => [c]
  | escaped c => ['\\', c]

/-- A piece of a settings text. A line comment goes up to the end of its line, which is a piece of
its own. -/
inductive SettingsPiece where
  | literal (parts : List LiteralPart)
  | char (c : Char) (notQuote : c ≠ '"') (notSlash : c ≠ '/')
  | lineComment (text : List Char) (oneLine : '\n' ∉ text)
  | blockComment (text : List Char) (unclosed : ¬ ['*', '/'] <:+: text)

namespace SettingsPiece

def written : SettingsPiece → List Char
  | literal parts => '"' :: (parts.flatMap LiteralPart.written ++ ['"'])
  | char c _ _ => [c]
  | lineComment text _ => '/' :: '/' :: text
  | blockComment text _ => '/' :: '*' :: (text ++ ['*', '/'])

def isLiteral : SettingsPiece → Bool
  | literal _ => true
  | _ => false

def isLineComment : SettingsPiece → Bool
  | lineComment _ _ => true
  | _ => false

def isComment : SettingsPiece → Bool
  | lineComment _ _ | blockComment _ _ => true
  | _ => false

/-- The character that the piece is, unless it is a literal or a comment. -/
def char? : SettingsPiece → Option Char
  | char c _ _ => some c
  | _ => none

/-- The text that the pieces make up. -/
def textOf (pieces : List SettingsPiece) : List Char := pieces.flatMap written

/-- Every line comment is the last piece or stands before a line break. -/
def CommentsEnd (pieces : List SettingsPiece) : Prop :=
  pieces.IsChain fun a b => a.isLineComment = true → b.char? = some '\n'

def withoutComments (pieces : List SettingsPiece) : List SettingsPiece :=
  pieces.filter fun p => !p.isComment

/-- Whether the first piece that is no white space is a closing bracket. -/
def endsList (pieces : List SettingsPiece) : Bool :=
  (pieces.find? fun p => !p.char?.any isBlank).any fun p =>
    p.char? == some '\x7d' || p.char? == some ']'

/-- The pieces without the commas that have a closing bracket next, white space apart. -/
def withoutTrailingCommas : List SettingsPiece → List SettingsPiece
  | [] => []
  | p :: rest =>
    if p.char? = some ',' ∧ endsList rest = true then withoutTrailingCommas rest
    else p :: withoutTrailingCommas rest

theorem textOf_cons (p : SettingsPiece) (pieces : List SettingsPiece) :
    textOf (p :: pieces) = p.written ++ textOf pieces := List.flatMap_cons

theorem textOf_literal_cons (parts : List LiteralPart) (pieces : List SettingsPiece) :
    textOf (literal parts :: pieces)
      = '"' :: (parts.flatMap LiteralPart.written ++ '"' :: textOf pieces) := by
  simp [textOf_cons, written]

end SettingsPiece

/-! ## Taking out comments -/

theorem removeCommentsFrom_char {c : Char} (hquote : c ≠ '"') (hslash : c ≠ '/') (s : List Char) :
    removeCommentsFrom .plain (c :: s) = c :: removeCommentsFrom .plain s := by
  rw [removeCommentsFrom]
  · exact hquote
  · exact fun t hc => absurd hc hslash
  · exact fun t hc => absurd hc hslash

theorem removeCommentsFrom_string_char {c : Char} (hquote : c ≠ '"') (hback : c ≠ '\\')
    (s : List Char) :
    removeCommentsFrom .string (c :: s) = c :: removeCommentsFrom .string s := by
  rw [removeCommentsFrom]
  · exact fun d t hc => absurd hc hback
  · exact hquote

/-- A string literal is kept, whatever is in it. -/
theorem removeCommentsFrom_literal (parts : List LiteralPart) (s : List Char) :
    removeCommentsFrom .string (parts.flatMap LiteralPart.written ++ '"' :: s)
      = parts.flatMap LiteralPart.written ++ '"' :: removeCommentsFrom .plain s := by
  induction parts with
  | nil => rfl
  | cons part parts ih =>
      rw [List.flatMap_cons, List.append_assoc, List.append_assoc, ← ih]
      cases part with
      | plain c hquote hback => exact removeCommentsFrom_string_char hquote hback _
      | escaped c => rfl

/-- A line comment ends where the line does. -/
theorem removeCommentsFrom_line {text : List Char} (h : '\n' ∉ text) {s : List Char}
    (hs : ∀ c ∈ s.head?, c = '\n') :
    removeCommentsFrom .line (text ++ s) = removeCommentsFrom .plain s := by
  induction text with
  | nil =>
      cases s with
      | nil => rfl
      | cons c s =>
          rw [hs c rfl]
          rfl
  | cons c text ih =>
      rw [List.mem_cons, not_or] at h
      rw [List.cons_append, removeCommentsFrom]
      · exact ih h.2
      · exact Ne.symm h.1

/-- A block comment ends at the first place where it can. -/
theorem removeCommentsFrom_block {text : List Char} (h : ¬ ['*', '/'] <:+: text) (s : List Char) :
    removeCommentsFrom .block (text ++ '*' :: '/' :: s) = removeCommentsFrom .plain s := by
  induction text with
  | nil => rfl
  | cons c text ih =>
      have hrest := ih fun hin => h (List.infix_cons hin)
      rw [List.cons_append, removeCommentsFrom]
      · exact hrest
      · -- the comment would end here, at `*` and the first character of the rest
        intro t hstar hslash
        cases text with
        | nil => exact absurd (List.cons.inj hslash).1 (by decide)
        | cons d text =>
            obtain ⟨rfl, -⟩ := List.cons.inj hslash
            rw [hstar] at h
            exact h (List.prefix_append ['*', '/'] text).isInfix

namespace SettingsPiece

theorem head?_textOf_of_char? {p : SettingsPiece} {c : Char} (h : p.char? = some c)
    (pieces : List SettingsPiece) : (textOf (p :: pieces)).head? = some c := by
  cases p with
  | char d hquote hslash => exact h
  | literal => cases h
  | lineComment => cases h
  | blockComment => cases h

/-- What is left without comments are the pieces that are none. -/
theorem removeComments_textOf {pieces : List SettingsPiece} (h : CommentsEnd pieces) :
    removeComments (textOf pieces) = textOf (withoutComments pieces) := by
  unfold removeComments withoutComments
  induction pieces with
  | nil => rfl
  | cons p pieces ih =>
      obtain ⟨hnext, hrest⟩ := List.isChain_cons.1 h
      have hpieces := ih hrest
      cases p with
      | literal parts =>
          rw [List.filter_cons_of_pos rfl, textOf_literal_cons, textOf_literal_cons, ← hpieces,
            ← removeCommentsFrom_literal]
          rfl
      | char c hquote hslash =>
          rw [List.filter_cons_of_pos rfl, textOf_cons, textOf_cons, ← hpieces]
          exact removeCommentsFrom_char hquote hslash _
      | lineComment text hline =>
          have hhead : ∀ c ∈ (textOf pieces).head?, c = '\n' := by
            intro c hc
            cases pieces with
            | nil => cases hc
            | cons q pieces =>
                rw [head?_textOf_of_char? (hnext q rfl rfl)] at hc
                exact (Option.some.inj hc).symm
          rw [List.filter_cons_of_neg Bool.false_ne_true, ← hpieces, textOf_cons]
          exact removeCommentsFrom_line hline hhead
      | blockComment text hblock =>
          rw [List.filter_cons_of_neg Bool.false_ne_true, ← hpieces, textOf_cons, written,
            List.cons_append, List.cons_append, List.append_assoc]
          exact removeCommentsFrom_block hblock _

end SettingsPiece

/-! ## Taking out commas -/

/-- A string literal is kept, whatever is in it. -/
theorem removeTrailingCommasFrom_literal (parts : List LiteralPart) (s : List Char) :
    removeTrailingCommasFrom .inside (parts.flatMap LiteralPart.written ++ '"' :: s)
      = parts.flatMap LiteralPart.written ++ '"' :: removeTrailingCommasFrom .outside s := by
  induction parts with
  | nil => rfl
  | cons part parts ih =>
      rw [List.flatMap_cons, List.append_assoc, List.append_assoc, ← ih]
      cases part with
      | plain c hquote hback =>
          show removeTrailingCommasFrom .inside (c :: _) = c :: _
          rw [removeTrailingCommasFrom, if_neg hback, if_neg hquote]
          rfl
      | escaped c => rfl

theorem closesNext_blank {c : Char} (hc : isBlank c = true) (s : List Char) :
    closesNext (c :: s) = closesNext s := by
  rw [closesNext, closesNext, trimStart, List.dropWhile_cons_of_pos hc, ← trimStart]

theorem closesNext_of_not_blank {c : Char} (hc : isBlank c = false) (s : List Char) :
    closesNext (c :: s) = (c == '\x7d' || c == ']') := by
  have htrim : trimStart (c :: s) = c :: s := List.dropWhile_cons_of_neg (by simp [hc])
  rw [closesNext, htrim]
  by_cases hbrace : c = '\x7d'
  · rw [hbrace]
    rfl
  by_cases hbracket : c = ']'
  · rw [hbracket]
    rfl
  rw [beq_false_of_ne hbrace, beq_false_of_ne hbracket]
  split
  · rename_i heq
    exact absurd (List.cons.inj heq).1 hbrace
  · rename_i heq
    exact absurd (List.cons.inj heq).1 hbracket
  · rfl

namespace SettingsPiece

/-- In front of pieces that are no comments, a closing bracket is found where it is. -/
theorem closesNext_textOf {pieces : List SettingsPiece} (h : ∀ p ∈ pieces, p.isComment = false) :
    closesNext (textOf pieces) = endsList pieces := by
  induction pieces with
  | nil => rfl
  | cons p pieces ih =>
      have hpieces := ih fun q hq => h q (List.mem_cons_of_mem p hq)
      cases p with
      | literal parts =>
          rw [textOf_literal_cons, closesNext_of_not_blank rfl]
          rfl
      | char c hquote hslash =>
          rw [textOf_cons, written, List.singleton_append, endsList]
          by_cases hblank : isBlank c = true
          · rw [closesNext_blank hblank, hpieces, endsList,
              List.find?_cons_of_neg (by simpa [char?] using hblank)]
          · rw [closesNext_of_not_blank (Bool.eq_false_iff.2 hblank),
              List.find?_cons_of_pos (by simpa [char?] using hblank)]
            rfl
      | lineComment => cases h _ List.mem_cons_self
      | blockComment => cases h _ List.mem_cons_self

/-- What is left without commas at the end of a list are the other pieces. -/
theorem removeTrailingCommas_textOf {pieces : List SettingsPiece}
    (h : ∀ p ∈ pieces, p.isComment = false) :
    removeTrailingCommas (textOf pieces) = textOf (withoutTrailingCommas pieces) := by
  unfold removeTrailingCommas
  induction pieces with
  | nil => rfl
  | cons p pieces ih =>
      have hrest : ∀ q ∈ pieces, q.isComment = false := fun q hq => h q (List.mem_cons_of_mem p hq)
      have hpieces := ih hrest
      rw [withoutTrailingCommas]
      cases p with
      | literal parts =>
          have hkept : ¬ ((literal parts).char? = some ',' ∧ endsList pieces = true) := by
            rintro ⟨hcomma, -⟩
            cases hcomma
          rw [if_neg hkept, textOf_literal_cons, textOf_literal_cons, ← hpieces,
            ← removeTrailingCommasFrom_literal]
          rfl
      | char c hquote hslash =>
          have hcomma : (char c hquote hslash).char? = some ',' ↔ c = ',' := by simp [char?]
          rw [textOf_cons, written, List.singleton_append, removeTrailingCommasFrom,
            closesNext_textOf hrest, if_neg hquote, hpieces]
          by_cases hdrops : c = ',' ∧ endsList pieces = true
          · rw [if_pos hdrops, if_pos ⟨hcomma.2 hdrops.1, hdrops.2⟩]
          · rw [if_neg hdrops, if_neg fun h => hdrops ⟨hcomma.1 h.1, h.2⟩, textOf_cons, written,
              List.singleton_append]
      | lineComment => cases h _ List.mem_cons_self
      | blockComment => cases h _ List.mem_cons_self

theorem withoutTrailingCommas_of_none {pieces : List SettingsPiece}
    (h : ∀ before comma after, pieces = before ++ comma :: after → comma.char? = some ',' →
      endsList after = false) : withoutTrailingCommas pieces = pieces := by
  induction pieces with
  | nil => rfl
  | cons p pieces ih =>
      have hkept : ¬ (p.char? = some ',' ∧ endsList pieces = true) := by
        rintro ⟨hcomma, hends⟩
        rw [h [] p pieces rfl hcomma] at hends
        cases hends
      rw [withoutTrailingCommas, if_neg hkept, ih]
      intro before comma after heq
      exact h (p :: before) comma after (by rw [heq, List.cons_append])

theorem filter_isLiteral_withoutTrailingCommas (pieces : List SettingsPiece) :
    (withoutTrailingCommas pieces).filter isLiteral = pieces.filter isLiteral := by
  induction pieces with
  | nil => rfl
  | cons p pieces ih =>
      rw [withoutTrailingCommas]
      split
      · rename_i hcomma
        have hother : ¬ p.isLiteral = true := by
          cases p with
          | literal => cases hcomma.1
          | char => exact Bool.false_ne_true
          | lineComment => exact Bool.false_ne_true
          | blockComment => exact Bool.false_ne_true
        rw [List.filter_cons_of_neg hother, ih]
      · rw [List.filter_cons, List.filter_cons, ih]

theorem filter_isLiteral_withoutComments (pieces : List SettingsPiece) :
    (withoutComments pieces).filter isLiteral = pieces.filter isLiteral := by
  rw [withoutComments, List.filter_filter]
  refine List.filter_congr fun p _ => ?_
  cases p <;> rfl

/-! ## Both scans -/

/-- **Only comments and commas at the end of a list are taken out.** Let a text be made of string
literals, comments, and characters that begin neither, where each line comment goes up to the end
of its line. Without its comments it is the text of the other pieces; without commas at the end of a
list, it is the text of those but for the commas after which a closing bracket is the next piece
that is no white space. Every string literal stays as it is, and so does a text that has neither
comments nor such commas. -/
theorem removeTrailingCommas_removeComments (pieces : List SettingsPiece)
    (h : CommentsEnd pieces) :
    removeComments (textOf pieces) = textOf (withoutComments pieces) ∧
    removeTrailingCommas (removeComments (textOf pieces))
      = textOf (withoutTrailingCommas (withoutComments pieces)) ∧
    (withoutTrailingCommas (withoutComments pieces)).filter isLiteral = pieces.filter isLiteral ∧
    ((∀ p ∈ pieces, p.isComment = false) →
      (∀ before comma after, pieces = before ++ comma :: after → comma.char? = some ',' →
        endsList after = false) →
      removeTrailingCommas (removeComments (textOf pieces)) = textOf pieces) := by
  have hcomments := removeComments_textOf h
  have hcommas : removeTrailingCommas (removeComments (textOf pieces))
      = textOf (withoutTrailingCommas (withoutComments pieces)) := by
    rw [hcomments, removeTrailingCommas_textOf]
    intro p hp
    simpa using (List.mem_filter.1 hp).2
  refine ⟨hcomments, hcommas, ?_, ?_⟩
  · rw [filter_isLiteral_withoutTrailingCommas, filter_isLiteral_withoutComments]
  · intro hplain hkept
    have hsame : withoutComments pieces = pieces :=
      List.filter_eq_self.2 fun p hp => by rw [hplain p hp, Bool.not_false]
    rw [hcommas, hsame, withoutTrailingCommas_of_none hkept]

/-- A list with a pattern and a comma, a comment on each side of the line break after it, and a
string that looks like all of these. -/
def listPieces : List SettingsPiece :=
  [.char '[' (by decide) (by decide),
    .literal [.plain '/' (by decide) (by decide), .plain '*' (by decide) (by decide), .escaped '"',
      .plain ',' (by decide) (by decide), .plain ']' (by decide) (by decide)],
    .char ',' (by decide) (by decide), .lineComment ['"', '/', '*'] (by decide),
    .char '\n' (by decide) (by decide), .blockComment ['/', '*'] (by decide),
    .char ']' (by decide) (by decide)]

theorem removeTrailingCommas_removeComments_list :
    removeTrailingCommas (removeComments "[\"/*\\\",]\",//\"/*\n/*/**/]".toList)
      = "[\"/*\\\",]\"\n]".toList := by
  have hends : CommentsEnd listPieces := by
    unfold CommentsEnd
    decide
  exact (removeTrailingCommas_removeComments listPieces hends).2.1

end SettingsPiece

end AstroTemplate
