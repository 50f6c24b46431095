import AstroTemplate.Run.Report
import AstroTemplate.Proofs.Paths
import AstroTemplate.Proofs.TextBytes

set_option autoImplicit false

/-! # Lines and columns of offsets

To say which line an offset is on, cut the text where that line begins (`OnLine`): whole lines come
before the cut, and the offset is not beyond the first line after it. Every offset of the text has
such a cut, offsets inside a character included. Line, column, the start of the line and the line
that is shown all follow from the cut, so that a position determines its offset and positions are in
the order of their offsets (`LineIndex.lineCol?_exact`).
-/

namespace AstroTemplate

/-! ## Line feeds in bytes -/

theorem utf8EncodeChar_break : String.utf8EncodeChar '\n' = [10] := by decide

/-- A line feed is a byte of no other character. -/
theorem break_notMem_utf8EncodeChar {c : Char} (h : c ≠ '\n') :
    10 ∉ String.utf8EncodeChar c := by
  intro hmem
  rcases utf8EncodeChar_cases c with ⟨hc, hbytes⟩ | ⟨-, b, bs, hbytes, hhigh⟩
  · rw [hbytes, List.mem_singleton] at hmem
    have hcode : c.toNat = 10 := by
      have := congrArg UInt8.toNat hmem
      simp at this
      omega
    exact h (Char.toNat_inj.1 hcode)
  · rw [hbytes] at hmem
    exact absurd (hhigh 10 hmem) (by decide)

theorem count_break_utf8 (s : List Char) : (utf8 s).count 10 = s.count '\n' := by
  induction s with
  | nil => rfl
  | cons c s ih =>
      rw [utf8_cons, List.count_append, ih]
      by_cases hc : c = '\n'
      · rw [hc, utf8EncodeChar_break, List.count_singleton_self, List.count_cons_self, Nat.add_comm]
      · rw [List.count_eq_zero.2 (break_notMem_utf8EncodeChar hc), List.count_cons_of_ne hc,
          Nat.zero_add]

/-! ## The line of an offset -/

/-- The text up to the end of its first line. -/
def firstLine (s : List Char) : List Char := s.takeWhile (· ≠ '\n')

/-- The text is cut where the line with the offset begins: whole lines are before the cut, and the
offset is not beyond the first line after it. -/
structure OnLine (text : List Char) (offset : Nat) (before after : List Char) : Prop where
  parts : text = before ++ after
  whole : before = [] ∨ before.getLast? = some '\n'
  start_le : byteLength before ≤ offset
  le_stop : offset ≤ byteLength before + byteLength (firstLine after)

theorem firstLine_cons_of_ne {c : Char} (h : c ≠ '\n') (s : List Char) :
    firstLine (c :: s) = c :: firstLine s :=
  List.takeWhile_cons_of_pos (by simpa using h)

/-- A character before a line other than the first one, or a line feed, belongs to earlier lines. -/
theorem OnLine.cons_earlier {text before after : List Char} {offset : Nat} {c : Char}
    (h : OnLine text offset before after) (hearlier : before ≠ [] ∨ c = '\n') :
    OnLine (c :: text) (offset + c.utf8Size) (c :: before) after where
  parts := by rw [h.parts, List.cons_append]
  whole := by
    rcases h.whole with rfl | hlast
    · have hc : c = '\n' := hearlier.resolve_left fun hne => hne rfl
      rw [hc]
      exact .inr rfl
    · rw [List.getLast?_cons, hlast]
      exact .inr rfl
  start_le := by
    have := h.start_le
    rw [byteLength_cons]
    omega
  le_stop := by
    have := h.le_stop
    rw [byteLength_cons]
    omega

/-- A character of the first line belongs to it. -/
theorem OnLine.cons_first {text after : List Char} {offset : Nat} {c : Char}
    (h : OnLine text offset [] after) (hc : c ≠ '\n') :
    OnLine (c :: text) (offset + c.utf8Size) [] (c :: after) where
  parts := by rw [h.parts, List.nil_append, List.nil_append]
  whole := .inl rfl
  start_le := Nat.zero_le _
  le_stop := by
    have hstop := h.le_stop
    rw [firstLine_cons_of_ne hc, byteLength_cons]
    omega

theorem exists_onLine {text : List Char} {offset : Nat} (h : offset ≤ byteLength text) :
    ∃ before after, OnLine text offset before after := by
  induction text generalizing offset with
  | nil => exact ⟨[], [], rfl, .inl rfl, Nat.zero_le _, h⟩
  | cons c text ih =>
      rw [byteLength_cons] at h
      by_cases hinside : offset < c.utf8Size
      · refine ⟨[], c :: text, rfl, .inl rfl, Nat.zero_le _, ?_⟩
        by_cases hc : c = '\n'
        · have hsize : c.utf8Size = 1 := by rw [hc]; rfl
          omega
        · rw [firstLine_cons_of_ne hc, byteLength_cons]
          omega
      · obtain ⟨rest, rfl⟩ := Nat.exists_eq_add_of_le' (Nat.le_of_not_lt hinside)
        obtain ⟨before, after, hline⟩ := ih (show rest ≤ byteLength text by omega)
        by_cases hearlier : before ≠ [] ∨ c = '\n'
        · exact ⟨c :: before, after, hline.cons_earlier hearlier⟩
        · obtain ⟨hnil, hc⟩ := not_or.1 hearlier
          obtain rfl := not_ne_iff.1 hnil
          exact ⟨[], c :: after, hline.cons_first hc⟩

theorem exists_firstLine_append (s : List Char) : ∃ rest, s = firstLine s ++ rest :=
  ⟨s.dropWhile (· ≠ '\n'), List.takeWhile_append_dropWhile.symm⟩

theorem break_notMem_firstLine (s : List Char) : '\n' ∉ firstLine s := by
  intro hmem
  simpa using List.mem_takeWhile_imp hmem

theorem break_notMem_take_utf8 (n : Nat) (s : List Char) : 10 ∉ (utf8 (firstLine s)).take n := by
  intro hmem
  refine break_notMem_firstLine s (List.count_pos_iff.1 ?_)
  rw [← count_break_utf8]
  exact List.count_pos_iff.2 (List.mem_of_mem_take hmem)

namespace OnLine

variable {text before after : List Char} {offset : Nat}

/-- The bytes before the offset are those of the whole lines and some of the first line after
them. -/
theorem take_utf8 (h : OnLine text offset before after) :
    (utf8 text).take offset
      = utf8 before ++ (utf8 (firstLine after)).take (offset - byteLength before) := by
  obtain ⟨rest, hrest⟩ := exists_firstLine_append after
  have hle := h.start_le
  have hstop := h.le_stop
  calc (utf8 text).take offset
    _ = (utf8 before ++ utf8 after).take offset := by rw [h.parts, utf8_append]
    _ = utf8 before ++ (utf8 after).take (offset - byteLength before) := by
        rw [List.take_append, length_utf8, List.take_of_length_le (by rw [length_utf8]; omega)]
    _ = utf8 before ++ (utf8 (firstLine after) ++ utf8 rest).take (offset - byteLength before) := by
        rw [← utf8_append, ← hrest]
    _ = _ := by rw [List.take_append_of_le_length (by rw [length_utf8]; omega)]

/-- The line feeds before the offset are those of the whole lines. -/
theorem count_break (h : OnLine text offset before after) :
    ((utf8 text).take offset).count 10 = before.count '\n' := by
  rw [h.take_utf8, List.count_append, List.count_eq_zero.2 (break_notMem_take_utf8 _ _),
    count_break_utf8, Nat.add_zero]

/-- No line feed stands between the start of the line and the offset. -/
theorem not_break (h : OnLine text offset before after) {i : Nat} (hstart : byteLength before ≤ i)
    (hstop : i < offset) : (utf8 text)[i]? ≠ some 10 := by
  intro hbreak
  rw [← List.getElem?_take_of_lt hstop, h.take_utf8,
    List.getElem?_append_right (by rw [length_utf8]; exact hstart)] at hbreak
  exact break_notMem_take_utf8 _ _ (List.mem_of_getElem? hbreak)

end OnLine

/-! ## The starts of lines -/

theorem startsAfterBreaks_append (offset : Nat) (s t : List Char) :
    startsAfterBreaks offset (s ++ t)
      = startsAfterBreaks offset s ++ startsAfterBreaks (offset + byteLength s) t := by
  induction s generalizing offset with
  | nil => rfl
  | cons c s ih =>
      rw [List.cons_append, startsAfterBreaks, startsAfterBreaks, ih, byteLength_cons,
        Nat.add_assoc]
      split <;> rfl

theorem length_startsAfterBreaks (offset : Nat) (s : List Char) :
    (startsAfterBreaks offset s).length = s.count '\n' := by
  induction s generalizing offset with
  | nil => rfl
  | cons c s ih =>
      rw [startsAfterBreaks]
      by_cases hc : c = '\n'
      · rw [if_pos hc, List.length_cons, ih, hc, List.count_cons_self]
      · rw [if_neg hc, ih, List.count_cons_of_ne hc]

theorem startsAfterBreaks_le {offset start : Nat} {s : List Char}
    (h : start ∈ startsAfterBreaks offset s) : start ≤ offset + byteLength s := by
  induction s generalizing offset with
  | nil => cases h
  | cons c s ih =>
      rw [startsAfterBreaks] at h
      rw [byteLength_cons]
      split at h
      · rcases List.mem_cons.1 h with rfl | h
        · omega
        · have := ih h
          omega
      · have := ih h
        omega

/-- After a line begins another one only beyond it. -/
theorem lt_startsAfterBreaks {offset start : Nat} {s : List Char}
    (h : (startsAfterBreaks offset s).head? = some start) :
    offset + byteLength (firstLine s) < start := by
  induction s generalizing offset with
  | nil => cases h
  | cons c s ih =>
      have hpos := c.utf8Size_pos
      rw [startsAfterBreaks] at h
      by_cases hc : c = '\n'
      · rw [if_pos hc, List.head?_cons, Option.some.injEq] at h
        rw [firstLine, List.takeWhile_cons_of_neg (by simpa using hc), byteLength_nil]
        omega
      · rw [if_neg hc] at h
        have := ih h
        rw [firstLine_cons_of_ne hc, byteLength_cons]
        omega

/-- The last of the lines that begin in or right after whole lines begins right after them. -/
theorem getLast?_starts {before : List Char} (h : before = [] ∨ before.getLast? = some '\n') :
    (0 :: startsAfterBreaks 0 before).getLast? = some (byteLength before) := by
  rcases h with rfl | hlast
  · rfl
  · obtain ⟨lines, rfl⟩ := List.getLast?_eq_some_iff.1 hlast
    rw [startsAfterBreaks_append]
    simp [startsAfterBreaks, List.getLast?_cons]

namespace OnLine

variable {text before after : List Char} {offset : Nat}

/-- The lines that begin at the offset or before it are those of the whole lines and the one of the
offset. -/
theorem takeWhile_starts (h : OnLine text offset before after) :
    (LineIndex.ofText text).starts.takeWhile (· ≤ offset) = 0 :: startsAfterBreaks 0 before := by
  have hbefore : ∀ start ∈ startsAfterBreaks 0 before, decide (start ≤ offset) = true := by
    intro start hstart
    have hle := startsAfterBreaks_le hstart
    have := h.start_le
    exact decide_eq_true (by omega)
  have hafter : (startsAfterBreaks (byteLength before) after).takeWhile (· ≤ offset) = [] := by
    cases hstarts : startsAfterBreaks (byteLength before) after with
    | nil => rfl
    | cons start starts =>
        have hlt := lt_startsAfterBreaks (by rw [hstarts]; rfl)
        have := h.le_stop
        exact List.takeWhile_cons_of_neg (by simp; omega)
  show (0 :: startsAfterBreaks 0 text).takeWhile (· ≤ offset) = _
  rw [List.takeWhile_cons_of_pos (by simp), h.parts, startsAfterBreaks_append, Nat.zero_add,
    List.takeWhile_append_of_pos hbefore, hafter, List.append_nil]

theorem lineCol?_eq (h : OnLine text offset before after) :
    (LineIndex.ofText text).lineCol? offset
      = some ⟨1 + before.count '\n', offset - byteLength before + 1⟩ := by
  have hle : ¬ offset > (LineIndex.ofText text).length := by
    obtain ⟨rest, hrest⟩ := exists_firstLine_append after
    have hlength : byteLength after = byteLength (firstLine after) + byteLength rest := by
      rw [← byteLength_append, ← hrest]
    have := h.le_stop
    show ¬ offset > byteLength text
    rw [h.parts, byteLength_append]
    omega
  rw [LineIndex.lineCol?, if_neg hle]
  simp only [h.takeWhile_starts]
  rw [List.getLastD_eq_getLast?, getLast?_starts h.whole, List.length_cons,
    length_startsAfterBreaks, Nat.add_comm, Option.getD_some]

theorem lineStart?_eq (h : OnLine text offset before after) :
    (LineIndex.ofText text).lineStart? (1 + before.count '\n') = some (byteLength before) := by
  have hlast := getLast?_starts h.whole
  rw [List.getLast?_eq_getElem?, List.length_cons, length_startsAfterBreaks] at hlast
  rw [Nat.add_comm, LineIndex.lineStart?]
  show (0 :: startsAfterBreaks 0 text)[before.count '\n']? = _
  rw [h.parts, startsAfterBreaks_append, ← List.cons_append, List.getElem?_append_left]
  · exact hlast
  · rw [List.length_cons, length_startsAfterBreaks]
    exact Nat.lt_succ_self _

end OnLine

/-! ## Lines as they are shown -/

/-- How the line at the beginning of a text is shown: up to the line feed, or up to a carriage
return and a line feed, or up to the end of the text. At the end of the text no line is left. -/
inductive ShownLine : List Char → Option (List Char) → Prop where
  | ended (line rest : List Char) : '\n' ∉ line → line.getLast? ≠ some '\r' →
      ShownLine (line ++ '\n' :: rest) (some line)
  | returned (line rest : List Char) : '\n' ∉ line →
      ShownLine (line ++ '\r' :: '\n' :: rest) (some line)
  | last (line : List Char) : line ≠ [] → '\n' ∉ line → ShownLine line (some line)
  | missing : ShownLine [] none

theorem ShownLine.eq_none_iff {text : List Char} {shown : Option (List Char)}
    (h : ShownLine text shown) : shown = none ↔ text = [] := by
  cases h with
  | ended line rest => simp
  | returned line rest => simp
  | last line hline => simp [hline]
  | missing => simp

theorem length_splitAtChar (sep : Char) (s : List Char) :
    (splitAtChar sep s).length = s.count sep + 1 := by
  induction s with
  | nil => rfl
  | cons c s ih =>
      rw [splitAtChar]
      by_cases hc : c = sep
      · rw [if_pos hc, List.length_cons, ih, hc, List.count_cons_self]
      · rw [if_neg hc, List.count_cons_of_ne hc, ← ih]
        cases hs : splitAtChar sep s with
        | nil => exact absurd hs (splitAtChar_ne_nil sep s)
        | cons w ws => rfl

/-- Lines before a line feed are shown without the carriage returns at their ends. -/
theorem sourceLines_append (s t : List Char) :
    sourceLines (s ++ '\n' :: t)
      = (splitAtChar '\n' s).map dropCarriageReturn ++ sourceLines t := by
  obtain ⟨pieces, last, hpieces⟩ :=
    (List.eq_nil_or_concat (splitAtChar '\n' t)).resolve_left (splitAtChar_ne_nil '\n' t)
  simp [sourceLines, splitAtChar_append, hpieces]

/-- The first of the lines that are shown is the line at the beginning of the text. -/
theorem shownLine_head? (text : List Char) : ShownLine text (sourceLines text).head? := by
  by_cases hbreak : '\n' ∈ text
  · obtain ⟨line, rest, rfl, hline⟩ := List.eq_append_cons_of_mem hbreak
    have hhead : (sourceLines (line ++ '\n' :: rest)).head? = some (dropCarriageReturn line) := by
      rw [sourceLines_append, splitAtChar_of_not_mem hline]
      rfl
    rw [hhead, dropCarriageReturn]
    by_cases hreturn : line.getLast? = some '\r'
    · obtain ⟨shown, rfl⟩ := List.getLast?_eq_some_iff.1 hreturn
      rw [if_pos hreturn, List.dropLast_concat, List.append_assoc]
      exact .returned shown rest fun hmem => hline (List.mem_append_left _ hmem)
    · rw [if_neg hreturn]
      exact .ended line rest hline hreturn
  · rw [sourceLines, splitAtChar_of_not_mem hbreak]
    by_cases hnil : text = []
    · rw [hnil]
      exact .missing
    · simpa [hnil] using ShownLine.last text hnil hbreak

/-- The line of an offset is shown as the first line after the cut. -/
theorem OnLine.shownLine {text before after : List Char} {offset : Nat}
    (h : OnLine text offset before after) :
    ShownLine after (sourceLines text)[before.count '\n']? := by
  have hhead : (sourceLines text)[before.count '\n']? = (sourceLines after).head? := by
    rw [h.parts, List.head?_eq_getElem?]
    rcases h.whole with rfl | hlast
    · rfl
    · obtain ⟨lines, rfl⟩ := List.getLast?_eq_some_iff.1 hlast
      rw [List.append_assoc, List.singleton_append, sourceLines_append, List.count_append,
        List.count_singleton_self, List.getElem?_append_right, List.length_map, length_splitAtChar,
        Nat.sub_self]
      rw [List.length_map, length_splitAtChar]
  rw [hhead]
  exact shownLine_head? after

/-- No line is left at the offset exactly at the end of a text whose last line is ended. -/
theorem OnLine.after_eq_nil_iff {text before after : List Char} {offset : Nat}
    (h : OnLine text offset before after) :
    after = [] ↔ offset = byteLength text ∧ (text = [] ∨ text.getLast? = some '\n') := by
  have hstart := h.start_le
  have hstop := h.le_stop
  constructor
  · rintro rfl
    have htext : text = before := by rw [h.parts, List.append_nil]
    have hzero : byteLength (firstLine []) = 0 := rfl
    rw [htext]
    exact ⟨by omega, h.whole⟩
  · rintro ⟨hoffset, hended⟩
    by_contra hafter
    have hlength : byteLength text = byteLength before + byteLength after := by
      rw [h.parts, byteLength_append]
    -- a line feed at the end of the text comes after the first line
    have hlast : after.getLast? = some '\n' := by
      rcases hended with hnil | hlast
      · exact absurd (List.append_eq_nil_iff.1 (h.parts.symm.trans hnil)).2 hafter
      · rwa [h.parts, List.getLast?_append,
          Option.or_of_isSome (List.getLast?_isSome.2 hafter)] at hlast
    obtain ⟨rest, hrest⟩ := exists_firstLine_append after
    have hrestLength : byteLength after = byteLength (firstLine after) + byteLength rest := by
      rw [← byteLength_append, ← hrest]
    have hnil : rest = [] := byteLength_eq_zero.1 (by omega)
    rw [hnil, List.append_nil] at hrest
    exact break_notMem_firstLine after (hrest ▸ List.mem_of_getLast? hlast)

/-! ## Positions -/

/-- A position comes before another one: on an earlier line, or on its line and further left. -/
def LineCol.Precedes (place other : LineCol) : Prop :=
  place.line < other.line ∨ place.line = other.line ∧ place.column < other.column

/-- The position is that of the offset. The text is cut where its line begins. -/
structure LineCol.Locates (place : LineCol) (text : List Char) (offset : Nat)
    (before after : List Char) : Prop where
  parts : text = before ++ after
  /-- Lines are counted by the line feeds before the offset. -/
  line_eq : place.line = 1 + ((utf8 text).take offset).count 10
  start_eq : (LineIndex.ofText text).lineStart? place.line = some (byteLength before)
  start_add_column : byteLength before + place.column - 1 = offset
  one_le_column : 1 ≤ place.column
  /-- From the beginning of the line to the offset there is no line feed. -/
  not_break : ∀ i, byteLength before ≤ i → i < offset → (utf8 text)[i]? ≠ some 10
  shown : ShownLine after (sourceLines text)[place.line - 1]?
  /-- A line that is not shown is the empty one after the last line feed, or that of no text. -/
  missing : (sourceLines text)[place.line - 1]? = none ↔
    offset = byteLength text ∧ (text = [] ∨ text.getLast? = some '\n')
  /-- The report has the line after its number. -/
  printed : ∀ line, (sourceLines text)[place.line - 1]? = some line → ∃ mark,
    snippet (sourceLines text) place
      = "  " ++ toString place.line ++ " | " ++ String.ofList line ++ "\n" ++ mark
  unprinted : (sourceLines text)[place.line - 1]? = none → snippet (sourceLines text) place = ""

theorem OnLine.locates {text before after : List Char} {offset : Nat}
    (h : OnLine text offset before after) :
    LineCol.Locates ⟨1 + before.count '\n', offset - byteLength before + 1⟩ text offset
      before after where
  parts := h.parts
  line_eq := by rw [h.count_break]
  start_eq := h.lineStart?_eq
  start_add_column := by
    have := h.start_le
    show byteLength before + (offset - byteLength before + 1) - 1 = offset
    omega
  one_le_column := Nat.le_add_left 1 _
  not_break := fun _ hstart hstop => h.not_break hstart hstop
  shown := by rw [Nat.add_sub_cancel_left]; exact h.shownLine
  missing := by
    rw [Nat.add_sub_cancel_left, h.shownLine.eq_none_iff]
    exact h.after_eq_nil_iff
  printed := by
    intro line hline
    rw [Nat.add_sub_cancel_left] at hline
    rw [snippet, Nat.add_comm 1]
    simp only [hline, String.append_assoc]
    exact ⟨_, rfl⟩
  unprinted := by
    intro hline
    rw [Nat.add_sub_cancel_left] at hline
    rw [snippet, Nat.add_comm 1]
    simp only [hline]

namespace LineIndex

theorem lineCol?_eq_none_iff (text : List Char) (offset : Nat) :
    (ofText text).lineCol? offset = none ↔ byteLength text < offset := by
  rw [lineCol?]
  by_cases h : offset > (ofText text).length
  · rw [if_pos h]
    exact iff_of_true rfl h
  · rw [if_neg h]
    exact iff_of_false (Option.some_ne_none _) h

theorem exists_locates {text : List Char} {offset : Nat} {place : LineCol}
    (h : (ofText text).lineCol? offset = some place) :
    ∃ before after, place.Locates text offset before after := by
  have hle : offset ≤ byteLength text := by
    by_contra hlt
    rw [(lineCol?_eq_none_iff text offset).2 (Nat.lt_of_not_le hlt)] at h
    cases h
  obtain ⟨before, after, hline⟩ := exists_onLine hle
  rw [hline.lineCol?_eq, Option.some.injEq] at h
  subst h
  exact ⟨before, after, hline.locates⟩

/-- Positions are in the order of their offsets. -/
theorem precedes_of_lt {text : List Char} {offset later : Nat} {place other : LineCol}
    (h : (ofText text).lineCol? offset = some place)
    (hlater : (ofText text).lineCol? later = some other) (hlt : offset < later) :
    place.Precedes other := by
  obtain ⟨_, _, hplace⟩ := exists_locates h
  obtain ⟨_, _, hother⟩ := exists_locates hlater
  have hle : place.line ≤ other.line := by
    rw [hplace.line_eq, hother.line_eq]
    exact Nat.add_le_add_left
      ((List.take_sublist_take_left (Nat.le_of_lt hlt)).count_le 10) 1
  rcases Nat.lt_or_eq_of_le hle with hline | hline
  · exact .inl hline
  · -- one line has one beginning, from which the columns count
    refine .inr ⟨hline, ?_⟩
    have hstart := hplace.start_eq
    rw [hline, hother.start_eq, Option.some.injEq] at hstart
    have := hplace.start_add_column
    have := hother.start_add_column
    have := hplace.one_le_column
    omega

/-- **Positions are exact and determine their offsets.** Exactly the offsets past the end of the
text have no position. Otherwise lines count the line feeds before the offset, and columns the bytes
from the beginning of the line, with no line feed among them. The line that the report prints is the
text from that beginning up to the end of the line; it is left out exactly at the end of a text that
is empty or ends in a line feed. A later offset has a later position, so that no two offsets have
the same one. -/
theorem lineCol?_exact (text : List Char) (offset : Nat) :
    ((ofText text).lineCol? offset = none ↔ byteLength text < offset) ∧
    ∀ place, (ofText text).lineCol? offset = some place →
      (∃ before after, place.Locates text offset before after) ∧
      (∀ later other, offset < later → (ofText text).lineCol? later = some other →
        place.Precedes other) ∧
      ∀ other, (ofText text).lineCol? other = some place → other = offset := by
  refine ⟨lineCol?_eq_none_iff text offset, fun place h => ⟨exists_locates h, ?_, ?_⟩⟩
  · intro later other hlt hlater
    exact precedes_of_lt h hlater hlt
  · intro other hother
    have hirrefl : ¬ place.Precedes place := by
      rintro (hlt | ⟨-, hlt⟩) <;> exact Nat.lt_irrefl _ hlt
    rcases Nat.lt_trichotomy other offset with hlt | heq | hlt
    · exact absurd (precedes_of_lt hother h hlt) hirrefl
    · exact heq
    · exact absurd (precedes_of_lt h hother hlt) hirrefl

/-- An offset inside a letter of two bytes, and the end of the text after its last line feed. -/
theorem lineCol?_exact_second :
    (ofText "a\r\nxé\r\n".toList).lineCol? 5 = some ⟨2, 3⟩ ∧
    (∃ before after, LineCol.Locates ⟨2, 3⟩ "a\r\nxé\r\n".toList 5 before after) ∧
    LineCol.Precedes ⟨2, 3⟩ ⟨3, 1⟩ ∧
    ∀ other, (ofText "a\r\nxé\r\n".toList).lineCol? other = some ⟨2, 3⟩ → other = 5 := by
  have h : (ofText "a\r\nxé\r\n".toList).lineCol? 5 = some ⟨2, 3⟩ := by decide +kernel
  obtain ⟨hlocates, hlater, hother⟩ := (lineCol?_exact _ 5).2 _ h
  exact ⟨h, hlocates, hlater 8 ⟨3, 1⟩ (by decide) (by decide +kernel), hother⟩

end LineIndex

end AstroTemplate
