import AstroTemplate.Markup.Template

set_option autoImplicit false

/-! # First occurrences

What the searching functions find is the first of its kind. `cutAt?` cuts before the first
occurrence of a pattern, `textRun` ends where something else may begin, and `rawContent?` ends
before the first closing tag.
-/

namespace AstroTemplate

/-- The text `p` stands in `s` at the offset `offset`. -/
def StandsAt (p s : List Char) (offset : Nat) : Prop :=
  ∃ before after, s = before ++ (p ++ after) ∧ byteLength before = offset

/-- What is looked up in a table is one of its entries. -/
theorem mem_of_lookup {α β : Type} [BEq α] [LawfulBEq α] {table : List (α × β)} {key : α}
    {value : β} (h : table.lookup key = some value) : (key, value) ∈ table := by
  obtain ⟨before, after, htable, -⟩ := List.lookup_eq_some_iff.1 h
  rw [htable]
  exact List.mem_append_right before List.mem_cons_self

/-! ## One character -/

theorem cutAt?_cons (x c : Char) (s : List Char) :
    cutAt? [x] (c :: s)
      = if x = c then some ([], s) else (cutAt? [x] s).map fun (b, a) => (c :: b, a) := by
  by_cases h : x = c
  · simp [cutAt?, afterPrefix?, h]
  · simp [cutAt?, afterPrefix?, h]

/-- A text without the character is passed over. -/
theorem cutAt?_append_of_not_mem {x : Char} {u : List Char} (hu : x ∉ u) (v : List Char) :
    cutAt? [x] (u ++ v) = (cutAt? [x] v).map fun (b, a) => (u ++ b, a) := by
  induction u with
  | nil => simp
  | cons c u ih =>
      obtain ⟨hc, hu⟩ := not_or.1 (mt List.mem_cons.2 hu)
      rw [List.cons_append, cutAt?_cons, if_neg hc, ih hu, Option.map_map]
      rfl

/-- The text before the first occurrence of a character does not have it. -/
theorem not_mem_of_cutAt? {x : Char} {s before after : List Char}
    (h : cutAt? [x] s = some (before, after)) : x ∉ before := by
  induction s generalizing before with
  | nil => simp [cutAt?, afterPrefix?] at h
  | cons c s ih =>
      rw [cutAt?_cons] at h
      split at h
      · obtain ⟨rfl, -⟩ := Prod.mk.inj (Option.some.inj h)
        exact List.not_mem_nil
      · rename_i hc
        obtain ⟨⟨b, a⟩, hb, he⟩ := Option.map_eq_some_iff.1 h
        obtain ⟨rfl, rfl⟩ := Prod.mk.inj he
        exact fun hmem => (List.mem_cons.1 hmem).elim hc (ih hb)

/-- After a run of characters comes none of them. -/
theorem head?_dropWhile_any (p : Char → Bool) (s : List Char) :
    (s.dropWhile p).head?.any p = false := by
  have hhead := List.head?_dropWhile_not p s
  split at hhead
  · rename_i x hx
    rw [hx]
    exact hhead
  · rename_i hx
    rw [hx]
    rfl

/-! ## Longer patterns -/

/-- A pattern that does not occur is not found. -/
theorem cutAt?_eq_none_of_not_infix {p s : List Char} (h : ¬ p <:+: s) : cutAt? p s = none := by
  cases hcut : cutAt? p s with
  | none => rfl
  | some found =>
      obtain ⟨before, after⟩ := found
      exact absurd ⟨before, after, (eq_append_of_cutAt? hcut).symm⟩ h

/-- A pattern that is not found does not occur. -/
theorem not_infix_of_cutAt?_eq_none {p s : List Char} (h : cutAt? p s = none) : ¬ p <:+: s := by
  induction s with
  | nil =>
      intro hin
      rw [List.infix_nil.1 hin] at h
      cases h
  | cons c s ih =>
      rw [cutAt?] at h
      split at h
      · cases h
      · rename_i hnone
        intro hin
        rcases List.infix_cons_iff.1 hin with ⟨t, ht⟩ | hin
        · rw [← ht, afterPrefix?_append] at hnone
          cases hnone
        · exact ih (by simpa using h) hin

/-- A pattern does not occur before its first occurrence. -/
theorem not_infix_of_cutAt? {p s before after : List Char} (hp : p ≠ [])
    (h : cutAt? p s = some (before, after)) : ¬ p <:+: before := by
  induction s generalizing before with
  | nil =>
      obtain ⟨t, -, he⟩ := Option.map_eq_some_iff.1 h
      obtain ⟨rfl, -⟩ := Prod.mk.inj he
      exact fun hin => hp (List.infix_nil.1 hin)
  | cons c s ih =>
      have hs := eq_append_of_cutAt? h
      rw [cutAt?] at h
      split at h
      · obtain ⟨rfl, -⟩ := Prod.mk.inj (Option.some.inj h)
        exact fun hin => hp (List.infix_nil.1 hin)
      · rename_i hnone
        obtain ⟨⟨b, a⟩, hb, he⟩ := Option.map_eq_some_iff.1 h
        obtain ⟨rfl, rfl⟩ := Prod.mk.inj he
        intro hin
        rcases List.infix_cons_iff.1 hin with ⟨t, ht⟩ | hin
        · -- then the text would have been cut at once
          rw [hs, ← ht, List.append_assoc, List.append_assoc, afterPrefix?_append] at hnone
          cases hnone
        · exact ih hb hin

/-- No occurrence of a pattern begins before its first one. -/
theorem prefix_of_cutAt? {p s before after b a : List Char} (h : cutAt? p s = some (before, after))
    (hs : s = b ++ (p ++ a)) : before <+: b := by
  induction s generalizing before b with
  | nil =>
      obtain ⟨t, -, he⟩ := Option.map_eq_some_iff.1 h
      obtain ⟨rfl, -⟩ := Prod.mk.inj he
      exact List.nil_prefix
  | cons c s ih =>
      rw [cutAt?] at h
      split at h
      · obtain ⟨rfl, -⟩ := Prod.mk.inj (Option.some.inj h)
        exact List.nil_prefix
      · rename_i hnone
        obtain ⟨⟨b', a'⟩, hb, he⟩ := Option.map_eq_some_iff.1 h
        obtain ⟨rfl, rfl⟩ := Prod.mk.inj he
        cases b with
        | nil =>
            rw [hs, List.nil_append, afterPrefix?_append] at hnone
            cases hnone
        | cons d b =>
            obtain ⟨rfl, htail⟩ := List.cons.inj hs
            exact List.cons_prefix_cons.2 ⟨rfl, ih hb htail⟩

/-- A pattern is found where it was found before, whatever follows it now. -/
theorem cutAt?_append_tail {p s before after : List Char}
    (h : cutAt? p s = some (before, after)) (tail : List Char) :
    cutAt? p (before ++ (p ++ tail)) = some (before, tail) := by
  cases hcut : cutAt? p (before ++ (p ++ tail)) with
  | none =>
      exact absurd ⟨before, tail, List.append_assoc _ _ _⟩ (not_infix_of_cutAt?_eq_none hcut)
  | some found =>
      obtain ⟨b, a⟩ := found
      have heq := eq_append_of_cutAt? hcut
      obtain ⟨u, rfl⟩ := prefix_of_cutAt? hcut rfl
      rw [List.append_assoc, List.append_assoc, List.append_cancel_left_eq] at heq
      -- the pattern that is found lies in what was there before, so it begins no earlier
      have hinside : p <+: u ++ p := by
        have hbegin : p <+: u ++ (p ++ tail) := ⟨a, heq.symm⟩
        exact List.prefix_of_prefix_length_le hbegin ⟨tail, List.append_assoc _ _ _⟩ (by simp)
      obtain ⟨more, hmore⟩ := hinside
      have hs : s = b ++ (p ++ (more ++ after)) := by
        rw [eq_append_of_cutAt? h, List.append_assoc b, ← hmore]
        simp
      have hle := (prefix_of_cutAt? h hs).length_le
      obtain rfl : u = [] := by
        rw [List.length_append] at hle
        exact List.length_eq_zero_iff.1 (by omega)
      rw [List.nil_append, List.append_cancel_left_eq] at heq
      rw [heq, List.append_nil]

/-- A comment that does not have its own end in it is cut at its end. -/
theorem cutAt?_comment {data : List Char} (h : ¬ ['-', '-', '>'] <:+: data) (tail : List Char) :
    cutAt? ['-', '-', '>'] (data ++ (['-', '-', '>'] ++ tail)) = some (data, tail) := by
  induction data with
  | nil => rfl
  | cons c data ih =>
      -- the end overlaps no other occurrence of itself, so none begins in the data
      have hnone :
          afterPrefix? ['-', '-', '>'] (c :: (data ++ (['-', '-', '>'] ++ tail))) = none := by
        rw [Option.eq_none_iff_forall_ne_some]
        intro after hafter
        have heq := eq_append_of_afterPrefix? hafter
        rcases data with - | ⟨d, - | ⟨e, data⟩⟩
        · simp at heq
        · simp at heq
        · obtain ⟨rfl, rfl, rfl, -⟩ : c = '-' ∧ d = '-' ∧ e = '>' ∧ _ := by simpa using heq
          exact h ⟨[], data, rfl⟩
      have hdata : ¬ ['-', '-', '>'] <:+: data := fun hin => h (List.infix_cons hin)
      rw [List.cons_append, cutAt?, hnone, ih hdata]
      rfl

/-! ## Names without regard to case -/

/-- Lowering the case changes letters only, and makes them letters. -/
theorem eq_of_toLower_eq {c d : Char} (hd : d.isLower = false) (h : c.toLower = d) : c = d := by
  unfold Char.toLower at h
  split at h
  · rename_i hupper
    have h65 : 65 ≤ c.toNat := UInt32.le_iff_toNat_le.1 hupper.1
    have h90 : c.toNat ≤ 90 := UInt32.le_iff_toNat_le.1 hupper.2
    have hval : d.toNat = c.toNat + 32 := by
      rw [← h]
      show (c.toNat + 32) % 2 ^ 32 = c.toNat + 32
      omega
    have hlower : d.isLower = true := by
      show (decide ('a'.val ≤ d.val) && decide (d.val ≤ 'z'.val)) = true
      simp only [Bool.and_eq_true, decide_eq_true_eq, UInt32.le_iff_toNat_le]
      change 97 ≤ d.toNat ∧ d.toNat ≤ 122
      omega
    rw [hlower] at hd
    cases hd
  · exact h

/-- The same names have the same characters, letters apart. -/
theorem mem_of_sameName {a b : List Char} {x : Char} (hx : x.isLower = false)
    (hl : x.toLower = x) (h : sameName a b = true) (ha : x ∈ a) : x ∈ b := by
  have hlower : x ∈ lower b := by
    rw [← sameName_iff.1 h, lower, ← hl]
    exact List.mem_map_of_mem ha
  obtain ⟨y, hy, hyx⟩ := List.mem_map.1 hlower
  rwa [← eq_of_toLower_eq hx hyx]

/-! ## Text and raw text -/

/-- Text is taken from the front, up to where something else may begin. -/
theorem exists_textRun_append (s : List Char) :
    ∃ after, s = textRun s ++ after ∧ (after = [] ∨ endsText after = true) := by
  induction s with
  | nil => exact ⟨[], rfl, .inl rfl⟩
  | cons c s ih =>
      unfold textRun
      split
      · rename_i hends
        exact ⟨c :: s, rfl, .inr hends⟩
      · obtain ⟨after, hs, hafter⟩ := ih
        exact ⟨after, by rw [List.cons_append, ← hs], hafter⟩

/-- Where text can be over: at a tag, a comment or the end of the source. -/
def TextStop (tail : List Char) : Prop :=
  tail = [] ∨ tail.head? = some '<' ∧ endsText tail = true

/-- Text with neither `<` nor an interpolation in it goes on up to its end. -/
theorem not_endsText_append {c : Char} {data tail : List Char} (hlt : '<' ∉ c :: data)
    (hbraces : ¬ ['\x7b', '\x7b'] <:+: c :: data) (htail : TextStop tail) :
    endsText (c :: (data ++ tail)) = false := by
  unfold endsText
  split
  · rename_i rest heq
    obtain ⟨rfl, hbrace⟩ := List.cons.inj heq
    cases data with
    | nil =>
        rw [List.nil_append] at hbrace
        rcases htail with rfl | ⟨hhead, -⟩
        · cases hbrace
        · rw [hbrace] at hhead
          cases hhead
    | cons d data =>
        obtain ⟨rfl, -⟩ := List.cons.inj hbrace
        exact absurd ⟨[], data, rfl⟩ hbraces
  · rename_i heq
    obtain ⟨rfl, -⟩ := List.cons.inj heq
    exact absurd List.mem_cons_self hlt
  · rfl

/-- Text in which nothing else begins is taken whole. -/
theorem textRun_append {data tail : List Char} (hlt : '<' ∉ data)
    (hbraces : ¬ ['\x7b', '\x7b'] <:+: data) (htail : TextStop tail) :
    textRun (data ++ tail) = data := by
  induction data with
  | nil =>
      rcases htail with rfl | ⟨hhead, hends⟩
      · rfl
      · cases tail with
        | nil => cases hhead
        | cons c t => rw [List.nil_append, textRun, if_pos hends]
  | cons c data ih =>
      have hends := not_endsText_append hlt hbraces htail
      rw [List.cons_append, textRun, if_neg (by simp [hends]),
        ih (fun hin => hlt (List.mem_cons_of_mem _ hin)) fun hin => hbraces (List.infix_cons hin)]

/-- Raw content is taken from the front, up to a closing tag. -/
theorem eq_append_of_rawContent? {name s content : List Char}
    (h : rawContent? name s = some content) :
    ∃ after, s = content ++ after ∧ closesHere name after = true := by
  induction s generalizing content with
  | nil => cases h
  | cons c s ih =>
      unfold rawContent? at h
      split at h
      · rename_i hcloses
        obtain rfl := Option.some.inj h
        exact ⟨c :: s, rfl, hcloses⟩
      · obtain ⟨rest, hrest, rfl⟩ := Option.map_eq_some_iff.1 h
        obtain ⟨after, hs, hafter⟩ := ih hrest
        exact ⟨after, by rw [List.cons_append, ← hs], hafter⟩

/-- To find the first closing tag, look at the first `</`, and after it if that is none. -/
theorem rawContent?_eq (name s : List Char) :
    rawContent? name s = match cutAt? ['<', '/'] s with
      | none => none
      | some (before, after) =>
        if closesHere name (['<', '/'] ++ after) then some before
        else (rawContent? name after).map fun content => before ++ (['<', '/'] ++ content) := by
  have hopen : ∀ t, afterPrefix? ['<', '/'] t = none → closesHere name t = false := by
    intro t ht
    simp [closesHere, ht]
  induction s with
  | nil => rfl
  | cons c s ih =>
      rw [cutAt?, rawContent?]
      cases hprefix : afterPrefix? ['<', '/'] (c :: s) with
      | none =>
          rw [hopen _ hprefix, if_neg Bool.false_ne_true, ih]
          cases cutAt? ['<', '/'] s with
          | none => rfl
          | some found =>
              simp only [Option.map_some]
              split
              · rfl
              · rw [Option.map_map]
                rfl
      | some after =>
          have heq : c :: s = '<' :: '/' :: after := eq_append_of_afterPrefix? hprefix
          obtain ⟨rfl, rfl⟩ := List.cons.inj heq
          show (if closesHere name ('<' :: '/' :: after) then _ else _)
            = if closesHere name ('<' :: '/' :: after) then _ else _
          split
          · rfl
          · -- no closing tag begins with the slash
            rw [rawContent?, hopen _ rfl, if_neg Bool.false_ne_true, Option.map_map]
            rfl

theorem eq_append_of_closesHere {name s : List Char} (h : closesHere name s = true) :
    ∃ found more, s = ['<', '/'] ++ (found ++ more) ∧ sameName found name = true ∧
      more.head?.all endsClosingName = true := by
  unfold closesHere at h
  split at h
  · cases h
  · rename_i t ht
    obtain ⟨hsame, hends⟩ := Bool.and_eq_true_iff.1 h
    refine ⟨t.take name.length, t.drop name.length, ?_, hsame, hends⟩
    rw [List.take_append_drop]
    exact eq_append_of_afterPrefix? ht

end AstroTemplate
