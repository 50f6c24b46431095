import AstroTemplate.Proofs.Offsets

set_option autoImplicit false

/-! # Text searched byte by byte

The end of a text can be found by looking at bytes, from any byte of its first character on. The
characters that text can end before are all of one byte, and all the bytes of a longer character
are greater than those, so the search stops at the beginning of a character
(`TokenReader.textStop_eq`).
-/

namespace AstroTemplate

/-! ## The bytes of a character -/

/-- A character has one byte, which is its code, or several, which are no ASCII codes. -/
theorem utf8EncodeChar_cases (c : Char) :
    c.toNat < 128 ∧ String.utf8EncodeChar c = [UInt8.ofNat c.toNat] ∨
      128 ≤ c.toNat ∧ ∃ b bs, String.utf8EncodeChar c = b :: bs ∧
        ∀ x ∈ b :: bs, 128 ≤ x.toNat := by
  have hval : c.val.toNat = c.toNat := rfl
  unfold String.utf8EncodeChar
  simp only [hval]
  split
  · exact .inl ⟨by omega, rfl⟩
  · refine .inr ⟨by omega, ?_⟩
    split
    · exact ⟨_, _, rfl, by simp; omega⟩
    · split
      · exact ⟨_, _, rfl, by simp; omega⟩
      · exact ⟨_, _, rfl, by simp; omega⟩

@[simp] theorem utf8_cons (c : Char) (s : List Char) :
    utf8 (c :: s) = String.utf8EncodeChar c ++ utf8 s := rfl

theorem utf8_append (s t : List Char) : utf8 (s ++ t) = utf8 s ++ utf8 t := List.flatMap_append

theorem length_utf8 (s : List Char) : (utf8 s).length = byteLength s := by
  induction s with
  | nil => rfl
  | cons c s ih => rw [utf8_cons, List.length_append, ih, String.length_utf8EncodeChar,
      byteLength_cons]

/-- A test on ASCII characters can be made on the first byte. -/
theorem any_head_utf8 {q : UInt8 → Bool} {p : Char → Bool} (s : List Char)
    (hlow : ∀ n < 128, q (UInt8.ofNat n) = p (Char.ofNat n))
    (hq : ∀ b : UInt8, 128 ≤ b.toNat → q b = false)
    (hp : ∀ c : Char, 128 ≤ c.toNat → p c = false) :
    (utf8 s).head?.any q = s.head?.any p := by
  cases s with
  | nil => rfl
  | cons c s =>
      rw [utf8_cons]
      rcases utf8EncodeChar_cases c with ⟨hc, hbytes⟩ | ⟨hc, b, bs, hbytes, hhigh⟩
      · rw [hbytes]
        show q (UInt8.ofNat c.toNat) = p c
        rw [hlow _ hc, Char.ofNat_toNat]
      · rw [hbytes]
        show q b = p c
        rw [hq b (hhigh b List.mem_cons_self), hp c hc]

theorem not_isAlpha_of_le {c : Char} (h : 128 ≤ c.toNat) : c.isAlpha = false := by
  have hval : c.val.toNat = c.toNat := rfl
  have hupper : 'Z'.val.toNat = 90 := rfl
  have hlower : 'z'.val.toNat = 122 := rfl
  show (decide ('A'.val ≤ c.val ∧ c.val ≤ 'Z'.val)
    || decide ('a'.val ≤ c.val) && decide (c.val ≤ 'z'.val)) = false
  simp only [Bool.or_eq_false_iff, Bool.and_eq_false_imp, decide_eq_true_eq,
    decide_eq_false_iff_not, UInt32.le_iff_toNat_le, hval]
  omega

theorem beq_char_of_le {c : Char} (h : 128 ≤ c.toNat) (x : Char) (hx : x.toNat < 128) :
    (c == x) = false := by
  refine beq_false_of_ne ?_
  rintro rfl
  omega

theorem beq_byte_of_le {b : UInt8} (h : 128 ≤ b.toNat) (x : UInt8) (hx : x.toNat < 128) :
    (b == x) = false := by
  refine beq_false_of_ne ?_
  rintro rfl
  omega

theorem isAlphaByte_of_le {b : UInt8} (h : 128 ≤ b.toNat) : isAlphaByte b = false := by
  simp only [isAlphaByte, Bool.or_eq_false_iff, Bool.and_eq_false_imp, decide_eq_true_eq,
    decide_eq_false_iff_not, UInt8.le_iff_toNat_le]
  constructor
  · intro _
    show ¬ b.toNat ≤ 90
    omega
  · intro _
    show ¬ b.toNat ≤ 122
    omega

theorem any_isAlphaByte_utf8 (s : List Char) :
    (utf8 s).head?.any isAlphaByte = s.head?.any (·.isAlpha) :=
  any_head_utf8 s (by decide +kernel) (fun _ => isAlphaByte_of_le) (fun _ => not_isAlpha_of_le)

/-! ## The end of text -/

theorem endsText_cons (c : Char) (s : List Char) :
    endsText (c :: s) = (c == '\x7b' && s.head?.any (· == '\x7b') ||
      c == '<' && s.head?.any fun x => x.isAlpha || x == '/' || x == '!') := by
  unfold endsText
  split
  · rename_i heq
    obtain ⟨rfl, rfl⟩ := List.cons.inj heq
    rfl
  · rename_i heq
    obtain ⟨rfl, rfl⟩ := List.cons.inj heq
    rfl
  · cases s <;> simp_all

theorem endsTextBytes_cons (b : UInt8) (bs : List UInt8) :
    endsTextBytes (b :: bs) = (b == 123 && bs.head?.any (· == 123) ||
      b == 60 && bs.head?.any fun x => isAlphaByte x || x == 47 || x == 33) := by
  unfold endsTextBytes
  split
  · rename_i heq
    obtain ⟨rfl, rfl⟩ := List.cons.inj heq
    rfl
  · rename_i heq
    obtain ⟨rfl, rfl⟩ := List.cons.inj heq
    rfl
  · cases bs <;> simp_all

/-- A character that is none of ASCII does not end text. -/
theorem endsText_of_le {c : Char} (h : 128 ≤ c.toNat) (s : List Char) :
    endsText (c :: s) = false := by
  rw [endsText_cons, beq_char_of_le h '\x7b' (by decide), beq_char_of_le h '<' (by decide)]
  rfl

theorem endsTextBytes_of_le {b : UInt8} (h : 128 ≤ b.toNat) (bs : List UInt8) :
    endsTextBytes (b :: bs) = false := by
  rw [endsTextBytes_cons, beq_byte_of_le h 123 (by decide), beq_byte_of_le h 60 (by decide)]
  rfl

theorem endsTextBytes_utf8 (s : List Char) : endsTextBytes (utf8 s) = endsText s := by
  -- the end of a text shows in two characters, and each of them in its first byte
  have hbrace : ∀ t : List Char, (utf8 t).head?.any (· == 123) = t.head?.any (· == '\x7b') := by
    intro t
    exact any_head_utf8 t (by decide +kernel) (fun b hb => beq_byte_of_le hb 123 (by decide))
      (fun c hc => beq_char_of_le hc '\x7b' (by decide))
  have hangle : ∀ t : List Char, (utf8 t).head?.any (· == 60) = t.head?.any (· == '<') := by
    intro t
    exact any_head_utf8 t (by decide +kernel) (fun b hb => beq_byte_of_le hb 60 (by decide))
      (fun c hc => beq_char_of_le hc '<' (by decide))
  have hopens : ∀ t : List Char,
      (utf8 t).head?.any (fun b => isAlphaByte b || b == 47 || b == 33)
        = t.head?.any fun x => x.isAlpha || x == '/' || x == '!' := by
    intro t
    refine any_head_utf8 t (by decide +kernel) ?_ ?_
    · intro b hb
      rw [isAlphaByte_of_le hb, beq_byte_of_le hb 47 (by decide), beq_byte_of_le hb 33 (by decide)]
      rfl
    · intro x hx
      rw [not_isAlpha_of_le hx, beq_char_of_le hx '/' (by decide),
        beq_char_of_le hx '!' (by decide)]
      rfl
  cases s with
  | nil => rfl
  | cons c s =>
      rw [utf8_cons]
      rcases utf8EncodeChar_cases c with ⟨hc, hbytes⟩ | ⟨hc, b, bs, hbytes, hhigh⟩
      · have hfirst := hbrace [c]
        have hfirst' := hangle [c]
        rw [utf8_cons, hbytes] at hfirst hfirst'
        rw [hbytes, List.singleton_append, endsTextBytes_cons, endsText_cons, hbrace, hopens]
        simp only [List.singleton_append, List.head?_cons, Option.any_some] at hfirst hfirst'
        rw [hfirst, hfirst']
      · rw [hbytes, List.cons_append, endsText_of_le hc,
          endsTextBytes_of_le (hhigh b List.mem_cons_self)]

/-- Bytes that are none of ASCII belong to the text. -/
theorem textBytes_append {high : List UInt8} (h : ∀ b ∈ high, 128 ≤ b.toNat) (bs : List UInt8) :
    textBytes (high ++ bs) = high.length + textBytes bs := by
  induction high with
  | nil => rw [List.nil_append, List.length_nil, Nat.zero_add]
  | cons b high ih =>
      rw [List.cons_append, textBytes, endsTextBytes_of_le (h b List.mem_cons_self),
        if_neg Bool.false_ne_true, ih fun x hx => h x (List.mem_cons_of_mem _ hx),
        List.length_cons]
      omega

theorem textBytes_utf8 (s : List Char) : textBytes (utf8 s) = byteLength (textRun s) := by
  induction s with
  | nil => rfl
  | cons c s ih =>
      have hends := endsTextBytes_utf8 (c :: s)
      have hsize := String.length_utf8EncodeChar c
      rw [utf8_cons] at hends
      rw [textRun, utf8_cons]
      rcases utf8EncodeChar_cases c with ⟨hc, hbytes⟩ | ⟨hc, b, bs, hbytes, hhigh⟩
      · rw [hbytes] at hsize
        rw [hbytes, List.singleton_append] at hends ⊢
        rw [textBytes, hends]
        split
        · rfl
        · rw [byteLength_cons, ih, ← hsize, List.length_singleton, Nat.add_comm]
      · rw [endsText_of_le hc, if_neg Bool.false_ne_true, byteLength_cons, hbytes,
          textBytes_append hhigh, ih, ← hbytes, hsize]

namespace TokenReader

variable {source : List Char} {c : Cursor}

/-- The bytes after the first byte at a place. -/
theorem drop_utf8 {x : Char} {t : List Char} (hc : c.LiesIn source) (hrest : c.rest = x :: t) :
    (utf8 source).drop (c.offset + 1) = (String.utf8EncodeChar x).tail ++ utf8 t := by
  obtain ⟨before, hs, ho⟩ := Cursor.liesIn_iff.1 hc
  rw [ho, ← length_utf8, hs, hrest, utf8_append, ← List.drop_drop, List.drop_left, utf8_cons,
    List.drop_one, List.tail_append_of_ne_nil]
  rw [← List.length_pos_iff, String.length_utf8EncodeChar]
  exact x.utf8Size_pos

/-- Text ends where it ends for a search character by character. -/
theorem textStop_eq {x : Char} {t : List Char} (hc : c.LiesIn source) (hrest : c.rest = x :: t) :
    textStop source c.offset = c.offset + byteLength (x :: textRun t) := by
  have hsize := String.length_utf8EncodeChar x
  have hpos := x.utf8Size_pos
  -- the search begins inside a character of several bytes, and does not stop there
  have hhigh : ∀ b ∈ (String.utf8EncodeChar x).tail, 128 ≤ b.toNat := by
    intro b hb
    rcases utf8EncodeChar_cases x with ⟨-, hbytes⟩ | ⟨-, y, ys, hbytes, hhigh⟩
    · rw [hbytes] at hb
      cases hb
    · rw [hbytes] at hb
      exact hhigh b (List.mem_cons_of_mem y hb)
  calc textStop source c.offset
    _ = c.offset + 1 + textBytes ((String.utf8EncodeChar x).tail ++ utf8 t) := by
        rw [textStop, drop_utf8 hc hrest]
    _ = c.offset + 1 + (x.utf8Size - 1 + byteLength (textRun t)) := by
        rw [textBytes_append hhigh, textBytes_utf8, List.length_tail, hsize]
    _ = c.offset + byteLength (x :: textRun t) := by
        rw [byteLength_cons]
        omega

/-- At a place whose offset is not beyond the greatest one, the next byte is that of the next
character. -/
theorem opensElement_eq {w : Walk} (hw : w.At source c) (hle : c.offset ≤ maxOffset)
    (hkind : c.kind = .tagOpen) : opensElement source w = c.opensElement := by
  obtain ⟨t, hrest⟩ := c.rest_of_kind hkind rfl
  rw [opensElement, hw.offset_eq_min, Nat.min_eq_left hle, drop_utf8 hw.lies hrest]
  show (utf8 t).head?.any isAlphaByte = _
  rw [any_isAlphaByte_utf8, Cursor.opensElement, hrest]
  cases t <;> rfl

end TokenReader

end AstroTemplate
