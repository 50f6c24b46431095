set_option autoImplicit false

/-! # Positions as byte offsets

Positions in a text count the bytes of its UTF-8 form. `byteLength` measures a text, and
`dropBytes?` and `takeBytes?` cut it at a position. A cut that would fall inside a character or
past the end of the text does not exist.
-/

namespace AstroTemplate

/-- The number of bytes of `s` in UTF-8. -/
def byteLength : List Char → Nat
  | [] => 0
  | c :: cs => c.utf8Size + byteLength cs

/-- The text `s` without its first `n` bytes. -/
def dropBytes? : Nat → List Char → Option (List Char)
  | 0, s => some s
  | _ + 1, [] => none
  | n + 1, c :: cs =>
    if c.utf8Size ≤ n + 1 then dropBytes? (n + 1 - c.utf8Size) cs else none
termination_by _ s => s

/-- The first `n` bytes of `s`. -/
def takeBytes? : Nat → List Char → Option (List Char)
  | 0, _ => some []
  | _ + 1, [] => none
  | n + 1, c :: cs =>
    if c.utf8Size ≤ n + 1 then (takeBytes? (n + 1 - c.utf8Size) cs).map (c :: ·) else none
termination_by _ s => s

@[simp] theorem byteLength_nil : byteLength [] = 0 := rfl

@[simp] theorem byteLength_cons (c : Char) (s : List Char) :
    byteLength (c :: s) = c.utf8Size + byteLength s := rfl

@[simp] theorem byteLength_append (s t : List Char) :
    byteLength (s ++ t) = byteLength s + byteLength t := by
  induction s with
  | nil => simp
  | cons c s ih => simp [ih, Nat.add_assoc]

theorem byteLength_eq_zero {s : List Char} : byteLength s = 0 ↔ s = [] := by
  cases s with
  | nil => simp
  | cons c s => simp [Nat.ne_of_gt c.utf8Size_pos]

/-- Dropping a text that stands in front leaves what follows it. -/
theorem dropBytes?_append (s t : List Char) : dropBytes? (byteLength s) (s ++ t) = some t := by
  induction s with
  | nil => simp [dropBytes?]
  | cons c s ih =>
    obtain ⟨n, hn⟩ : ∃ n, byteLength (c :: s) = n + 1 :=
      ⟨byteLength (c :: s) - 1, by have := c.utf8Size_pos; simp; omega⟩
    have hsub : n + 1 - c.utf8Size = byteLength s := by simp at hn; omega
    have hle : c.utf8Size ≤ n + 1 := by simp at hn; omega
    rw [hn, List.cons_append, dropBytes?, if_pos hle, hsub, ih]

/-- Taking a text that stands in front gives that text. -/
theorem takeBytes?_append (s t : List Char) : takeBytes? (byteLength s) (s ++ t) = some s := by
  induction s with
  | nil => simp [takeBytes?]
  | cons c s ih =>
    obtain ⟨n, hn⟩ : ∃ n, byteLength (c :: s) = n + 1 :=
      ⟨byteLength (c :: s) - 1, by have := c.utf8Size_pos; simp; omega⟩
    have hsub : n + 1 - c.utf8Size = byteLength s := by simp at hn; omega
    have hle : c.utf8Size ≤ n + 1 := by simp at hn; omega
    rw [hn, List.cons_append, takeBytes?, if_pos hle, hsub, ih]
    rfl

/-- What is dropped is a text of that length that stood in front. -/
theorem eq_append_of_dropBytes? {n : Nat} {s t : List Char} (h : dropBytes? n s = some t) :
    ∃ before, s = before ++ t ∧ byteLength before = n := by
  fun_induction dropBytes? n s with
  | case1 s => exact ⟨[], by simpa using h, rfl⟩
  | case2 => cases h
  | case3 n c s hle ih =>
    obtain ⟨before, hs, hn⟩ := ih h
    exact ⟨c :: before, by rw [hs, List.cons_append], by rw [byteLength_cons]; omega⟩
  | case4 => cases h

/-- What is taken is a text of that length that stands in front. -/
theorem eq_append_of_takeBytes? {n : Nat} {s t : List Char} (h : takeBytes? n s = some t) :
    ∃ after, s = t ++ after ∧ byteLength t = n := by
  fun_induction takeBytes? n s generalizing t with
  | case1 s =>
    obtain rfl := Option.some.inj h
    exact ⟨s, rfl, rfl⟩
  | case2 => cases h
  | case3 n c s hle ih =>
    obtain ⟨u, hu, rfl⟩ := Option.map_eq_some_iff.1 h
    obtain ⟨after, hs, hn⟩ := ih hu
    exact ⟨after, by rw [hs, List.cons_append], by rw [byteLength_cons]; omega⟩
  | case4 => cases h

end AstroTemplate
