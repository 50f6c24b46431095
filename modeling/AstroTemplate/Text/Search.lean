set_option autoImplicit false

/-! # Finding one text in another

`afterPrefix?` removes a known beginning, `cutAt?` cuts at the first occurrence of a pattern, and
`splitAtChar` cuts at every occurrence of a character. Each comes with the equation that says
nothing is lost.
-/

namespace AstroTemplate

/-- What follows `p` in a text that begins with `p`. -/
def afterPrefix? : List Char → List Char → Option (List Char)
  | [], s => some s
  | _ :: _, [] => none
  | p :: ps, c :: cs => if p = c then afterPrefix? ps cs else none

/-- What precedes `p` in a text that ends with `p`. -/
def beforeSuffix? (p s : List Char) : Option (List Char) :=
  (afterPrefix? p.reverse s.reverse).map List.reverse

/-- The text before the first occurrence of `p`, and the text after that occurrence. -/
def cutAt? (p : List Char) : List Char → Option (List Char × List Char)
  | [] => (afterPrefix? p []).map fun after => ([], after)
  | c :: cs =>
    match afterPrefix? p (c :: cs) with
    | some after => some ([], after)
    | none => (cutAt? p cs).map fun (before, after) => (c :: before, after)

/-- Whether `p` occurs in `s`. -/
def occurs (p s : List Char) : Bool := (cutAt? p s).isSome

/-- The pieces of `s` between the occurrences of `sep`; always at least one piece. -/
def splitAtChar (sep : Char) : List Char → List (List Char)
  | [] => [[]]
  | c :: cs =>
    if c = sep then [] :: splitAtChar sep cs
    else
      match splitAtChar sep cs with
      | [] => [[c]]
      | w :: ws => (c :: w) :: ws

/-- The texts `ws` joined, with `sep` between two neighbours. -/
def joinWith (sep : List Char) : List (List Char) → List Char
  | [] => []
  | [w] => w
  | w :: ws => w ++ sep ++ joinWith sep ws

theorem eq_append_of_afterPrefix? {p s t : List Char} (h : afterPrefix? p s = some t) :
    s = p ++ t := by
  fun_induction afterPrefix? p s with
  | case1 => simp_all
  | case2 => simp at h
  | case3 p ps cs ih => simp [ih h]
  | case4 => simp at h

@[simp] theorem afterPrefix?_append (p t : List Char) : afterPrefix? p (p ++ t) = some t := by
  induction p with
  | nil => rfl
  | cons c p ih => simp [afterPrefix?, ih]

theorem eq_append_of_cutAt? {p s before after : List Char}
    (h : cutAt? p s = some (before, after)) : s = before ++ p ++ after := by
  induction s generalizing before with
  | nil =>
    obtain ⟨t, ht, he⟩ := Option.map_eq_some_iff.1 h
    obtain ⟨rfl, rfl⟩ := Prod.mk.inj he
    simpa using eq_append_of_afterPrefix? ht
  | cons c s ih =>
    rw [cutAt?] at h
    split at h
    · rename_i t ht
      obtain ⟨rfl, rfl⟩ := Prod.mk.inj (Option.some.inj h)
      simpa using eq_append_of_afterPrefix? ht
    · obtain ⟨⟨b, a⟩, hb, he⟩ := Option.map_eq_some_iff.1 h
      obtain ⟨rfl, rfl⟩ := Prod.mk.inj he
      simp [ih hb]

/-- The text after an occurrence is no longer than the whole text. -/
theorem length_after_le {p s before after : List Char}
    (h : cutAt? p s = some (before, after)) : after.length + p.length ≤ s.length := by
  rw [eq_append_of_cutAt? h]
  simp
  omega

end AstroTemplate
