import AstroTemplate.Text.Span

set_option autoImplicit false

/-! # Spans that tile a range of bytes

`Tiled start stop parts gaps` says that the spans `parts` and the spans `gaps`, each list in its
order, cut the bytes from `start` up to `stop` into pieces that touch and are not empty. Then every
byte lies in exactly one of them (`Tiled.countP_eq_one`). `InOrder start stop spans` asks for less:
the spans follow each other in the range, and may leave bytes out.
-/

namespace AstroTemplate

/-- The two lists of spans, each in order, together cut the bytes from `start` up to `stop` into
touching pieces, none of them empty. -/
inductive Tiled : Nat → Nat → List Span → List Span → Prop
  | nil (a : Nat) : Tiled a a [] []
  | part {a b c : Nat} {parts gaps : List Span} (hlt : a < b) (rest : Tiled b c parts gaps) :
      Tiled a c (⟨a, b⟩ :: parts) gaps
  | gap {a b c : Nat} {parts gaps : List Span} (hlt : a < b) (rest : Tiled b c parts gaps) :
      Tiled a c parts (⟨a, b⟩ :: gaps)

/-- The spans follow each other between `start` and `stop`, none of them empty. -/
def InOrder : Nat → Nat → List Span → Prop
  | start, stop, [] => start ≤ stop
  | start, stop, span :: rest =>
    start ≤ span.start ∧ span.start < span.stop ∧ InOrder span.stop stop rest

/-- Whether the byte at `offset` lies in the span. -/
def Span.covers (s : Span) (offset : Nat) : Bool := s.start ≤ offset && offset < s.stop

namespace Tiled

variable {a b c : Nat} {parts gaps : List Span}

theorem le (h : Tiled a b parts gaps) : a ≤ b := by
  induction h with
  | nil a => exact Nat.le_refl a
  | part hlt _ ih => omega
  | gap hlt _ ih => omega

/-- The first part begins in the range. -/
theorem start_le {p : Span} (h : Tiled a b parts gaps) (hp : parts.head? = some p) :
    a ≤ p.start := by
  induction h with
  | nil a => cases hp
  | part hlt _ _ =>
      obtain rfl := Option.some.inj hp
      exact Nat.le_refl _
  | gap hlt _ ih =>
      have := ih hp
      omega

/-- The second part begins where the first one has ended. -/
theorem stop_le {p q : Span} (h : Tiled a b (p :: parts) gaps) (hq : parts.head? = some q) :
    p.stop ≤ q.start := by
  generalize hall : p :: parts = all at h
  induction h with
  | nil a => cases hall
  | part hlt rest _ =>
      obtain ⟨rfl, rfl⟩ := List.cons.inj hall
      exact rest.start_le hq
  | gap _ _ ih => exact ih hall

/-- One more part at the end. -/
theorem snoc_part (h : Tiled a b parts gaps) (hlt : b < c) :
    Tiled a c (parts ++ [⟨b, c⟩]) gaps := by
  induction h with
  | nil a => exact part hlt (nil c)
  | part h' _ ih => exact part h' (ih hlt)
  | gap h' _ ih => exact gap h' (ih hlt)

/-- One more gap at the end. -/
theorem snoc_gap (h : Tiled a b parts gaps) (hlt : b < c) :
    Tiled a c parts (gaps ++ [⟨b, c⟩]) := by
  induction h with
  | nil a => exact gap hlt (nil c)
  | part h' _ ih => exact part h' (ih hlt)
  | gap h' _ ih => exact gap h' (ih hlt)

/-- Nothing tiles an empty range. -/
theorem eq_nil (h : Tiled a a parts gaps) : parts = [] ∧ gaps = [] := by
  cases h with
  | nil => exact ⟨rfl, rfl⟩
  | part hlt rest => exact absurd rest.le (Nat.not_le.2 hlt)
  | gap hlt rest => exact absurd rest.le (Nat.not_le.2 hlt)

/-- A last part that ends where the range ends may be made longer. -/
theorem stretch_last {p : Nat} (h : Tiled a b (parts ++ [⟨p, b⟩]) gaps) (hlt : b < c) :
    Tiled a c (parts ++ [⟨p, c⟩]) gaps := by
  generalize hall : parts ++ [⟨p, b⟩] = all at h
  induction h generalizing parts with
  | nil a => exact absurd hall (by simp)
  | @part a b' b all gaps h' rest ih =>
      cases parts with
      | nil =>
          obtain ⟨hpart, hnil⟩ := List.cons.inj hall
          obtain ⟨rfl, rfl⟩ := Span.mk.inj hpart
          -- the rest tiles nothing, so the stretched part is the whole range
          obtain ⟨-, rfl⟩ := rest.eq_nil
          exact part (Nat.lt_trans h' hlt) (nil c)
      | cons q parts =>
          obtain ⟨rfl, htail⟩ := List.cons.inj hall
          exact part h' (ih hlt htail)
  | gap h' _ ih => exact gap h' (ih hlt hall)

/-- Nothing lies in front of the range. -/
theorem countP_of_lt {p : Nat} (h : Tiled a b parts gaps) (hp : p < a) :
    (parts ++ gaps).countP (·.covers p) = 0 := by
  induction h with
  | nil a => rfl
  | @part a _ _ _ _ hlt _ ih =>
      have ha : ¬ a ≤ p := by omega
      rw [List.cons_append, List.countP_cons, ih (by omega)]
      simp [Span.covers, ha]
  | @gap a _ _ _ _ hlt _ ih =>
      have ha : ¬ a ≤ p := by omega
      rw [List.perm_middle.countP_eq, List.countP_cons, ih (by omega)]
      simp [Span.covers, ha]

/-- Every byte of the range lies in exactly one of the spans. -/
theorem countP_eq_one {p : Nat} (h : Tiled a b parts gaps) (ha : a ≤ p) (hb : p < b) :
    (parts ++ gaps).countP (·.covers p) = 1 := by
  induction h with
  | nil a => omega
  | @part a b' b parts gaps hlt rest ih =>
      rw [List.cons_append, List.countP_cons]
      by_cases hp : p < b'
      · rw [rest.countP_of_lt hp]
        simp [Span.covers, ha, hp]
      · rw [ih (by omega) hb]
        simp [Span.covers, hp]
  | @gap a b' b parts gaps hlt rest ih =>
      rw [List.perm_middle.countP_eq, List.countP_cons]
      by_cases hp : p < b'
      · rw [rest.countP_of_lt hp]
        simp [Span.covers, ha, hp]
      · rw [ih (by omega) hb]
        simp [Span.covers, hp]

end Tiled

/-- The range may be made wider at either end. -/
theorem InOrder.widen {a b a' b' : Nat} {spans : List Span} (h : InOrder a b spans)
    (ha : a' ≤ a) (hb : b ≤ b') : InOrder a' b' spans := by
  induction spans generalizing a a' with
  | nil => exact Nat.le_trans ha (Nat.le_trans h hb)
  | cons s spans ih =>
      obtain ⟨hs, hne, hrest⟩ := h
      exact ⟨Nat.le_trans ha hs, hne, ih hrest (Nat.le_refl _)⟩

end AstroTemplate
