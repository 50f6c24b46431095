import AstroTemplate.Proofs.Moves
import Mathlib.Logic.Function.Iterate

set_option autoImplicit false

/-! # Steps and runs of the reader

What a single step of the reader can be (`Reader.step_cases`), what the text under the cursor looks
like in each case, and how a run is made of steps: it is an iterate of `Reader.step` that ends with
everything read and closed (`Reader.run_eq_iterate`), so what every step keeps, the run keeps
(`Reader.run_induction`).
-/

namespace AstroTemplate

/-! ## The text of a token -/

/-- The text of a token, where its kind fixes it. -/
def TokenKind.spelling? : TokenKind → Option (List Char)
  | commentOpen => some ['<', '!', '-', '-']
  | closingTagOpen => some ['<', '/']
  | tagOpen => some ['<']
  | selfClose => some ['/', '>']
  | tagClose => some ['>']
  | slash => some ['/']
  | equals => some ['=']
  | doubleQuote => some ['"']
  | singleQuote => some ['\'']
  | mustacheOpen => some ['\x7b', '\x7b']
  | mustacheClose => some ['\x7d', '\x7d']
  | identifier => none
  | whitespace => none
  | text => none
  | endOfFile => none

theorem firstToken?_spelling {s t r p : List Char} {k : TokenKind}
    (h : firstToken? s = some (k, t, r)) (hk : k.spelling? = some p) : t = p := by
  unfold firstToken? at h
  split at h
  · cases h
  all_goals try
    obtain ⟨rfl, rfl, rfl⟩ : _ ∧ _ ∧ _ := by simpa using h
    cases hk <;> rfl
  split at h
  · obtain ⟨rfl, -⟩ := Prod.mk.inj (Option.some.inj h)
    cases hk
  · obtain ⟨rfl, -⟩ := Prod.mk.inj (Option.some.inj h)
    split at hk <;> cases hk

/-- A cursor on a token of fixed spelling has that spelling in front of it. -/
theorem Cursor.rest_of_kind {c : Cursor} {k : TokenKind} {p : List Char} (h : c.kind = k)
    (hk : k.spelling? = some p) : ∃ after, c.rest = p ++ after := by
  unfold Cursor.kind at h
  split at h
  · rename_i kind t r htoken
    subst h
    obtain ⟨hs, -⟩ := firstToken?_eq_some htoken
    exact ⟨r, by rw [hs, firstToken?_spelling htoken hk]⟩
  · subst h
    cases hk

theorem Cursor.tokenSpan_of_kind {c : Cursor} {k : TokenKind} {p : List Char} (h : c.kind = k)
    (hk : k.spelling? = some p) : c.tokenSpan = c.spanTo (c.drop p.length) := by
  obtain ⟨after, hrest⟩ := rest_of_kind h hk
  have hoffset := (over_drop_length hrest).2
  unfold kind at h
  split at h
  · rename_i kind t r htoken
    subst h
    simp only [tokenSpan, htoken, spanTo, hoffset, firstToken?_spelling htoken hk]
  · subst h
    cases hk

/-- A token that begins with `<` begins a tag, a closing tag or a comment. -/
theorem Cursor.kind_of_lt {c : Cursor} (h : c.rest.head? = some '<') :
    c.kind = .commentOpen ∨ c.kind = .closingTagOpen ∨ c.kind = .tagOpen := by
  unfold kind
  split
  · rename_i htoken
    unfold firstToken? at htoken
    split at htoken
    all_goals simp_all
  · rename_i htoken
    rw [firstToken?_eq_none.1 htoken] at h
    cases h

theorem Cursor.kind_of_slash {c : Cursor} {t : List Char} (h : c.rest = '/' :: t) :
    c.kind = if t.head? = some '>' then .selfClose else .slash := by
  rw [kind, h]
  cases t with
  | nil => rfl
  | cons x t =>
      by_cases hx : x = '>'
      · subst hx
        rfl
      · simp [firstToken?, hx]

/-- Whether nothing but text begins under the cursor. -/
def Cursor.startsText (c : Cursor) : Bool :=
  match c.kind with
  | .endOfFile | .closingTagOpen | .commentOpen | .mustacheOpen => false
  | .tagOpen => !c.opensElement
  | _ => true

theorem Cursor.rest_ne_nil_of_startsText {c : Cursor} (h : c.startsText = true) :
    c.rest ≠ [] := by
  refine Reader.rest_ne_nil_of_kind ?_
  intro hkind
  simp [startsText, hkind] at h

/-- Text begins where text may go on. -/
theorem Cursor.startsText_of_not_endsText {c : Cursor} (hne : c.rest ≠ [])
    (h : endsText c.rest = false) : c.startsText = true := by
  unfold startsText
  split
  · rename_i hkind
    exact absurd (Reader.kind_eq_endOfFile.1 hkind) hne
  · rename_i hkind
    obtain ⟨after, hafter⟩ := c.rest_of_kind hkind rfl
    simp [hafter, endsText] at h
  · rename_i hkind
    obtain ⟨after, hafter⟩ := c.rest_of_kind hkind rfl
    simp [hafter, endsText] at h
  · rename_i hkind
    obtain ⟨after, hafter⟩ := c.rest_of_kind hkind rfl
    simp [hafter, endsText] at h
  · unfold opensElement
    split
    · rename_i first t hrest
      rw [hrest] at h
      simp only [endsText, Bool.or_eq_false_iff] at h
      rw [h.1.1, Bool.not_false]
    · rfl
  · rfl

namespace Reader

/-! ## One step -/

/-- What a step can be. To show something of the reader after a step, show it of each thing that
can be read, of each way to close an element, and of a reader that is done. -/
theorem step_cases {mode : WhitespaceMode} {r : Reader} {P : Reader → Prop}
    (done : r.cursor.rest = [] → r.stack = [] → P r)
    (text : r.cursor.startsText = true → P r.readText)
    (comment : r.cursor.kind = .commentOpen → P r.readComment)
    (interpolation : r.cursor.kind = .mustacheOpen → P r.readInterpolation)
    (element : r.cursor.kind = .tagOpen → r.cursor.opensElement = true → P r.readElement)
    (skip : r.cursor.kind = .closingTagOpen →
      (∀ e ∈ r.stack, sameName e.name r.cursor.closingName = false) → P r.skipClosingTag)
    (close : r.cursor.kind = .closingTagOpen → ∀ e outer, r.stack = e :: outer →
      sameName e.name r.cursor.closingName = true → P (r.closeElement mode e outer))
    (abandon : ∀ e outer, r.stack = e :: outer →
      (r.cursor.rest = [] ∨
        r.cursor.kind = .closingTagOpen ∧ sameName e.name r.cursor.closingName = false) →
      P (r.abandonElement mode e outer)) :
    P (r.step mode) := by
  unfold step
  split
  · rename_i hkind
    have hrest := kind_eq_endOfFile.1 hkind
    split
    · rename_i hstack
      exact done hrest hstack
    · rename_i e outer hstack
      exact abandon e outer hstack (.inl hrest)
  · rename_i hkind
    unfold readClosing
    split
    · rename_i hstack
      refine skip hkind ?_
      intro e he
      rw [hstack] at he
      cases he
    · rename_i e outer hstack
      split
      · rename_i hsame
        exact close hkind e outer hstack hsame
      · rename_i hsame
        have hsame' : sameName e.name r.cursor.closingName = false := by simpa using hsame
        -- the tag closes an element further out, or none at all
        split
        · exact abandon e outer hstack (.inr ⟨hkind, hsame'⟩)
        · rename_i houter
          refine skip hkind ?_
          intro f hf
          rw [hstack] at hf
          rcases List.mem_cons.1 hf with rfl | hf
          · exact hsame'
          · simpa using List.any_eq_false.1 (by simpa using houter) f hf
  · rename_i hkind
    exact comment hkind
  · rename_i hkind
    exact interpolation hkind
  · rename_i hkind
    split
    · rename_i hopens
      exact element hkind hopens
    · rename_i hopens
      exact text (by simp [Cursor.startsText, hkind, hopens])
  · rename_i hend hclosing hcomment hmustache htag
    refine text ?_
    unfold Cursor.startsText
    split <;> simp_all

theorem step_of_startsText {mode : WhitespaceMode} {r : Reader}
    (h : r.cursor.startsText = true) : r.step mode = r.readText := by
  unfold Cursor.startsText at h
  unfold step
  split <;> simp_all

/-! ## Adding nodes and errors -/

@[simp] theorem pushText_errors (r : Reader) (data : List Char) (next : Cursor) :
    (r.pushText data next).errors = r.errors := by
  unfold pushText
  simp only
  split
  · split <;> rfl
  · rfl

/-- Text is added as a node of its own, or it makes the text before it longer if it touches it. -/
theorem pushText_nodes (r : Reader) (data : List Char) (next : Cursor) :
    ((r.pushText data next).nodes
          = .text (r.cursor.spanTo next) data (isTagBlank data) :: r.nodes ∧
        ∀ node ∈ r.nodes.head?, node.sort = .text →
          node.span.stop ≠ (r.cursor.spanTo next).start) ∨
      ∃ before old blank older, r.nodes = .text before old blank :: older ∧
        before.stop = (r.cursor.spanTo next).start ∧
        (r.pushText data next).nodes
          = .text (before.cover (r.cursor.spanTo next)) (old ++ data)
              (blank && isTagBlank data) :: older := by
  unfold pushText
  simp only
  split
  · rename_i before old blank older hnodes
    split
    · rename_i htouch
      exact .inr ⟨before, old, blank, older, hnodes, htouch, rfl⟩
    · rename_i hapart
      refine .inl ⟨rfl, fun node hnode _ => ?_⟩
      rw [hnodes, List.head?_cons, Option.mem_some_iff] at hnode
      subst hnode
      exact hapart
  · rename_i hnone
    refine .inl ⟨rfl, fun node hnode htext => ?_⟩
    obtain ⟨older, hnodes⟩ := List.head?_eq_some_iff.1 hnode
    cases node with
    | text span data blank => exact absurd hnodes (hnone span data blank older)
    | interpolation => cases htext
    | comment => cases htext
    | element => cases htext

/-- Text that follows no text is a node of its own. -/
theorem pushText_eq_push {r : Reader} (h : r.nodes.head?.map Node.sort ≠ some .text)
    (data : List Char) (next : Cursor) :
    r.pushText data next = r.push (.text (r.cursor.spanTo next) data (isTagBlank data)) next := by
  unfold pushText
  simp only
  split
  · rename_i hnodes
    rw [hnodes] at h
    exact absurd rfl h
  · rfl

@[simp] theorem report_cursor (r : Reader) (errors : List ParseError) :
    (r.report errors).cursor = r.cursor := rfl

@[simp] theorem report_nodes (r : Reader) (errors : List ParseError) :
    (r.report errors).nodes = r.nodes := rfl

@[simp] theorem report_stack (r : Reader) (errors : List ParseError) :
    (r.report errors).stack = r.stack := rfl

theorem report_report (r : Reader) (errors more : List ParseError) :
    (r.report errors).report more = r.report (errors ++ more) := by
  simp [report]

@[simp] theorem report_errors_reverse (r : Reader) (errors : List ParseError) :
    (r.report errors).errors.reverse = r.errors.reverse ++ errors := by
  simp [report]

@[simp] theorem report_nil (r : Reader) : r.report [] = r := rfl

/-! ## Every step moves on -/

theorem reaches_step (mode : WhitespaceMode) (r : Reader) :
    r.cursor.Reaches (r.step mode).cursor := by
  apply step_cases (P := fun next => r.cursor.Reaches next.cursor)
  case done =>
    intro _ _
    exact Cursor.Reaches.refl r.cursor
  case text =>
    intro _
    rw [readText, pushText_cursor]
    exact r.cursor.over_text.reaches
  case comment =>
    intro _
    have hbody := (r.cursor.over_drop 4).reaches
    unfold readComment
    simp only
    split
    · rename_i hcut
      exact hbody.trans (Cursor.over_of_cutAt? hcut).reaches
    · exact hbody.trans (Cursor.over_toEnd _).reaches
  case interpolation =>
    intro _
    have hinner := (r.cursor.over_drop 2).reaches
    unfold readInterpolation
    simp only
    split
    · rename_i hcut
      exact hinner.trans (Cursor.over_of_cutAt? hcut).reaches
    · rw [pushText_cursor]
      exact hinner
  case element =>
    intro _ _
    have htag := reaches_readStartTag r.cursor
    unfold readElement
    simp only
    split
    · exact htag
    · split
      · exact htag.trans (Cursor.reaches_readRawText _ _ _)
      · exact htag
  case skip =>
    intro _ _
    exact r.cursor.reaches_pastTag
  case close =>
    intro _ e outer _ _
    exact r.cursor.reaches_pastTag
  case abandon =>
    intro e outer _ _
    exact Cursor.Reaches.refl r.cursor

/-- A step that closes no element moves on in the source; one that closes an element moves on or
stays where it is. -/
theorem step_advances (mode : WhitespaceMode) {r : Reader} (h : r.isDone = false) :
    r.cursor.offset < (r.step mode).cursor.offset ∨
      r.cursor.offset = (r.step mode).cursor.offset ∧
        (r.step mode).stack.length < r.stack.length := by
  have hreach := r.reaches_step mode
  have hle := hreach.offset_le
  have hsize := step_size_lt mode h
  unfold size at hsize
  -- the size counts what is left of the source and the open elements; one of them went down
  by_cases hstack : (r.step mode).stack.length < r.stack.length
  · omega
  · exact .inl (hreach.offset_lt (by omega))

/-! ## Runs -/

theorem isDone_iff {r : Reader} : r.isDone = true ↔ r.cursor.rest = [] ∧ r.stack = [] := by
  simp [isDone]

/-- What every step keeps, a run keeps. -/
theorem run_induction {mode : WhitespaceMode} {P : Reader → Prop}
    (step : ∀ r, r.isDone = false → P r → P (r.step mode)) (r : Reader) (h : P r) :
    P (r.run mode) := by
  fun_induction run mode r with
  | case1 r hdone => exact h
  | case2 r hdone _ ih => exact ih (step r hdone h)

theorem run_isDone (mode : WhitespaceMode) (r : Reader) : (r.run mode).isDone = true := by
  fun_induction run mode r with
  | case1 r hdone => exact hdone
  | case2 r hdone _ ih => exact ih

theorem run_of_isDone {mode : WhitespaceMode} {r : Reader} (h : r.isDone = true) :
    r.run mode = r := by
  unfold run
  split
  · rfl
  · rename_i hbusy
    rw [h] at hbusy
    cases hbusy

/-- A step at the beginning of a run changes nothing of where the run ends. -/
theorem run_step (mode : WhitespaceMode) (r : Reader) : (r.step mode).run mode = r.run mode := by
  cases hdone : r.isDone with
  | true =>
      obtain ⟨hrest, hstack⟩ := isDone_iff.1 hdone
      have hstep : r.step mode = r := by
        simp [step, kind_eq_endOfFile.2 hrest, hstack]
      rw [hstep]
  | false =>
      conv => rhs; unfold run
      split
      · rename_i htrue
        rw [hdone] at htrue
        cases htrue
      · rfl

/-- A run takes steps until everything is read and closed. -/
theorem run_eq_iterate (mode : WhitespaceMode) (r : Reader) :
    ∃ n ≤ r.size, r.run mode = (step mode)^[n] r ∧
      ∀ k < n, ((step mode)^[k] r).isDone = false := by
  fun_induction run mode r with
  | case1 r hdone => exact ⟨0, Nat.zero_le _, rfl, by simp⟩
  | case2 r hdone hlt ih =>
      obtain ⟨n, hn, hrun, hbusy⟩ := ih
      refine ⟨n + 1, by omega, by rw [hrun, Function.iterate_succ_apply], ?_⟩
      intro k hk
      cases k with
      | zero => exact hdone
      | succ k =>
          rw [Function.iterate_succ_apply]
          exact hbusy k (by omega)

end Reader

end AstroTemplate
