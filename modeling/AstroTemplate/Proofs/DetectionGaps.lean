import AstroTemplate.Page.Detection
import AstroTemplate.Proofs.Origins

set_option autoImplicit false

/-! # What detection does not see

`needsConversion` decides by the text whether there is anything to convert, so it should find the
interpolations and directives that the reader finds. Here its signs are looked for at one place
(`showsSyntax`), and each interpolation and directive of a tree is held against the signs at its own
place. An interpolation shows itself unless there is a closing brace in it, a directive if white
space stands before it and its name is spelled out or is a sign and a letter (`inSight`). All others
can be in a template that is passed over.
-/

namespace AstroTemplate

/-! ## Signs at one place -/

/-- Some text without a closing brace, and two closing braces. -/
def closesInterpolation : List Char → Bool
  | [] => false
  | c :: s => if c = '\x7d' then s.head? = some '\x7d' else closesInterpolation s

/-- An interpolation: two opening braces, at least one character that is no closing brace, and two
closing braces after it. -/
def showsInterpolationHere : List Char → Bool
  | '\x7b' :: '\x7b' :: c :: s => c != '\x7d' && closesInterpolation s
  | _ => false

/-- Whether one of the signs of template syntax stands here. -/
def showsSyntax (s : List Char) : Bool :=
  showsInterpolationHere s || showsDirective s || showsShorthand s

/-- A name that is taken for that of a directive: one that begins with `v-`, or a sign with a letter
after it. -/
def isTellingName : List Char → Bool
  | 'v' :: '-' :: _ => true
  | ':' :: c :: _ => c.isAlpha
  | '@' :: c :: _ => c.isAlpha
  | _ => false

/-- Whether a directive can be seen by its name and the character before it. -/
def inSight (before : Char) (name : List Char) : Bool := isTagSpace before && isTellingName name

theorem anywhere_iff {p : List Char → Bool} {s : List Char} :
    anywhere p s = true ↔ ∃ rest, rest <:+ s ∧ p rest = true := by
  induction s with
  | nil => simp [anywhere]
  | cons c s ih =>
      rw [anywhere, Bool.or_eq_true, ih]
      constructor
      · rintro (hhere | ⟨rest, hrest, hp⟩)
        · exact ⟨c :: s, List.suffix_rfl, hhere⟩
        · exact ⟨rest, hrest.trans (List.suffix_cons c s), hp⟩
      · rintro ⟨rest, hrest, hp⟩
        rcases List.suffix_cons_iff.1 hrest with rfl | hrest
        · exact .inl hp
        · exact .inr ⟨rest, hrest, hp⟩

/-! ### The braces that have been read -/

theorem showsInterpolationHere_cons_of_ne {c : Char} (h : c ≠ '\x7b') (s : List Char) :
    showsInterpolationHere (c :: s) = false := by
  unfold showsInterpolationHere
  split
  · rename_i heq
    exact absurd (List.cons.inj heq).1 h
  · rfl

theorem showsInterpolationHere_cons_cons_of_ne {c : Char} (h : c ≠ '\x7b') (s : List Char) :
    showsInterpolationHere ('\x7b' :: c :: s) = false := by
  unfold showsInterpolationHere
  split
  · rename_i heq
    exact absurd (List.cons.inj (List.cons.inj heq).2).1 h
  · rfl

theorem closesInterpolation_cons_of_ne {c : Char} (h : c ≠ '\x7d') (s : List Char) :
    closesInterpolation (c :: s) = closesInterpolation s := by
  rw [closesInterpolation, if_neg h]

/-- Whoever has read two opening braces and some text need not look for others. -/
theorem closesInterpolation_of_here {c : Char} {s : List Char}
    (h : showsInterpolationHere (c :: s) = true) : closesInterpolation s = true := by
  unfold showsInterpolationHere at h
  split at h
  · rename_i first rest heq
    obtain ⟨-, rfl⟩ := List.cons.inj heq
    rw [Bool.and_eq_true, bne_iff_ne] at h
    rw [closesInterpolation_cons_of_ne (by decide), closesInterpolation_cons_of_ne h.1]
    exact h.2
  · cases h

/-- What completes an interpolation of which a part has been read. -/
def InterpolationState.completes : InterpolationState → List Char → Bool
  | nothing, _ => false
  | oneBrace, s => showsInterpolationHere ('\x7b' :: s)
  | twoBraces, s => showsInterpolationHere ('\x7b' :: '\x7b' :: s)
  | content, s => closesInterpolation s

theorem showsInterpolationHere_braces (c : Char) (s : List Char) :
    showsInterpolationHere ('\x7b' :: '\x7b' :: c :: s) = (c != '\x7d' && closesInterpolation s) :=
  rfl

/-- One step: what completes the interpolation that has been begun, or one that begins here, is
what completes the interpolation in the next state. -/
theorem InterpolationState.completes_next (state : InterpolationState) {c : Char}
    (hc : c ≠ '\x7d') (s : List Char) :
    (state.next c).completes s = (state.completes (c :: s) || showsInterpolationHere (c :: s)) := by
  have habsorb : (closesInterpolation s || showsInterpolationHere (c :: s))
      = closesInterpolation s := by
    cases hhere : showsInterpolationHere (c :: s) with
    | false => rw [Bool.or_false]
    | true => rw [Bool.or_true, closesInterpolation_of_here hhere]
  cases state with
  | nothing =>
      show (if c = '\x7b' then oneBrace else nothing).completes s = showsInterpolationHere (c :: s)
      by_cases hopen : c = '\x7b'
      · rw [if_pos hopen, hopen]
        rfl
      · rw [if_neg hopen, showsInterpolationHere_cons_of_ne hopen]
        rfl
  | oneBrace =>
      show (if c = '\x7b' then twoBraces else nothing).completes s
        = (showsInterpolationHere ('\x7b' :: c :: s) || showsInterpolationHere (c :: s))
      by_cases hopen : c = '\x7b'
      · subst hopen
        show showsInterpolationHere ('\x7b' :: '\x7b' :: s) = _
        cases s with
        | nil => rfl
        | cons d s =>
            -- an interpolation that begins at the second brace begins at the first one, too
            cases hhere : showsInterpolationHere ('\x7b' :: d :: s) with
            | false => rw [Bool.or_false]
            | true =>
                have hd : d = '\x7b' := by
                  by_contra hne
                  rw [showsInterpolationHere_cons_cons_of_ne hne] at hhere
                  cases hhere
                have hcloses := closesInterpolation_of_here hhere
                subst hd
                rw [Bool.or_true, showsInterpolationHere_braces,
                  ← closesInterpolation_cons_of_ne (by decide : '\x7b' ≠ '\x7d'), hcloses]
                rfl
      · rw [if_neg hopen, showsInterpolationHere_cons_cons_of_ne hopen,
          showsInterpolationHere_cons_of_ne hopen]
        rfl
  | twoBraces =>
      show closesInterpolation s = (showsInterpolationHere ('\x7b' :: '\x7b' :: c :: s) || _)
      rw [showsInterpolationHere_braces, bne_iff_ne.2 hc, Bool.true_and, habsorb]
  | content =>
      show closesInterpolation s = (closesInterpolation (c :: s) || _)
      rw [closesInterpolation_cons_of_ne hc, habsorb]

/-- To keep the state is to look at every place. -/
theorem showsInterpolationFrom_eq (state : InterpolationState) (s : List Char) :
    showsInterpolationFrom state s
      = (state.completes s || anywhere showsInterpolationHere s) := by
  induction s generalizing state with
  | nil => cases state <;> rfl
  | cons c s ih =>
      rw [showsInterpolationFrom, anywhere]
      by_cases hclose : c = '\x7d'
      · -- a closing brace completes an interpolation or undoes what has been read
        subst hclose
        rw [if_pos rfl, ih]
        cases state <;> simp [InterpolationState.completes, showsInterpolationHere,
          closesInterpolation]
      · rw [if_neg hclose, ih, state.completes_next hclose, Bool.or_assoc]

/-- A template is converted if a sign of syntax stands at one of its places. -/
theorem needsConversion_iff {body : List Char} :
    needsConversion body = true ↔ ∃ rest, rest <:+ body ∧ showsSyntax rest = true := by
  have hinterpolation : showsInterpolation body = anywhere showsInterpolationHere body :=
    showsInterpolationFrom_eq .nothing body
  rw [needsConversion, hinterpolation, Bool.or_eq_true, Bool.or_eq_true, anywhere_iff, anywhere_iff,
    anywhere_iff, ← exists_or, ← exists_or]
  refine exists_congr fun rest => ?_
  rw [showsSyntax, Bool.or_eq_true, Bool.or_eq_true, and_or_left, and_or_left]

/-- Where there is no white space, no directive is seen. -/
theorem showsSyntax_of_not_blank {c : Char} (hblank : isBlank c = false) (hangle : c ≠ '<')
    (s : List Char) : showsSyntax (c :: s) = showsInterpolationHere (c :: s) := by
  have hdirective : showsDirective (c :: s) = false := by
    rw [showsDirective, hblank, Bool.false_and]
  have hshorthand : showsShorthand (c :: s) = false := by
    unfold showsShorthand
    split
    · rename_i heq
      rw [← (List.cons.inj heq).1, hblank, beq_eq_false_iff_ne.2 hangle]
      rfl
    · rfl
  rw [showsSyntax, hdirective, hshorthand, Bool.or_false, Bool.or_false]

/-! ## Interpolations -/

/-- An interpolation is closed by the braces it is cut at exactly if none is in it. -/
theorem closesInterpolation_iff_of_cutAt? {s raw after : List Char}
    (h : cutAt? ['\x7d', '\x7d'] s = some (raw, after)) :
    closesInterpolation s = true ↔ '\x7d' ∉ raw := by
  induction s generalizing raw with
  | nil => cases h
  | cons c s ih =>
      rw [cutAt?] at h
      split at h
      · -- the braces are here
        rename_i found hfound
        obtain ⟨rfl, rfl⟩ := Prod.mk.inj (Option.some.inj h)
        have hs := eq_append_of_afterPrefix? hfound
        rw [hs]
        simp [closesInterpolation]
      · rename_i hnone
        obtain ⟨⟨before, rest⟩, hcut, heq⟩ := Option.map_eq_some_iff.1 h
        obtain ⟨rfl, rfl⟩ := Prod.mk.inj heq
        by_cases hc : c = '\x7d'
        · -- a single brace
          subst hc
          have hhead : s.head? ≠ some '\x7d' := by
            intro hhead
            obtain ⟨t, rfl⟩ := List.head?_eq_some_iff.1 hhead
            cases hnone
          simp [closesInterpolation, hhead]
        · rw [closesInterpolation_cons_of_ne hc, ih hcut, List.mem_cons, not_or]
          exact ⟨fun hnot => ⟨fun hsame => hc hsame.symm, hnot⟩, And.right⟩

/-- An interpolation with something in it shows itself exactly if it has no closing brace in it. -/
theorem showsSyntax_interpolation {s raw after : List Char} (hraw : raw ≠ [])
    (h : cutAt? ['\x7d', '\x7d'] s = some (raw, after)) :
    showsSyntax ('\x7b' :: '\x7b' :: s) = true ↔ '\x7d' ∉ raw := by
  have hcloses := closesInterpolation_iff_of_cutAt? h
  have hs := eq_append_of_cutAt? h
  rw [showsSyntax_of_not_blank (by decide) (by decide)]
  cases raw with
  | nil => exact absurd rfl hraw
  | cons c raw =>
      rw [hs, List.append_assoc, List.cons_append] at hcloses ⊢
      rw [showsInterpolationHere_braces, Bool.and_eq_true, bne_iff_ne]
      by_cases hc : c = '\x7d'
      · simp [hc]
      · rw [closesInterpolation_cons_of_ne hc] at hcloses
        rw [hcloses]
        exact and_iff_right hc

theorem Cursor.HoldsInterpolation.showsSyntax_iff {c : Cursor} {raw expression : List Char}
    {span : Span} (h : c.HoldsInterpolation raw span expression) (hne : expression ≠ []) :
    showsSyntax c.rest = true ↔ '\x7d' ∉ raw := by
  obtain ⟨next, hopen, hcut, -, rfl⟩ := h
  obtain ⟨⟨before, after⟩, hfirst, heq⟩ := Option.map_eq_some_iff.1 hcut
  obtain ⟨rfl, -⟩ := Prod.mk.inj heq
  have hraw : before ≠ [] := by
    rintro rfl
    exact hne rfl
  rw [hopen.1]
  exact showsSyntax_interpolation hraw hfirst

/-! ## Directives -/

theorem isBlank_of_isPropSeparator {x : Char} (hx : isPropSeparator x = true) :
    isBlank x = isTagSpace x := by
  cases hspace : isTagSpace x with
  | true => exact isBlank_of_isTagSpace hspace
  | false =>
      rw [isPropSeparator, hspace] at hx
      simp only [Bool.false_or, Bool.or_eq_true, beq_iff_eq] at hx
      rcases hx with ((rfl | rfl) | rfl) | rfl <;> rfl

/-- The names with a meaning of their own are among those looked for. -/
theorem mem_detectedDirectives {name : List Char} (h : DirectiveKind.ofName name ≠ .other) :
    name ∈ detectedDirectives := by
  cases hlookup : DirectiveKind.known.lookup name with
  | none => exact absurd (by rw [DirectiveKind.ofName, hlookup]; rfl) h
  | some kind =>
      have hall : ∀ entry ∈ DirectiveKind.known, entry.1 ∈ detectedDirectives := by decide +kernel
      exact hall _ (mem_of_lookup hlookup)

/-- Where a name ends, neither a letter nor another character of a word follows. -/
theorem endsWord_of_not_isPropNameChar {rest : List Char}
    (h : rest.head?.any isPropNameChar = false) :
    endsWord rest = true ∧ rest.head?.any Char.isAlpha = false := by
  cases rest with
  | nil => exact ⟨rfl, rfl⟩
  | cons c rest =>
      rw [List.head?_cons, Option.any_some] at h
      simp only [isPropNameChar, isTagSpace, Bool.and_eq_false_iff, Bool.not_eq_false',
        Bool.or_eq_true, beq_iff_eq, bne_eq_false_iff_eq] at h
      rcases h with ((((((rfl | rfl) | rfl) | rfl) | rfl) | rfl) | rfl) | rfl <;> exact ⟨rfl, rfl⟩

/-- The long form of a directive has its name up to a colon, a dot or the end. -/
theorem DirectiveName.exists_of_readLong?_name {s : List Char} {parts : DirectiveName}
    (h : readLong? s = some parts) :
    ∃ after, s = parts.name ++ after ∧ after.head?.all (fun c => c == ':' || c == '.') = true := by
  have hname : parts.name = s.takeWhile fun c => c != ':' && c != '.' := by
    unfold readLong? at h
    simp only at h
    split at h
    · cases h
    · split at h
      · cases h
      · split at h
        · obtain rfl := Option.some.inj h
          rfl
        · obtain rfl := Option.some.inj h
          rfl
  refine ⟨s.dropWhile fun c => c != ':' && c != '.', ?_, ?_⟩
  · rw [hname, List.takeWhile_append_dropWhile]
  · have hhead := head?_dropWhile_any (fun c => c != ':' && c != '.') s
    cases hafter : (s.dropWhile fun c => c != ':' && c != '.').head? with
    | none => rfl
    | some c =>
        rw [hafter, Option.any_some, Bool.and_eq_false_iff, bne_eq_false_iff_eq,
          bne_eq_false_iff_eq] at hhead
        rw [Option.all_some, Bool.or_eq_true, beq_iff_eq, beq_iff_eq]
        exact hhead

/-- A directive in its long form shows itself after a blank. -/
theorem showsDirective_long {x : Char} (hx : isBlank x = true) {s rest : List Char}
    {parts : DirectiveName} (hread : DirectiveName.readLong? s = some parts)
    (hkind : DirectiveKind.ofName parts.name ≠ .other)
    (hrest : rest.head?.any isPropNameChar = false) :
    showsDirective (x :: 'v' :: '-' :: (s ++ rest)) = true := by
  obtain ⟨after, rfl, hafter⟩ := DirectiveName.exists_of_readLong?_name hread
  have hends : endsWord (after ++ rest) = true := by
    cases after with
    | nil => exact (endsWord_of_not_isPropNameChar hrest).1
    | cons c after =>
        rw [List.head?_cons, Option.all_some, Bool.or_eq_true, beq_iff_eq, beq_iff_eq] at hafter
        rcases hafter with rfl | rfl <;> rfl
  have hname : (afterPrefix? parts.name (parts.name ++ after ++ rest)).any endsWord = true := by
    rw [List.append_assoc, afterPrefix?_append, Option.any_some, hends]
  have hfound : (detectedDirectives.any fun name =>
      (afterPrefix? name (parts.name ++ after ++ rest)).any endsWord) = true :=
    List.any_eq_true.2 ⟨parts.name, mem_detectedDirectives hkind, hname⟩
  rw [showsDirective, hx, Bool.true_and]
  exact hfound

/-- Only a name that begins with `v-` shows itself as a directive. -/
theorem showsDirective_of_ne {x sign : Char} (h : sign ≠ 'v') (s : List Char) :
    showsDirective (x :: sign :: s) = false := by
  have hnone : afterPrefix? ['v', '-'] (sign :: s) = none := by
    rw [afterPrefix?, if_neg h.symm]
  rw [showsDirective, hnone, Bool.and_false]

/-- A sign at the beginning of a name shows itself after a blank if a letter follows it. -/
theorem showsShorthand_sign {x sign : Char} (hx : isBlank x = true)
    (hsign : (sign == ':' || sign == '@') = true) (s : List Char) :
    showsShorthand (x :: sign :: s) = s.head?.any Char.isAlpha := by
  cases s with
  | nil => rfl
  | cons c s =>
      rw [showsShorthand, hx, Bool.true_or, Bool.true_and, hsign, Bool.true_and]
      rfl

theorem showsShorthand_of_ne {x sign : Char} (hsign : (sign == ':' || sign == '@') = false)
    (s : List Char) : showsShorthand (x :: sign :: s) = false := by
  cases s with
  | nil => rfl
  | cons c s => rw [showsShorthand, hsign, Bool.and_false, Bool.false_and]

theorem head?_append_isAlpha {s rest : List Char} (hrest : rest.head?.any isPropNameChar = false) :
    (s ++ rest).head?.any Char.isAlpha = s.head?.any Char.isAlpha := by
  cases s with
  | nil => exact (endsWord_of_not_isPropNameChar hrest).2
  | cons c s => rfl

/-- A directive that is acted on shows itself exactly if it is in sight. -/
theorem showsSyntax_directive {x : Char} {name rest : List Char} {parts : DirectiveName}
    (hx : isPropSeparator x = true) (hread : DirectiveName.read? name = some parts)
    (hkind : DirectiveKind.ofName parts.name ≠ .other)
    (hrest : rest.head?.any isPropNameChar = false) :
    showsSyntax (x :: (name ++ rest)) = inSight x name := by
  have hopen : x ≠ '\x7b' := by
    rintro rfl
    cases hx
  have hangle : x ≠ '<' := by
    rintro rfl
    cases hx
  have hblank := isBlank_of_isPropSeparator hx
  cases hspace : isTagSpace x with
  | false =>
      rw [showsSyntax_of_not_blank (hblank.trans hspace) hangle,
        showsInterpolationHere_cons_of_ne hopen, inSight, hspace, Bool.false_and]
  | true =>
      rw [hspace] at hblank
      rw [showsSyntax, showsInterpolationHere_cons_of_ne hopen, Bool.false_or, inSight, hspace,
        Bool.true_and]
      -- the ways in which a directive can begin
      unfold DirectiveName.read? at hread
      split at hread
      · rw [List.cons_append, List.cons_append, showsDirective_long hblank hread hkind hrest]
        rfl
      · rename_i s
        rw [List.cons_append, showsDirective_of_ne (by decide), showsShorthand_sign hblank rfl,
          head?_append_isAlpha hrest]
        cases s <;> rfl
      · rename_i s
        rw [List.cons_append, showsDirective_of_ne (by decide), showsShorthand_sign hblank rfl,
          head?_append_isAlpha hrest]
        cases s <;> rfl
      · obtain rfl := Option.some.inj hread
        exact absurd (rfl : DirectiveKind.ofName "slot".toList = .other) hkind
      · rw [List.cons_append, showsDirective_of_ne (by decide), showsShorthand_of_ne rfl]
        rfl
      · cases hread

theorem showsSyntax_readProp {x : Char} {c : Cursor} {d : Directive} (hx : isPropSeparator x = true)
    (hd : .directive d = (readProp c).value) (hkind : d.kind ≠ .other) :
    showsSyntax (x :: c.rest) = inSight x d.rawName := by
  obtain ⟨span, value, hofName⟩ := readProp_ofName c
  obtain ⟨parts, argument, hparts, rfl, -⟩ :=
    TagProp.exists_of_ofName_eq_directive (hofName.symm.trans hd.symm)
  have hrest : c.rest = (c.takeWhile isPropNameChar).1 ++ (c.takeWhile isPropNameChar).2.rest :=
    (c.over_takeWhile isPropNameChar).1
  rw [hrest]
  exact showsSyntax_directive hx hparts hkind (head?_dropWhile_any isPropNameChar c.rest)

theorem Cursor.LiesIn.suffix {source : List Char} {c : Cursor} (hc : c.LiesIn source) :
    c.rest <:+ source := by
  obtain ⟨before, hsource, -⟩ := Cursor.liesIn_iff.1 hc
  exact ⟨before, hsource.symm⟩

/-- **What detection passes over.** A template is converted if a sign of syntax stands at one of its
places. An interpolation with something in it is such a sign exactly if no closing brace stands
between its braces, and a directive with a meaning of its own exactly if white space stands before
it and its name begins with `v-` or is one of the signs `:` and `@` with a letter after it. So in a
template that is not converted there can be interpolations and directives, but only ones of the
other kinds. -/
theorem needsConversion_gaps (mode : WhitespaceMode) (body : List Char) :
    (needsConversion body = true ↔ ∃ rest, rest <:+ body ∧ showsSyntax rest = true) ∧
    (∀ span inner expression,
      .interpolation span inner expression ∈ Node.all (Template.read mode body).nodes →
      expression ≠ [] → ∃ (c : Cursor) (raw : List Char),
        c.LiesIn body ∧ c.HoldsInterpolation raw span expression ∧
        (showsSyntax c.rest = true ↔ '\x7d' ∉ raw) ∧
        (needsConversion body = false → '\x7d' ∈ raw)) ∧
    ∀ tag children d, .element tag children ∈ Node.all (Template.read mode body).nodes →
      .directive d ∈ tag.props → d.kind ≠ .other → ∃ (x : Char) (c : Cursor),
        isPropSeparator x = true ∧ Cursor.Follows body x c ∧
        .directive d = (readProp c).value ∧
        showsSyntax (x :: c.rest) = inSight x d.rawName ∧
        (needsConversion body = false → inSight x d.rawName = false) := by
  have hseen : ∀ rest, rest <:+ body → needsConversion body = false → showsSyntax rest = false := by
    intro rest hrest hbody
    rw [← Bool.not_eq_true] at hbody ⊢
    exact fun hshows => hbody (needsConversion_iff.2 ⟨rest, hrest, hshows⟩)
  have hread := Template.read_readFrom mode body
  refine ⟨needsConversion_iff, ?_, ?_⟩
  · intro span inner expression hmem hne
    obtain ⟨c, raw, hc, hholds⟩ := hread _ hmem
    have hiff := hholds.showsSyntax_iff hne
    refine ⟨c, raw, hc, hholds, hiff, ?_⟩
    intro hbody
    by_contra hraw
    have hfalse := hseen c.rest hc.suffix hbody
    rw [hiff.2 hraw] at hfalse
    cases hfalse
  · intro tag children d hmem hd hkind
    obtain ⟨x, c, hx, hfollows, hvalue⟩ := hread _ hmem _ hd
    have heq := showsSyntax_readProp hx hvalue hkind
    refine ⟨x, c, hx, hfollows, hvalue, heq, ?_⟩
    intro hbody
    obtain ⟨before, hbefore, hover⟩ := hfollows
    have hrest : before.rest = x :: c.rest := hover.1
    rw [← heq, ← hrest]
    exact hseen before.rest hbefore.suffix hbody

/-- A binding and an interpolation that are passed over. -/
theorem needsConversion_gaps_object :
    (∃ (c : Cursor) (raw : List Char),
      c.LiesIn "<p :[k]=v>\x7b\x7b \x7ba: 1\x7d.a \x7d\x7d".toList ∧
      c.HoldsInterpolation raw ⟨10, 24⟩ "\x7ba: 1\x7d.a".toList ∧ '\x7d' ∈ raw) ∧
    ∃ (x : Char) (c : Cursor),
      Cursor.Follows "<p :[k]=v>\x7b\x7b \x7ba: 1\x7d.a \x7d\x7d".toList x c ∧
      inSight x ":[k]".toList = false := by
  have hbody : needsConversion "<p :[k]=v>\x7b\x7b \x7ba: 1\x7d.a \x7d\x7d".toList = false := by
    decide +kernel
  obtain ⟨-, hinterpolations, hdirectives⟩ :=
    needsConversion_gaps .condense "<p :[k]=v>\x7b\x7b \x7ba: 1\x7d.a \x7d\x7d".toList
  constructor
  · obtain ⟨c, raw, hc, hholds, -, hraw⟩ := hinterpolations ⟨10, 24⟩ ⟨13, 21⟩
      "\x7ba: 1\x7d.a".toList (by decide +kernel) (by decide)
    exact ⟨c, raw, hc, hholds, hraw hbody⟩
  · obtain ⟨x, c, -, hfollows, -, -, hsight⟩ := hdirectives
      ⟨⟨0, 24⟩, ['p'], [.directive ⟨⟨3, 9⟩, ":[k]".toList, "bind".toList,
        some ⟨⟨5, 6⟩, ['k'], false⟩, [], some ⟨⟨8, 9⟩, ['v']⟩⟩], false⟩
      [.interpolation ⟨10, 24⟩ ⟨13, 21⟩ "\x7ba: 1\x7d.a".toList] _ (by decide +kernel)
      List.mem_cons_self (by decide)
    exact ⟨x, c, hfollows, hsight hbody⟩

/-- Whether there is something to convert in the node itself. -/
def Node.isToConvert : Node → Bool
  | .interpolation _ _ expression => !expression.isEmpty
  | .element tag _ => tag.directives.any (·.kind != .other)
  | _ => false

/-- Templates with something to convert that are not converted: an expression with a brace in it,
directives after a quote, a slash and an equals sign, a dynamic argument, an argument that does not
begin with a letter, none at all, and the shorthand `.`. -/
theorem needsConversion_misses :
    (["<p>\x7b\x7b \x7ba: 1\x7d.a \x7d\x7d</p>", "<p class=\"x\"v-if=\"a\">",
        "<p/v-if=\"a\">", "<p =v-if>", "<p :[k]=\"v\">", "<p @_a=\"v\">", "<p :=\"v\">",
        "<p .value=\"v\">"].all fun body =>
      !needsConversion body.toList &&
        (Node.all (Template.read .condense body.toList).nodes).any Node.isToConvert) = true := by
  decide +kernel

end AstroTemplate
