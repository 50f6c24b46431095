import AstroTemplate.Page.Conversion
import AstroTemplate.Proofs.Cuts

set_option autoImplicit false

/-! # The frontmatter is kept

A page is cut at the first closing fence, and at most one line break after it is dropped
(`Page.Assembles`). Conversion replaces everything that follows the frontmatter. The generated
template may have fences of its own, and begin with line breaks, but the first closing fence stays
the first one (`cutAt?_append_tail`), and the line break that is written after it is the one that
is dropped again. So the frontmatter is the same after any number of conversions.
-/

namespace AstroTemplate

/-- The fence at the end of the frontmatter, with the line break before it. -/
def closingFence : List Char := '\n' :: fence

/-- What may stand between the frontmatter and the template. -/
def separators : List (List Char) := [[], ['\n'], ['\r', '\n']]

/-- The page puts the text `code` together: the frontmatter, which goes up to the first closing
fence after the opening one, then the longest possible `separator`, and the template. -/
structure Page.Assembles (page : Page) (code separator : List Char) : Prop where
  parts : code = page.block ++ (separator ++ page.body)
  offset : page.bodyOffset = byteLength page.block + byteLength separator
  separator_mem : separator ∈ separators
  longest : ∀ other ∈ separators, other <+: separator ++ page.body →
    other.length ≤ separator.length
  opened : fence <+: code
  closed : ∃ stop, 3 ≤ stop ∧ StandsAt closingFence code stop ∧ byteLength page.block = stop + 4 ∧
    ∀ other, 3 ≤ other → StandsAt closingFence code other → stop ≤ other

/-! ## Cutting a page -/

/-- The line break that a text begins with, or nothing. -/
def leadingBreak : List Char → List Char
  | '\r' :: '\n' :: _ => ['\r', '\n']
  | '\n' :: _ => ['\n']
  | _ => []

theorem leadingBreak_append (s : List Char) : leadingBreak s ++ dropBreak s = s := by
  fun_cases leadingBreak s with
  | case1 s => rfl
  | case2 s => rfl
  | case3 s hreturn hfeed =>
      unfold dropBreak
      split
      · exact absurd rfl (hreturn _)
      · exact absurd rfl (hfeed _)
      · rfl

theorem leadingBreak_mem (s : List Char) : leadingBreak s ∈ separators := by
  fun_cases leadingBreak s <;> simp [separators]

theorem leadingBreak_longest {other s : List Char} (hmem : other ∈ separators)
    (h : other <+: s) : other.length ≤ (leadingBreak s).length := by
  obtain ⟨rest, rfl⟩ := h
  simp only [separators, List.mem_cons, List.not_mem_nil, or_false] at hmem
  rcases hmem with rfl | rfl | rfl
  · exact Nat.zero_le _
  · exact Nat.le_refl _
  · exact Nat.le_refl _

/-- A text is a page if it begins with a fence and a closing fence follows; then the first one
ends the frontmatter. -/
theorem Page.split?_eq_some_iff {code : List Char} {page : Page} :
    Page.split? code = some page ↔ ∃ inside after,
      code = fence ++ (inside ++ (closingFence ++ after)) ∧
      cutAt? closingFence (inside ++ (closingFence ++ after)) = some (inside, after) ∧
      page = ⟨fence ++ (inside ++ closingFence), dropBreak after,
        byteLength code - byteLength (dropBreak after)⟩ := by
  constructor
  · intro h
    obtain ⟨rest, hrest, hpage⟩ := Option.bind_eq_some_iff.1 h
    obtain ⟨⟨inside, after⟩, hcut, rfl⟩ := Option.map_eq_some_iff.1 hpage
    have hinside : rest = inside ++ (closingFence ++ after) := by
      rw [eq_append_of_cutAt? hcut, List.append_assoc]
      rfl
    subst hinside
    refine ⟨inside, after, eq_append_of_afterPrefix? hrest, hcut, ?_⟩
    rw [← List.append_assoc]
    rfl
  · rintro ⟨inside, after, rfl, hcut, rfl⟩
    rw [Page.split?, afterPrefix?_append, Option.bind_some]
    refine Option.map_eq_some_iff.2 ⟨(inside, after), hcut, ?_⟩
    rw [← List.append_assoc]
    rfl

/-- After the opening fence a closing fence stands where it stands in the text behind. -/
theorem standsAt_fence_append {rest : List Char} {offset : Nat} (h : 3 ≤ offset) :
    StandsAt closingFence (fence ++ rest) offset ↔
      ∃ before after, rest = before ++ (closingFence ++ after) ∧
        offset = 3 + byteLength before := by
  constructor
  · rintro ⟨before, after, heq, rfl⟩
    rcases List.append_eq_append_iff.1 heq with ⟨u, rfl, hrest⟩ | ⟨u, hfence, hrest⟩
    · refine ⟨u, after, hrest, ?_⟩
      rw [byteLength_append]
      rfl
    · -- the text before it is no shorter than the opening fence
      have hlength := congrArg byteLength hfence
      rw [byteLength_append, show byteLength fence = 3 from rfl] at hlength
      obtain rfl : u = [] := byteLength_eq_zero.1 (by omega)
      refine ⟨[], after, hrest.symm, ?_⟩
      rw [byteLength_nil] at hlength ⊢
      omega
  · rintro ⟨before, after, rfl, rfl⟩
    refine ⟨fence ++ before, after, ?_, ?_⟩
    · rw [List.append_assoc]
    · rw [byteLength_append]
      rfl

theorem Page.split?_eq_none_iff {code : List Char} :
    Page.split? code = none ↔
      ¬ fence <+: code ∨ ∀ offset, 3 ≤ offset → ¬ StandsAt closingFence code offset := by
  constructor
  · intro h
    by_cases hopened : fence <+: code
    · right
      obtain ⟨rest, rfl⟩ := hopened
      rw [Page.split?, afterPrefix?_append, Option.bind_some, Option.map_eq_none_iff] at h
      intro offset hle hstands
      obtain ⟨before, after, hrest, -⟩ := (standsAt_fence_append hle).1 hstands
      refine not_infix_of_cutAt?_eq_none h ⟨before, after, ?_⟩
      rw [hrest, List.append_assoc]
      rfl
    · exact .inl hopened
  · intro h
    cases hsplit : Page.split? code with
    | none => rfl
    | some page =>
        obtain ⟨inside, after, rfl, -, -⟩ := Page.split?_eq_some_iff.1 hsplit
        rcases h with hopened | hclosed
        · exact absurd (List.prefix_append _ _) hopened
        · have hle : 3 ≤ 3 + byteLength inside := Nat.le_add_right _ _
          exact absurd ((standsAt_fence_append hle).2 ⟨inside, after, rfl, rfl⟩) (hclosed _ hle)

theorem Page.exists_assembles {code : List Char} {page : Page}
    (h : Page.split? code = some page) : ∃ separator, page.Assembles code separator := by
  obtain ⟨inside, after, rfl, hcut, rfl⟩ := Page.split?_eq_some_iff.1 h
  have hafter := leadingBreak_append after
  have hlength := congrArg byteLength hafter
  rw [byteLength_append] at hlength
  refine ⟨leadingBreak after, ?_, ?_, leadingBreak_mem after, ?_, List.prefix_append _ _, ?_⟩
  · rw [hafter]
    simp only [List.append_assoc]
  · simp only [byteLength_append]
    omega
  · intro other hmem hprefix
    rw [hafter] at hprefix
    exact leadingBreak_longest hmem hprefix
  · refine ⟨3 + byteLength inside, Nat.le_add_right _ _, ?_, ?_, ?_⟩
    · exact (standsAt_fence_append (Nat.le_add_right _ _)).2 ⟨inside, after, rfl, rfl⟩
    · simp only [byteLength_append, show byteLength fence = 3 from rfl,
        show byteLength closingFence = 4 from rfl]
      omega
    · intro other hle hstands
      obtain ⟨before, rest, hrest, rfl⟩ := (standsAt_fence_append hle).1 hstands
      obtain ⟨more, rfl⟩ := prefix_of_cutAt? hcut hrest
      rw [byteLength_append]
      omega

/-! ## Converting again and again -/

/-- What follows the frontmatter and a line break is the template, whatever it is. -/
theorem Page.split?_block_append {code : List Char} {page : Page}
    (h : Page.split? code = some page) (template : List Char) :
    Page.split? (page.block ++ '\n' :: template)
      = some ⟨page.block, template, byteLength page.block + 1⟩ := by
  obtain ⟨inside, after, -, hcut, rfl⟩ := Page.split?_eq_some_iff.1 h
  refine Page.split?_eq_some_iff.2 ⟨inside, '\n' :: template, ?_, cutAt?_append_tail hcut _, ?_⟩
  · simp only [List.append_assoc]
  · have hsize : byteLength (fence ++ (inside ++ closingFence) ++ '\n' :: template)
        - byteLength template = byteLength (fence ++ (inside ++ closingFence)) + 1 := by
      rw [byteLength_append _ ('\n' :: template), byteLength_cons,
        show '\n'.utf8Size = 1 from rfl]
      omega
    rw [show dropBreak ('\n' :: template) = template from rfl, hsize]

/-- A converted page has the frontmatter it had, and the generated template. -/
theorem split?_of_convert? {mode : WhitespaceMode} {code : List Char} {result : Conversion}
    (h : convert? mode code = some result) :
    ∃ page, Page.split? code = some page ∧ Page.split? result.code = some ⟨page.block,
      trimEnd (generate (Template.read mode page.body).nodes) ++ ['\n'],
      byteLength page.block + 1⟩ := by
  obtain ⟨page, hpage, hresult⟩ := Option.bind_eq_some_iff.1 h
  split at hresult
  · obtain rfl := Option.some.inj hresult
    refine ⟨page, hpage, ?_⟩
    simpa only [List.append_assoc, List.cons_append] using Page.split?_block_append hpage _
  · cases hresult

/-- What conversions in the given modes make of a text, each applied to the output of the one
before it. -/
def reconvert? : List WhitespaceMode → List Char → Option (List Char)
  | [], code => some code
  | mode :: modes, code => (convert? mode code).bind fun result => reconvert? modes result.code

theorem reconvert?_keeps_block {modes : List WhitespaceMode} {code output : List Char}
    {page : Page} (h : reconvert? modes code = some output)
    (hpage : Page.split? code = some page) :
    ∃ last, Page.split? output = some last ∧ last.block = page.block := by
  induction modes generalizing code page with
  | nil =>
      obtain rfl := Option.some.inj h
      exact ⟨page, hpage, rfl⟩
  | cons mode modes ih =>
      obtain ⟨result, hresult, hmore⟩ := Option.bind_eq_some_iff.1 h
      obtain ⟨first, hfirst, hsplit⟩ := split?_of_convert? hresult
      obtain rfl : page = first := Option.some.inj (hpage.symm.trans hfirst)
      obtain ⟨last, hlast, hblock⟩ := ih hmore hsplit
      exact ⟨last, hlast, hblock⟩

/-- Only pages are converted. -/
theorem isSome_split?_of_reconvert? {modes : List WhitespaceMode} {code input : List Char}
    (h : reconvert? modes code = some input) (hinput : (Page.split? input).isSome = true) :
    (Page.split? code).isSome = true := by
  cases modes with
  | nil =>
      obtain rfl := Option.some.inj h
      exact hinput
  | cons mode modes =>
      obtain ⟨result, hresult, -⟩ := Option.bind_eq_some_iff.1 h
      obtain ⟨page, hpage, -⟩ := split?_of_convert? hresult
      exact Option.isSome_of_eq_some hpage

/-- **The frontmatter is a fixed point of conversion.** A text is no page exactly if it does not
begin with a fence or no closing fence follows. A page is its frontmatter up to the first closing
fence, at most one line break, and the template. However often and in whatever modes a text has been
converted, if it is converted once more the output has the frontmatter of the text at the beginning,
and its template is the one generated last, trimmed at the end and followed by a line break. -/
theorem Page.frontmatter_kept (code : List Char) :
    (Page.split? code = none ↔
      ¬ fence <+: code ∨ ∀ offset, 3 ≤ offset → ¬ StandsAt closingFence code offset) ∧
    (∀ page, Page.split? code = some page → ∃ separator, page.Assembles code separator) ∧
    ∀ modes mode input result, reconvert? modes code = some input →
      convert? mode input = some result →
      ∃ page last, Page.split? code = some page ∧ Page.split? input = some last ∧
        Page.split? result.code = some ⟨page.block,
          trimEnd (generate (Template.read mode last.body).nodes) ++ ['\n'],
          byteLength page.block + 1⟩ := by
  refine ⟨Page.split?_eq_none_iff, fun page => Page.exists_assembles, ?_⟩
  intro modes mode input result hinput hresult
  obtain ⟨last, hlast, hsplit⟩ := split?_of_convert? hresult
  obtain ⟨page, hpage⟩ := Option.isSome_iff_exists.1
    (isSome_split?_of_reconvert? hinput (Option.isSome_of_eq_some hlast))
  obtain ⟨same, hsame, hblock⟩ := reconvert?_keeps_block hinput hpage
  obtain rfl : last = same := Option.some.inj (hlast.symm.trans hsame)
  rw [hblock] at hsplit
  exact ⟨page, last, hpage, hlast, hsplit⟩

/-- A page that is converted twice, with a carriage return after its frontmatter and a fence in its
template. The attribute looks like a directive each time. -/
theorem Page.frontmatter_kept_twice :
    reconvert? [.preserve] "---\n---\r\n\n---<p a=' v-if'/>".toList
        = some "---\n---\n\n---<p a=\" v-if\"></p>\n".toList ∧
      ∃ page last,
        Page.split? "---\n---\r\n\n---<p a=' v-if'/>".toList = some page ∧
        Page.split? "---\n---\n\n---<p a=\" v-if\"></p>\n".toList = some last ∧
        Page.split? "---\n---\n ---<p a=\" v-if\"></p>\n".toList = some ⟨page.block,
          trimEnd (generate (Template.read .condense last.body).nodes) ++ ['\n'],
          byteLength page.block + 1⟩ := by
  have hfirst : reconvert? [.preserve] "---\n---\r\n\n---<p a=' v-if'/>".toList
      = some "---\n---\n\n---<p a=\" v-if\"></p>\n".toList := by decide +kernel
  refine ⟨hfirst, ?_⟩
  exact (Page.frontmatter_kept _).2.2 [.preserve] .condense _
    ⟨"---\n---\n ---<p a=\" v-if\"></p>\n".toList, [], 8, []⟩ hfirst (by decide +kernel)

end AstroTemplate
