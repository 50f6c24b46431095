import AstroTemplate.Proofs.Steps
import AstroTemplate.Proofs.TokenStream

set_option autoImplicit false

/-! # Walks and cursors

A walk is at a cursor if what it has left of its stream are the tokens of the source from there on
(`Walk.At`). Each of its moves leads from one cursor to another: over a token, over white space, or
to an offset. A place can be moved to if its offset is smaller than the greatest one of spans, or if
it is the end of the source (`TokenStream.skipTo_tokens`). All offsets from the greatest one on lead
to the end (`TokenStream.skipTo_end`), because no token is known to end later than that.

In a source shorter than 2^32 bytes every place can be moved to. There the walk is also in step with
the source at every point (`Walk.Follows`), and `Walk.Leads` says of a part of it where it leads.
-/

namespace AstroTemplate

/-! ## The tokens of a place -/

namespace Cursor

/-- The tokens from the cursor on. -/
def tokens (c : Cursor) : List Token := tokensFrom c.offset c.rest

theorem tokens_of_rest_nil {c : Cursor} (h : c.rest = []) :
    c.tokens = [⟨.endOfFile, .ofOffsets c.offset c.offset, []⟩] := by
  rw [tokens, tokensFrom]
  split
  · rfl
  · rename_i htoken
    rw [h] at htoken
    cases htoken

theorem tokens_of_firstToken? {c : Cursor} {k : TokenKind} {t r : List Char}
    (h : firstToken? c.rest = some (k, t, r)) :
    c.tokens = ⟨k, .ofOffsets c.offset (c.offset + byteLength t), t⟩ ::
      (Cursor.mk (c.offset + byteLength t) r).tokens := by
  rw [tokens, tokensFrom]
  split
  · rename_i htoken
    rw [h] at htoken
    cases htoken
  · rename_i htoken
    rw [h] at htoken
    cases htoken
    rfl

theorem LiesIn.tokensAt {source : List Char} {c : Cursor} (hc : c.LiesIn source) :
    tokensAt source c.offset = c.tokens := by
  rw [AstroTemplate.tokensAt, hc.dropBytes?]
  rfl

/-- In a source shorter than 2^32 bytes every place can be moved to. -/
theorem LiesIn.fits {source : List Char} {c : Cursor} (hs : byteLength source ≤ maxOffset)
    (hc : c.LiesIn source) : c.offset < maxOffset ∨ c.rest = [] := by
  have hrest := hc.byteLength_rest
  rcases Nat.lt_or_ge c.offset maxOffset with hlt | hge
  · exact .inl hlt
  · exact .inr (byteLength_eq_zero.1 (by omega))

variable {c : Cursor}

/-- The first token of a place is the one that its cursor sees. -/
theorem exists_tokens_cons (c : Cursor) :
    ∃ t ts, c.tokens = t :: ts ∧ t.kind = c.kind ∧ t.span = c.tokenSpan := by
  cases htoken : firstToken? c.rest with
  | none =>
      refine ⟨_, _, tokens_of_rest_nil (firstToken?_eq_none.1 htoken), ?_, ?_⟩
      · rw [kind, htoken]
      · rw [tokenSpan, htoken]
  | some found =>
      refine ⟨_, _, tokens_of_firstToken? htoken, ?_, ?_⟩
      · rw [kind, htoken]
      · rw [tokenSpan, htoken]

theorem tokenSpan_start (c : Cursor) : c.tokenSpan.start = min c.offset maxOffset := by
  rw [tokenSpan]
  split <;> rfl

/-- After a token of fixed spelling come the tokens of the place after that spelling. -/
theorem tail_tokens {k : TokenKind} {p : List Char} (h : c.kind = k)
    (hk : k.spelling? = some p) : c.tokens.tail = (c.drop p.length).tokens := by
  cases htoken : firstToken? c.rest with
  | none =>
      rw [kind, htoken] at h
      subst h
      cases hk
  | some found =>
      obtain ⟨found, t, r⟩ := found
      rw [kind, htoken] at h
      subst h
      obtain rfl := firstToken?_spelling htoken hk
      have hover := over_drop_length (firstToken?_eq_some htoken).1
      rw [tokens_of_firstToken? htoken, List.tail_cons]
      exact congrArg tokens (Over.eq ⟨(firstToken?_eq_some htoken).1, rfl⟩ hover)

end Cursor

theorem firstToken?_of_space {x : Char} (hx : isTagSpace x = true) (t : List Char) :
    firstToken? (x :: t)
      = some (.whitespace, x :: t.takeWhile isTagSpace, t.dropWhile isTagSpace) := by
  unfold firstToken?
  split
  case h_15 heq =>
    obtain ⟨rfl, rfl⟩ := List.cons.inj heq
    rw [if_pos hx]
  case h_1 heq => exact absurd heq (List.cons_ne_nil x t)
  all_goals
    rename_i heq
    obtain ⟨rfl, -⟩ := List.cons.inj heq
    exact absurd hx (by decide)

namespace Cursor

variable {c : Cursor}

theorem kind_ne_whitespace (h : c.rest.head?.any isTagSpace = false) : c.kind ≠ .whitespace := by
  intro hkind
  unfold kind at hkind
  split at hkind
  · rename_i htoken
    subst hkind
    unfold firstToken? at htoken
    split at htoken
    all_goals try cases htoken
    rename_i x rest _ _ _ _ _ _ _ _ _ _ _ _ _ hrest
    have hx : isTagSpace x = false := by rw [hrest] at h; exact h
    rw [if_neg (by simp [hx])] at htoken
    obtain ⟨hword, -⟩ := Prod.mk.inj (Option.some.inj htoken)
    split at hword <;> cases hword
  · cases hkind

theorem dropWhile_tokens_of_no_space (h : c.rest.head?.any isTagSpace = false) :
    c.tokens.dropWhile (·.kind == .whitespace) = c.tokens := by
  obtain ⟨t, ts, htokens, hkind, -⟩ := c.exists_tokens_cons
  have hne := kind_ne_whitespace h
  rw [htokens, List.dropWhile_cons_of_neg]
  rw [hkind]
  simpa using hne

/-- Without the white space that is first come the tokens of the place after it. -/
theorem dropWhile_tokens (c : Cursor) :
    c.tokens.dropWhile (·.kind == .whitespace) = c.skipSpace.tokens := by
  cases hspace : c.rest.head?.any isTagSpace with
  | false => rw [dropWhile_tokens_of_no_space hspace, c.skipSpace_eq_self hspace]
  | true =>
      cases hrest : c.rest with
      | nil => rw [hrest] at hspace; cases hspace
      | cons x t =>
          have hx : isTagSpace x = true := by rw [hrest] at hspace; exact hspace
          have htoken := firstToken?_of_space hx t
          rw [← hrest] at htoken
          have hskip : (Cursor.mk (c.offset + byteLength (x :: t.takeWhile isTagSpace))
              (t.dropWhile isTagSpace)) = c.skipSpace := by
            simp [skipSpace, takeWhile, hrest, hx]
          -- the token is all of the white space, so no more of it follows
          rw [tokens_of_firstToken? htoken, hskip, List.dropWhile_cons_of_pos rfl,
            dropWhile_tokens_of_no_space c.head_skipSpace]

end Cursor

/-! ## What a move leaves of the stream -/

namespace TokenStream

variable {source : List Char} {c d : Cursor} {v : TokenStream}

theorem current_eq (v : TokenStream) : v.current source
    = v.remaining.head?.getD
        ⟨.endOfFile, .ofOffsets (byteLength source) (byteLength source), []⟩ := by
  rw [current, remaining, List.head?_drop]

theorem remaining_advance (v : TokenStream) : v.advance.remaining = v.remaining.tail := by
  unfold advance remaining
  split
  · rw [List.tail_drop]
  · rename_i hend
    rw [List.drop_of_length_le (Nat.le_of_not_lt hend), List.tail_nil]

theorem remaining_advanceWhile (p : Token → Bool) (v : TokenStream) :
    (v.advanceWhile source p).remaining = v.remaining.dropWhile p := by
  fun_induction advanceWhile source p v with
  | case1 v h ih =>
      have hp : p v.tokens[v.pos] = true := by
        rw [← h.2, current, List.getElem?_eq_getElem h.1]
        rfl
      rw [ih, remaining_advance, remaining, List.drop_eq_getElem_cons h.1, List.tail_cons,
        List.dropWhile_cons_of_pos hp]
  | case2 v h =>
      rcases Nat.lt_or_ge v.pos v.tokens.length with hlt | hge
      · rw [remaining, List.drop_eq_getElem_cons hlt, List.dropWhile_cons_of_neg]
        intro hp
        refine h ⟨hlt, ?_⟩
        rwa [current, List.getElem?_eq_getElem hlt]
      · rw [remaining, List.drop_of_length_le hge, List.dropWhile_nil]

theorem remaining_skipSpace (v : TokenStream) :
    (v.skipSpace source).remaining = v.remaining.dropWhile (·.kind == .whitespace) :=
  remaining_advanceWhile _ v

/-- What is left of tokens after a move to the offset `stop`. -/
def skipTo (source : List Char) (stop : Nat) : List Token → List Token
  | [] => []
  | t :: ts =>
    if t.kind = .endOfFile then t :: ts
    else if t.span.stop ≤ min stop maxOffset then skipTo source stop ts
    else if t.span.start < min stop maxOffset then tokensAt source stop
    else t :: ts

theorem skipTo_eq (stop : Nat) {v w : TokenStream}
    (hw : w.remaining = v.remaining.dropWhile fun t =>
      t.span.stop ≤ min stop maxOffset && t.kind != .endOfFile) :
    skipTo source stop v.remaining
      = if (w.current source).span.start < min stop maxOffset ∧
            (w.current source).kind ≠ .endOfFile
          then tokensAt source stop else w.remaining := by
  rw [current_eq]
  generalize v.remaining = ts at hw
  generalize w.remaining = us at hw
  induction ts with
  | nil =>
      subst hw
      simp [skipTo]
  | cons t ts ih =>
      rw [skipTo]
      split
      · rename_i hend
        rw [List.dropWhile_cons_of_neg (by simp [hend])] at hw
        subst hw
        simp [hend]
      · rename_i hkind
        split
        · rename_i hle
          rw [List.dropWhile_cons_of_pos (by simp [hle, hkind])] at hw
          exact ih hw
        · rename_i hgt
          rw [List.dropWhile_cons_of_neg (by simp [hgt])] at hw
          subst hw
          simp [hkind]

theorem remaining_syncTo (stop : Nat) (v : TokenStream) :
    (v.syncTo source stop).remaining = skipTo source stop v.remaining := by
  have hw : (v.advanceWhile source _).remaining = _ := remaining_advanceWhile
    (fun t => t.span.stop ≤ min stop maxOffset && t.kind != .endOfFile) v
  unfold syncTo
  extract_lets w
  rw [skipTo_eq stop (w := w) hw]
  split
  · rename_i hinside
    -- the index is on a token, so that the list is cut off there
    refine List.drop_left' (List.length_take_of_le (Nat.le_of_not_lt fun hlt => hinside.2 ?_))
    rw [current, List.getElem?_eq_none (Nat.le_of_lt hlt)]
    rfl
  · rfl

/-- Skipping tokens up to a place further on gives the tokens of that place. -/
theorem skipTo_tokens (hc : c.LiesIn source) (hcd : c.Reaches d)
    (hd : d.offset < maxOffset ∨ d.rest = []) : skipTo source d.offset c.tokens = d.tokens := by
  have hlies := hc.reaches hcd
  -- by induction on what is left behind the first token that is skipped
  induction hn : c.rest.length using Nat.strongRecOn generalizing c with
  | ind n ih =>
      cases htoken : firstToken? c.rest with
      | none =>
          have hrest := firstToken?_eq_none.1 htoken
          obtain ⟨text, hover⟩ := hcd
          have htext : text = [] := by
            have := hover.1
            rw [hrest] at this
            exact (List.append_eq_nil_iff.1 this.symm).1
          rw [htext] at hover
          rw [hover.eq (Cursor.Over.refl c), Cursor.tokens_of_rest_nil hrest]
          rfl
      | some found =>
          obtain ⟨k, t, r⟩ := found
          have hover : c.Over t ⟨c.offset + byteLength t, r⟩ :=
            ⟨(firstToken?_eq_some htoken).1, rfl⟩
          have hnext := hc.reaches hover.reaches
          have hkind : k ≠ .endOfFile := by
            rintro rfl
            have hend : c.kind = .endOfFile := by rw [Cursor.kind, htoken]
            rw [Reader.kind_eq_endOfFile.1 hend] at htoken
            cases htoken
          -- where the greatest offset is reached, the place is the end of the source
          have hlast : d.rest = [] → c.offset + byteLength t ≤ d.offset := by
            intro hnil
            rw [hlies.offset_of_rest_nil hnil]
            exact hnext.offset_le
          have hle := hcd.offset_le
          rw [Cursor.tokens_of_firstToken? htoken, skipTo, if_neg hkind]
          split
          · rename_i hskip
            change min (c.offset + byteLength t) maxOffset ≤ _ at hskip
            refine ih _ (hn ▸ firstToken?_rest_lt htoken) hnext (hnext.reaches_of_le hlies ?_) rfl
            rcases hd with hlt | hnil
            · simp only
              omega
            · exact hlast hnil
          · rename_i hstay
            change ¬ min (c.offset + byteLength t) maxOffset ≤ _ at hstay
            have hlt : d.offset < maxOffset := by
              rcases hd with hlt | hnil
              · exact hlt
              · have := hlast hnil
                omega
            split
            · -- the place lies inside the token, and the text from there on is cut anew
              exact hlies.tokensAt
            · rename_i hinside
              change ¬ min c.offset maxOffset < _ at hinside
              have heq : c.offset = d.offset := by omega
              rw [← (Cursor.Reaches.refl c).eq_of_offset hcd heq,
                Cursor.tokens_of_firstToken? htoken]

/-- No token is known to end after the greatest offset, so all of them are skipped for it. -/
theorem skipTo_end {stop : Nat} (hstop : maxOffset ≤ stop) (c : Cursor) :
    skipTo source stop c.tokens = c.toEnd.tokens := by
  induction hn : c.rest.length using Nat.strongRecOn generalizing c with
  | ind n ih =>
      cases htoken : firstToken? c.rest with
      | none =>
          have hrest := firstToken?_eq_none.1 htoken
          have hend : c.toEnd = c := by
            obtain ⟨offset, rest⟩ := c
            obtain rfl : rest = [] := hrest
            rfl
          rw [hend, Cursor.tokens_of_rest_nil hrest]
          rfl
      | some found =>
          obtain ⟨k, t, r⟩ := found
          have hover : c.Over t ⟨c.offset + byteLength t, r⟩ :=
            ⟨(firstToken?_eq_some htoken).1, rfl⟩
          have hkind : k ≠ .endOfFile := by
            rintro rfl
            have hend : c.kind = .endOfFile := by rw [Cursor.kind, htoken]
            rw [Reader.kind_eq_endOfFile.1 hend] at htoken
            cases htoken
          have hskip : min (c.offset + byteLength t) maxOffset ≤ min stop maxOffset := by omega
          rw [Cursor.tokens_of_firstToken? htoken, skipTo, if_neg hkind,
            if_pos (show (Span.ofOffsets _ _).stop ≤ _ from hskip),
            ih _ (hn ▸ firstToken?_rest_lt htoken) _ rfl, hover.reaches.toEnd_eq]

end TokenStream

/-! ## Walks at a place -/

namespace Walk

/-- The walk has the tokens from the place of `c` on left. -/
structure At (source : List Char) (w : Walk) (c : Cursor) : Prop where
  lies : c.LiesIn source
  remaining : w.stream.remaining = c.tokens

variable {source : List Char} {c d : Cursor} {w w' w'' : Walk}

theorem at_ofSource (source : List Char) : (ofSource source).At source (.ofSource source) where
  lies := Cursor.liesIn_ofSource source
  remaining := (Cursor.liesIn_ofSource source).tokensAt

namespace At

theorem current_kind (h : w.At source c) : (w.current source).kind = c.kind := by
  obtain ⟨t, ts, htokens, hkind, -⟩ := c.exists_tokens_cons
  rw [current, TokenStream.current_eq, h.remaining, htokens]
  exact hkind

theorem current_span (h : w.At source c) : (w.current source).span = c.tokenSpan := by
  obtain ⟨t, ts, htokens, -, hspan⟩ := c.exists_tokens_cons
  rw [current, TokenStream.current_eq, h.remaining, htokens]
  exact hspan

/-- The offset of a walk is the one of its place, up to the greatest one. -/
theorem offset_eq_min (h : w.At source c) : w.offset source = min c.offset maxOffset := by
  rw [← c.tokenSpan_start, ← h.current_span]
  rfl

theorem offset_eq (hs : byteLength source ≤ maxOffset) (h : w.At source c) :
    w.offset source = c.offset := by
  rw [h.offset_eq_min, Nat.min_eq_left (Nat.le_trans h.lies.offset_le hs)]

/-- A sign of markup is one token. -/
theorem advance {k : TokenKind} {p : List Char} (h : w.At source c) (hkind : c.kind = k)
    (hk : k.spelling? = some p) : (w.advance source).At source (c.drop p.length) where
  lies := h.lies.reaches (c.over_drop p.length).reaches
  remaining := by
    rw [← Cursor.tail_tokens hkind hk, ← h.remaining]
    exact TokenStream.remaining_advance w.stream

theorem skipSpace (h : w.At source c) : (w.skipSpace source).At source c.skipSpace where
  lies := h.lies.reaches c.over_skipSpace.reaches
  remaining := by
    rw [← c.dropWhile_tokens, ← h.remaining]
    exact TokenStream.remaining_skipSpace w.stream

theorem syncTo (h : w.At source c) (hcd : c.Reaches d)
    (hd : d.offset < maxOffset ∨ d.rest = []) :
    (w.move source (.syncTo d.offset)).At source d where
  lies := h.lies.reaches hcd
  remaining := by
    rw [← TokenStream.skipTo_tokens h.lies hcd hd, ← h.remaining]
    exact TokenStream.remaining_syncTo d.offset w.stream

theorem syncTo_end {stop : Nat} (h : w.At source c) (hstop : maxOffset ≤ stop) :
    (w.move source (.syncTo stop)).At source c.toEnd where
  lies := h.lies.reaches c.over_toEnd.reaches
  remaining := by
    rw [← TokenStream.skipTo_end hstop c, ← h.remaining]
    exact TokenStream.remaining_syncTo stop w.stream

end At

end Walk

/-! ## Walks in step -/

theorem TokenStream.inStep_of_remaining {source : List Char} {v : TokenStream} {c : Cursor}
    (hs : byteLength source ≤ maxOffset) (hc : c.LiesIn source) (h : v.remaining = c.tokens) :
    v.InStep source := by
  have hoffset : v.offset source = c.offset := Walk.At.offset_eq (w := ⟨v, []⟩) hs ⟨hc, h⟩
  rw [InStep, hoffset, hc.tokensAt, h]

namespace Walk

/-- The walk is at the place of `c`, its moves have led it there, and the stream has been in step
with the source before, between and after them. -/
structure Follows (source : List Char) (w : Walk) (c : Cursor) : Prop extends w.At source c where
  performed : w.stream = (TokenStream.ofSource source).after source w.moves
  inStep : ∀ done, done <+: w.moves →
    ((TokenStream.ofSource source).after source done).InStep source

/-- From `w` the walk has gone on to `w'`, at the place of `d`. -/
def Leads (source : List Char) (w w' : Walk) (d : Cursor) : Prop :=
  w.moves <+: w'.moves ∧ w'.Follows source d

variable {source : List Char} {c d e : Cursor} {w w' w'' : Walk}

theorem follows_ofSource (hs : byteLength source ≤ maxOffset) :
    (ofSource source).Follows source (.ofSource source) where
  toAt := at_ofSource source
  performed := rfl
  inStep := by
    intro done hdone
    rw [List.prefix_nil.1 hdone]
    exact TokenStream.inStep_of_remaining hs (at_ofSource source).lies (at_ofSource source).remaining

theorem Follows.leads (h : w.Follows source c) : w.Leads source w c := ⟨List.prefix_rfl, h⟩

theorem Leads.follows (h : w.Leads source w' d) : w'.Follows source d := h.2

theorem Leads.trans (h : w.Leads source w' d) (h' : w'.Leads source w'' e) :
    w.Leads source w'' e := ⟨h.1.trans h'.1, h'.2⟩

/-- One more move. -/
theorem Follows.move {m : TokenStream.Move} (hs : byteLength source ≤ maxOffset)
    (h : w.Follows source c) (hd : (w.move source m).At source d) :
    w.Leads source (w.move source m) d := by
  have hafter : (TokenStream.ofSource source).after source (w.moves ++ [m])
      = m.perform source w.stream := by
    rw [h.performed]
    exact List.foldl_append
  refine ⟨List.prefix_append _ _, hd, hafter.symm, fun done hdone => ?_⟩
  rcases List.prefix_concat_iff.1 hdone with rfl | hdone
  · rw [hafter]
    exact TokenStream.inStep_of_remaining hs hd.lies hd.remaining
  · exact h.inStep done hdone

theorem Follows.advance {k : TokenKind} {p : List Char} (hs : byteLength source ≤ maxOffset)
    (h : w.Follows source c) (hkind : c.kind = k) (hk : k.spelling? = some p) :
    w.Leads source (w.advance source) (c.drop p.length) :=
  h.move hs (h.toAt.advance hkind hk)

theorem Follows.skipSpace (hs : byteLength source ≤ maxOffset) (h : w.Follows source c) :
    w.Leads source (w.skipSpace source) c.skipSpace := h.move hs h.toAt.skipSpace

theorem Follows.sync? (hs : byteLength source ≤ maxOffset) (h : w.Follows source c)
    (hcd : c.Reaches d) : ∃ w', w.sync? source d.offset = some w' ∧ w.Leads source w' d := by
  have hd := h.lies.reaches hcd
  refine ⟨_, ?_, h.move hs (h.toAt.syncTo hcd (hd.fits hs))⟩
  rw [Walk.sync?, hd.dropBytes?, Option.map_some]

end Walk

end AstroTemplate
