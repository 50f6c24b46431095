import AstroTemplate.Proofs.LongestMatch
import AstroTemplate.Proofs.Progress

set_option autoImplicit false

/-! # The stream of tokens stays in step

A stream is in step with its source when the tokens it has left are those that the source gives when
it is cut into tokens at the offset of the stream. The list of tokens is made once and is cut off
and extended later, so this has to hold again after every move.

The walk of the reader is followed by cursors, move by move (`Walk.Follows`), and with every move
the stream is seen to be in step. `inStep_throughout` is the statement about all of a reading, and
about single moves.
-/

namespace AstroTemplate

namespace TokenStream

variable {source : List Char} {v : TokenStream}

theorem offset_ofSource (hs : byteLength source ≤ maxOffset) :
    (ofSource source).offset source = 0 :=
  (Walk.at_ofSource source).offset_eq hs

/-- A stream that is in step is at a place of the source. -/
theorem InStep.exists_place (h : v.InStep source) :
    ∃ c : Cursor, (Walk.mk v []).At source c := by
  rw [InStep, tokensAt] at h
  cases hrest : dropBytes? (v.offset source) source with
  | none =>
      rw [hrest] at h
      refine ⟨(Cursor.ofSource source).toEnd, (Cursor.over_toEnd _).reaches, ?_⟩
      rw [Cursor.tokens, (Cursor.liesIn_ofSource source).toEnd_offset]
      exact h
  | some rest =>
      rw [hrest] at h
      obtain ⟨before, hsource, hbefore⟩ := eq_append_of_dropBytes? hrest
      exact ⟨⟨v.offset source, rest⟩, Cursor.liesIn_iff.2 ⟨before, hsource, hbefore.symm⟩, h⟩

/-- Where a stream that is in step is moved to. -/
theorem InStep.syncTo (hs : byteLength source ≤ maxOffset) (h : v.InStep source) {stop : Nat}
    (hstop : (dropBytes? stop source).isSome = true) (hle : v.offset source ≤ stop) :
    (v.syncTo source stop).offset source = stop ∧ (v.syncTo source stop).InStep source := by
  obtain ⟨c, hc⟩ := h.exists_place
  obtain ⟨rest, hrest⟩ := Option.isSome_iff_exists.1 hstop
  obtain ⟨before, hsource, hbefore⟩ := eq_append_of_dropBytes? hrest
  have hd : (Cursor.mk stop rest).LiesIn source :=
    Cursor.liesIn_iff.2 ⟨before, hsource, hbefore.symm⟩
  have hoffset : v.offset source = c.offset := hc.offset_eq hs
  have hreach : c.Reaches ⟨stop, rest⟩ := hc.lies.reaches_of_le hd (hoffset ▸ hle)
  have hplace := hc.syncTo hreach (hd.fits hs)
  exact ⟨hplace.offset_eq hs, inStep_of_remaining hs hd hplace.remaining⟩

theorem InStep.advance (hs : byteLength source ≤ maxOffset) (h : v.InStep source)
    (hkind : (v.current source).kind ≠ .endOfFile) :
    v.advance.offset source = (v.current source).span.stop ∧ v.advance.InStep source := by
  obtain ⟨c, hc⟩ := h.exists_place
  have hsame : v.current source = _ := v.current_eq
  have hremaining : v.remaining = c.tokens := hc.remaining
  rw [hsame, hremaining] at hkind ⊢
  cases htoken : firstToken? c.rest with
  | none =>
      rw [Cursor.tokens_of_rest_nil (firstToken?_eq_none.1 htoken)] at hkind
      exact absurd rfl hkind
  | some found =>
      obtain ⟨k, t, rest⟩ := found
      have hd := hc.lies.reaches (Cursor.over_of_firstToken? htoken).reaches
      have hplace : (Walk.mk v.advance []).At source (Cursor.mk (c.offset + byteLength t) rest) := by
        refine ⟨hd, (remaining_advance v).trans ?_⟩
        rw [hremaining, Cursor.tokens_of_firstToken? htoken, List.tail_cons]
      refine ⟨(hplace.offset_eq hs).trans ?_, inStep_of_remaining hs hd hplace.remaining⟩
      rw [Cursor.tokens_of_firstToken? htoken]
      exact (Nat.min_eq_left (Nat.le_trans hd.offset_le hs)).symm

/-- **The stream of tokens is always in step with the source.** Let a source be shorter than 2^32
bytes. At every point of reading it, the tokens that remain in the stream are the tokens of the
source from the offset of the next one on. Among these points are the places where the reader is
between two steps.

A stream that is in step stays so when it advances over a token. When it is moved to an offset at
which the source can be cut, and which is not behind it, it is at exactly this offset afterwards and
in step there, whether a token begins there, the offset lies inside a token, or the source ends. -/
theorem inStep_throughout (mode : WhitespaceMode) (source : List Char)
    (hs : byteLength source ≤ maxOffset) :
    (∃ moves, TokenReader.moves? source mode = some moves ∧
      (∀ done, done <+: moves → ((ofSource source).after source done).InStep source) ∧
      ∀ n, ∃ done, done <+: moves ∧ ((ofSource source).after source done).offset source
        = ((Reader.step mode)^[n] (Reader.ofSource source)).cursor.offset) ∧
    ∀ v : TokenStream, v.InStep source →
      ((v.current source).kind ≠ .endOfFile →
        v.advance.offset source = (v.current source).span.stop ∧ v.advance.InStep source) ∧
      ∀ stop, (dropBytes? stop source).isSome = true → v.offset source ≤ stop →
        (v.syncTo source stop).offset source = stop ∧ (v.syncTo source stop).InStep source := by
  obtain ⟨w, hread, hwalk, hplaces⟩ := TokenReader.readToEnd?_follows true hs mode
  refine ⟨⟨w.moves, ?_, hwalk.inStep, fun n => ?_⟩,
    fun v hv => ⟨hv.advance hs, fun stop => hv.syncTo hs⟩⟩
  · rw [TokenReader.moves?, hread]
    rfl
  · obtain ⟨wₙ, hmoves, hplace⟩ := hplaces n
    refine ⟨wₙ.moves, hmoves, ?_⟩
    rw [← hplace.performed]
    exact hplace.toAt.offset_eq hs

/-- A value that ends inside a token: from the offset 5, where a token of two characters begins, the
stream is moved to the offset 6 between them. -/
theorem inStep_throughout_slash :
    byteLength ['<', 'p', ' ', 'a', '=', '/', '>'] ≤ maxOffset ∧
      ∃ v : TokenStream, v.InStep ['<', 'p', ' ', 'a', '=', '/', '>'] ∧
        (v.current ['<', 'p', ' ', 'a', '=', '/', '>']).span = ⟨5, 7⟩ ∧
        (v.syncTo ['<', 'p', ' ', 'a', '=', '/', '>'] 6).offset ['<', 'p', ' ', 'a', '=', '/', '>']
          = 6 ∧
        (v.syncTo ['<', 'p', ' ', 'a', '=', '/', '>'] 6).InStep
          ['<', 'p', ' ', 'a', '=', '/', '>'] := by
  have hsize : byteLength ['<', 'p', ' ', 'a', '=', '/', '>'] ≤ maxOffset := by decide
  obtain ⟨⟨moves, -, hpoints, -⟩, hmove⟩ :=
    inStep_throughout .condense ['<', 'p', ' ', 'a', '=', '/', '>'] hsize
  obtain ⟨hoffset, hin⟩ := (hmove _ (hpoints [] List.nil_prefix)).2 5
    (congrArg Option.isSome (dropBytes?_append ['<', 'p', ' ', 'a', '='] ['/', '>']))
    ((offset_ofSource hsize).trans_le (Nat.zero_le 5))
  have hcut : (Cursor.mk 5 ['/', '>']).LiesIn ['<', 'p', ' ', 'a', '=', '/', '>'] :=
    Cursor.liesIn_iff.2 ⟨['<', 'p', ' ', 'a', '='], rfl, rfl⟩
  have htokens : tokensAt ['<', 'p', ' ', 'a', '=', '/', '>'] 5
      = ⟨.selfClose, .ofOffsets 5 (5 + byteLength ['/', '>']), ['/', '>']⟩ ::
        (Cursor.mk (5 + byteLength ['/', '>']) []).tokens := by
    have hfirst : firstToken? ['/', '>'] = some (.selfClose, ['/', '>'], []) := rfl
    exact hcut.tokensAt.trans (Cursor.tokens_of_firstToken? hfirst)
  refine ⟨hsize, _, hin, ?_, (hmove _ hin).2 6
    (congrArg Option.isSome (dropBytes?_append ['<', 'p', ' ', 'a', '=', '/'] ['>']))
    (hoffset.trans_le (Nat.le_succ 5))⟩
  rw [current_eq, show TokenStream.remaining _ = _ from hin, hoffset, htokens]
  rfl

end TokenStream

end AstroTemplate
