import AstroTemplate.Proofs.Progress

set_option autoImplicit false

/-! # Sources of any size

The offset of a token does not grow beyond the greatest offset of spans. In a source of 2^32 bytes
or more a walk can therefore be at a place that lies further on than its offset says, and what is
then read from the source is read from the greatest offset on.

How a walk comes to such a place is limited. A move to an offset ends before the greatest one or at
the end of the source (`Cursor.Settled`). So there are only tokens between the last such move and
the place, and inside a start tag these are white space and the signs of `isTagMark`: one of those
is the character at the greatest offset (`Walk.Placed`). Every function of the reader by tokens, if
it has a result, leads from a place of this kind to another one.

The reader moves on also there, though its offset does not show it. So it is never a bound on its
turns that keeps it from a result (`readProps?_add`).
-/

namespace AstroTemplate

/-! ## Cuts -/

theorem Cursor.liesIn_of_dropBytes? {source rest : List Char} {k : Nat}
    (h : dropBytes? k source = some rest) : (Cursor.mk k rest).LiesIn source := by
  obtain ⟨before, hsource, hbefore⟩ := eq_append_of_dropBytes? h
  exact Cursor.liesIn_iff.2 ⟨before, hsource, hbefore.symm⟩

/-- Where a text is cut inside, one of its characters follows. -/
theorem Cursor.Over.mem_of_dropBytes? {source text t : List Char} {c d : Cursor} {k : Nat}
    {x : Char} (hover : c.Over text d) (hc : c.LiesIn source) (hle : c.offset ≤ k)
    (hlt : k < d.offset) (hcut : dropBytes? k source = some (x :: t)) : x ∈ text := by
  have hm := Cursor.liesIn_of_dropBytes? hcut
  obtain ⟨left, hleft⟩ := hc.reaches_of_le hm hle
  obtain ⟨right, hright⟩ := hm.reaches_of_le (hc.reaches hover.reaches) (Nat.le_of_lt hlt)
  have hsplit : text = left ++ right :=
    List.append_cancel_right (hover.1.symm.trans (hleft.trans hright).1)
  cases right with
  | nil =>
      have hoffset : d.offset = k + byteLength [] := hright.2
      rw [byteLength_nil] at hoffset
      omega
  | cons y right =>
      have hhead : x :: t = y :: (right ++ d.rest) := hright.1
      rw [hsplit, (List.cons.inj hhead).1]
      exact List.mem_append_right _ List.mem_cons_self

/-! ## Places that can be come to -/

/-- The place is before the greatest offset, or it is the end of the source. -/
def Cursor.Settled (c : Cursor) : Prop := c.offset < maxOffset ∨ c.rest = []

/-- A character that stands in a start tag outside of names and values. -/
def isTagMark (x : Char) : Bool := isTagSpace x || x == '/' || x == '=' || x == '>'

namespace Walk

/-- The walk is at a place that it can have come to. -/
structure Placed (source : List Char) (w : Walk) (c : Cursor) : Prop extends w.At source c where
  mark : maxOffset < c.offset → c.rest ≠ [] →
    ∀ x t, dropBytes? maxOffset source = some (x :: t) → isTagMark x = true

variable {source : List Char} {c d : Cursor} {w w' : Walk} {stop : Nat}

theorem At.placed (hw : w.At source c) (hc : c.Settled) : w.Placed source c where
  toAt := hw
  mark := by
    intro hfar hne
    rcases hc with hlt | hnil
    · omega
    · exact absurd hnil hne

/-- From a place that can be come to one comes to those behind signs of a start tag. -/
theorem Placed.over {text : List Char} (hw : w.Placed source c) (hw' : w'.At source d)
    (hover : c.Over text d) (htext : ∀ x ∈ text, isTagMark x = true) : w'.Placed source d where
  toAt := hw'
  mark := by
    intro hfar hne x t hcut
    rcases Nat.lt_or_ge maxOffset c.offset with hlt | hge
    · refine hw.mark hlt ?_ x t hcut
      rw [hover.1]
      simp [hne]
    · exact htext x (hover.mem_of_dropBytes? hw.lies hge hfar hcut)

theorem Placed.skipSpace (hw : w.Placed source c) :
    (w.skipSpace source).Placed source c.skipSpace := by
  refine hw.over hw.toAt.skipSpace c.over_skipSpace fun x hx => ?_
  rw [isTagMark, List.all_eq_true.1 List.all_takeWhile x hx]
  rfl

theorem Placed.advance {k : TokenKind} {p : List Char} (hw : w.Placed source c)
    (hkind : c.kind = k) (hk : k.spelling? = some p) (hmark : ∀ x ∈ p, isTagMark x = true) :
    (w.advance source).Placed source (c.drop p.length) := by
  obtain ⟨t, hrest⟩ := c.rest_of_kind hkind hk
  exact hw.over (hw.toAt.advance hkind hk) (Cursor.over_drop_length hrest) hmark

/-- A move to the offset `stop` has led from the place of `c` to the one of `d`: to that offset, or
to the end. -/
structure Lands (source : List Char) (c : Cursor) (stop : Nat) (w' : Walk) (d : Cursor) : Prop
    extends w'.At source d where
  reaches : c.Reaches d
  cut : stop ≤ byteLength source
  place : d.offset = stop ∧ stop < maxOffset ∨ d.rest = [] ∧ maxOffset ≤ stop

theorem At.sync? (hw : w.At source c) (hle : w.offset source ≤ stop)
    (h : w.sync? source stop = some w') : ∃ d, Lands source c stop w' d := by
  obtain ⟨rest, hrest, rfl⟩ := Option.map_eq_some_iff.1 h
  have hd := Cursor.liesIn_of_dropBytes? hrest
  rw [hw.offset_eq_min] at hle
  rcases Nat.lt_or_ge stop maxOffset with hlt | hge
  · have hreach : c.Reaches ⟨stop, rest⟩ := hw.lies.reaches_of_le hd (show c.offset ≤ stop by omega)
    have hmoved := hw.syncTo hreach (.inl hlt)
    exact ⟨_, hmoved, hreach, hd.offset_le, .inl ⟨rfl, hlt⟩⟩
  · -- no token ends beyond the greatest offset, so all of them are passed over
    exact ⟨_, hw.syncTo_end hge, c.over_toEnd.reaches, hd.offset_le, .inr ⟨rfl, hge⟩⟩

theorem Lands.settled (h : Lands source c stop w' d) : d.Settled := by
  rcases h.place with ⟨rfl, hlt⟩ | ⟨hnil, -⟩
  · exact .inl hlt
  · exact .inr hnil

theorem Lands.placed (h : Lands source c stop w' d) : w'.Placed source d :=
  h.toAt.placed h.settled

/-- Where the source goes on, the move has led to its offset. -/
theorem Lands.offset_of_rest_ne_nil (h : Lands source c stop w' d) (hne : d.rest ≠ []) :
    d.offset = stop ∧ stop < maxOffset :=
  h.place.resolve_right fun hend => hne hend.1

theorem Lands.rest_nil (h : Lands source c stop w' d) (hge : maxOffset ≤ stop) : d.rest = [] := by
  rcases h.place with ⟨-, hlt⟩ | ⟨hnil, -⟩
  · omega
  · exact hnil

theorem Lands.offset_eq (h : Lands source c stop w' d) :
    w'.offset source = min stop maxOffset := by
  rw [h.toAt.offset_eq_min]
  rcases h.place with ⟨rfl, -⟩ | ⟨hnil, hge⟩
  · rfl
  · rw [h.lies.offset_of_rest_nil hnil]
    have := h.cut
    omega

/-- A move to a greater offset leads on, and so does every one that leads to the end. -/
theorem Lands.shorter (h : Lands source c stop w' d) (hne : c.rest ≠ [])
    (hlt : c.offset < stop ∨ maxOffset ≤ stop) : d.rest.length < c.rest.length := by
  rcases h.place with ⟨rfl, hnear⟩ | ⟨hnil, -⟩
  · obtain ⟨text, hover⟩ := h.reaches
    have htext : text ≠ [] := by
      rintro rfl
      have hoffset : d.offset = c.offset := hover.2
      omega
    rw [hover.1, List.length_append]
    have := List.length_pos_iff.2 htext
    omega
  · rw [hnil]
    exact List.length_pos_iff.2 hne

end Walk

/-! ## Start tags -/

namespace TokenReader

variable {source : List Char} {c d : Cursor} {w w' : Walk} {checked : Bool}

theorem takeWhile?_lands {p : Char → Bool} {text : List Char} {span : Span} (hw : w.At source c)
    (h : takeWhile? source p w = some (text, span, w')) :
    ∃ stop d, Walk.Lands source c stop w' d ∧ span = .ofOffsets (w.offset source) stop ∧
      w.offset source ≤ stop ∧ (c.offset ≤ maxOffset → stop = (c.takeWhile p).2.offset) := by
  simp only [takeWhile?, Option.bind_eq_bind, Option.bind_eq_some_iff] at h
  obtain ⟨rest, hrest, after, hsync, found, -, heq⟩ := h
  obtain ⟨rfl, rfl, rfl⟩ : found = text ∧ _ = span ∧ after = w' := by
    simpa using heq
  obtain ⟨d, hd⟩ := hw.sync? (Nat.le_add_right _ _) hsync
  refine ⟨_, d, hd, rfl, Nat.le_add_right _ _, fun hle => ?_⟩
  rw [hw.offset_eq_min, Nat.min_eq_left hle] at hrest ⊢
  rw [hw.lies.dropBytes?] at hrest
  obtain rfl := Option.some.inj hrest
  rw [stop_takeWhile hw.lies]

theorem le_spaceStop? {start stop : Nat} (h : spaceStop? source start = some stop) :
    start ≤ stop := by
  simp only [spaceStop?, Option.bind_eq_bind, Option.bind_eq_some_iff] at h
  obtain ⟨rest, hrest, heq⟩ := h
  have hle := (Cursor.liesIn_of_dropBytes? hrest).offset_le
  cases hfind : findChar? (fun c => !isTagSpace c) rest with
  | none =>
      rw [hfind] at heq
      obtain rfl := Option.some.inj heq
      exact hle
  | some size =>
      rw [hfind] at heq
      obtain rfl := Option.some.inj heq
      exact Nat.le_add_right _ _

/-- After a value the place is settled if it was so before. -/
theorem readValue?_settled {value : Scan (Value × Nat)} (hw : w.At source c) (hc : c.Settled)
    (h : readValue? source w = some value) :
    ∃ d, value.walk.At source d ∧ c.Reaches d ∧ d.Settled := by
  have hoffset : w.offset source ≤ byteLength source := by
    rw [hw.offset_eq_min]
    exact Nat.le_trans (Nat.min_le_left _ _) hw.lies.offset_le
  simp only [readValue?, Option.bind_eq_bind, Option.bind_eq_some_iff] at h
  obtain ⟨rest, -, h⟩ := h
  split at h
  · obtain rfl := Option.some.inj h
    exact ⟨c, hw, Cursor.Reaches.refl c, hc⟩
  · split at h
    · -- a value in quotes, up to the closing one or to the end of the source
      simp only [Option.bind_eq_some_iff] at h
      obtain ⟨inner, -, h⟩ := h
      split at h
      · simp only [Option.bind_eq_some_iff] at h
        obtain ⟨after, hsync, raw, -, heq⟩ := h
        obtain rfl := Option.some.inj heq
        obtain ⟨d, hd⟩ := hw.sync? (by omega) hsync
        exact ⟨d, hd.toAt, hd.reaches, hd.settled⟩
      · simp only [Option.bind_eq_some_iff] at h
        obtain ⟨after, hsync, raw, -, heq⟩ := h
        obtain rfl := Option.some.inj heq
        obtain ⟨d, hd⟩ := hw.sync? hoffset hsync
        exact ⟨d, hd.toAt, hd.reaches, hd.settled⟩
    · split at h
      · obtain rfl := Option.some.inj h
        exact ⟨c, hw, Cursor.Reaches.refl c, hc⟩
      · simp only [Option.bind_eq_some_iff] at h
        obtain ⟨⟨raw, span, after⟩, htake, heq⟩ := h
        obtain rfl := Option.some.inj heq
        obtain ⟨stop, d, hd, -⟩ := takeWhile?_lands hw htake
        exact ⟨d, hd.toAt, hd.reaches, hd.settled⟩

theorem readProp?_settled {prop : Scan TagProp} (hw : w.At source c)
    (hspace : c.rest.head?.any isTagSpace = false) (hkind : c.kind ∉ signsInTag)
    (h : readProp? source w = some prop) :
    ∃ d, prop.walk.At source d ∧ c.Reaches d ∧ d.Settled ∧ d.rest.length < c.rest.length := by
  obtain ⟨first, t, hrest, -, -, -, hfirst⟩ := exists_name_of_kind hspace hkind
  simp only [readProp?, Option.bind_eq_bind, Option.bind_eq_some_iff] at h
  obtain ⟨⟨name, nameSpan, afterName⟩, htake, parts, -, equals, hequals, rest, -, h⟩ := h
  obtain ⟨stop, d, hd, hspan, hle, hstop⟩ := takeWhile?_lands hw htake
  have hshorter : d.rest.length < c.rest.length := by
    refine hd.shorter (by rw [hrest]; exact List.cons_ne_nil _ _) ?_
    rw [hw.offset_eq_min] at hle
    rcases Nat.lt_or_ge c.offset maxOffset with hlt | hge
    · -- the name has a character at least
      have hover := (c.over_takeWhile isPropNameChar).offset_lt
        (by simp [Cursor.takeWhile, hrest, hfirst])
      rw [hstop (Nat.le_of_lt hlt)]
      exact .inl hover
    · exact .inr (by omega)
  split at h
  · simp only [Option.bind_eq_some_iff] at h
    obtain ⟨valueStart, hstart, atValue, hsync, value, hvalue, heq⟩ := h
    obtain rfl := Option.some.inj heq
    have hbefore : afterName.offset source ≤ valueStart := by
      have hfirst : nameSpan.stop ≤ equals := le_spaceStop? hequals
      have hsecond := le_spaceStop? hstart
      have hnameStop : nameSpan.stop = min stop maxOffset := by rw [hspan]; rfl
      rw [hd.offset_eq]
      omega
    obtain ⟨m, hm⟩ := hd.toAt.sync? hbefore hsync
    obtain ⟨e, he, hreach, hsettled⟩ := readValue?_settled hm.toAt hm.settled hvalue
    refine ⟨e, he, hd.reaches.trans (hm.reaches.trans hreach), hsettled, ?_⟩
    exact Nat.lt_of_le_of_lt (hm.reaches.trans hreach).rest_le hshorter
  · obtain rfl := Option.some.inj h
    exact ⟨d, hd.toAt, hd.reaches, hd.settled, hshorter⟩

/-- A turn of the loop over attributes leads on. -/
theorem propTurn?_placed {turn : Scan (List TagProp)} (hw : w.Placed source c)
    (h : propTurn? source w = some (some turn)) :
    ∃ d, turn.walk.Placed source d ∧ c.Reaches d ∧ d.rest.length < c.rest.length := by
  have hprop := hw.skipSpace
  have hreach := c.over_skipSpace.reaches
  have hadvance : ∀ {k : TokenKind} {x : Char}, c.skipSpace.kind = k → k.spelling? = some [x] →
      isTagMark x = true → ∃ d, ((w.skipSpace source).advance source).Placed source d ∧
        c.Reaches d ∧ d.rest.length < c.rest.length := by
    intro k x hkind hk hx
    obtain ⟨t, hrest⟩ := Cursor.rest_of_kind hkind hk
    refine ⟨_, hprop.advance hkind hk (by simpa using hx),
      hreach.trans (c.skipSpace.over_drop 1).reaches, ?_⟩
    refine Nat.lt_of_lt_of_le ?_ hreach.rest_le
    simp [Cursor.drop, hrest]
  unfold propTurn? at h
  simp only [hprop.toAt.current_kind] at h
  -- signs of the tag are passed over as tokens; any other token begins the name of an attribute
  cases hkind : c.skipSpace.kind
  case tagClose | selfClose | endOfFile | tagOpen | closingTagOpen | commentOpen =>
    rw [hkind] at h
    cases h
  case slash =>
    rw [hkind] at h
    cases h
    exact hadvance hkind rfl (by decide)
  case equals =>
    rw [hkind] at h
    cases h
    exact hadvance hkind rfl (by decide)
  all_goals
    rw [hkind] at h
    obtain ⟨prop, hread, heq⟩ := Option.map_eq_some_iff.1 h
    obtain rfl := Option.some.inj heq
    obtain ⟨d, hd, hreach', hsettled, hshorter⟩ :=
      readProp?_settled hprop.toAt c.head_skipSpace (by rw [hkind]; decide) hread
    exact ⟨d, hd.placed hsettled, hreach.trans hreach',
      Nat.lt_of_lt_of_le hshorter hreach.rest_le⟩

theorem readProps?_placed {bound : Nat} {props : Scan (List TagProp)} (hw : w.Placed source c)
    (h : readProps? source checked bound w = some props) :
    ∃ d, props.walk.Placed source d ∧ c.Reaches d := by
  induction bound generalizing c w props with
  | zero => cases h
  | succ bound ih =>
      simp only [readProps?, Option.bind_eq_bind, Option.bind_eq_some_iff] at h
      obtain ⟨turn, hturn, h⟩ := h
      cases turn with
      | none =>
          obtain rfl := Option.some.inj h
          exact ⟨_, hw.skipSpace, c.over_skipSpace.reaches⟩
      | some turn =>
          obtain ⟨d, hd, hreach, -⟩ := propTurn?_placed hw hturn
          simp only at h
          split at h
          · obtain ⟨more, hmore, heq⟩ := Option.bind_eq_some_iff.1 h
            obtain rfl := Option.some.inj heq
            obtain ⟨e, he, hreach'⟩ := ih hd hmore
            exact ⟨e, he, hreach.trans hreach'⟩
          · cases h

/-- A bound above the number of characters left is as good as every greater one. -/
theorem readProps?_add {bound : Nat} (hw : w.Placed source c) (hbound : c.rest.length < bound)
    (more : Nat) :
    readProps? source checked (bound + more) w = readProps? source checked bound w := by
  induction bound generalizing c w with
  | zero => omega
  | succ bound ih =>
      rw [Nat.succ_add, readProps?, readProps?]
      cases hturn : propTurn? source w with
      | none => rfl
      | some turn =>
          cases turn with
          | none => rfl
          | some turn =>
              obtain ⟨d, hd, -, hshorter⟩ := propTurn?_placed hw hturn
              simp only [Option.bind_eq_bind, Option.bind_some, ih hd (by omega)]

theorem readStartTag?_placed {tag : Scan StartTag} (hw : w.At source c)
    (hkind : c.kind = .tagOpen) (h : readStartTag? source checked w = some tag) :
    ∃ d, tag.walk.Placed source d ∧ c.Reaches d ∧ d.rest.length < c.rest.length := by
  obtain ⟨t, hrest⟩ := Cursor.rest_of_kind hkind rfl
  have hopen := hw.advance hkind rfl
  simp only [readStartTag?, Option.bind_eq_bind, Option.bind_eq_some_iff] at h
  obtain ⟨⟨name, span, atProps⟩, htake, props, hprops, h⟩ := h
  obtain ⟨stop, d, hd, -⟩ := takeWhile?_lands hopen htake
  obtain ⟨e, he, hreach⟩ := readProps?_placed hd.placed hprops
  have hfirst : c.Reaches (c.drop 1) := (c.over_drop 1).reaches
  have hall : c.Reaches e := hfirst.trans (hd.reaches.trans hreach)
  have hshorter : e.rest.length < c.rest.length := by
    refine Nat.lt_of_le_of_lt (hd.reaches.trans hreach).rest_le ?_
    simp [Cursor.drop, hrest]
  have hadvance : ∀ {k : TokenKind} {p : List Char}, e.kind = k → k.spelling? = some p →
      (∀ x ∈ p, isTagMark x = true) → ∃ f, (props.walk.advance source).Placed source f ∧
        c.Reaches f ∧ f.rest.length < c.rest.length := by
    intro k p hkind hk hmark
    have hlast := (e.over_drop p.length).reaches
    exact ⟨_, he.advance hkind hk hmark, hall.trans hlast,
      Nat.lt_of_le_of_lt hlast.rest_le hshorter⟩
  -- the tag ends with its sign, or without one where no attribute follows
  rw [he.toAt.current_kind] at h
  cases hlast : e.kind
  case selfClose =>
    rw [hlast] at h
    obtain rfl := Option.some.inj h
    exact hadvance hlast rfl (List.all_eq_true.1 rfl)
  case tagClose =>
    rw [hlast] at h
    obtain rfl := Option.some.inj h
    exact hadvance hlast rfl (List.all_eq_true.1 rfl)
  all_goals
    rw [hlast] at h
    obtain rfl := Option.some.inj h
    exact ⟨e, he, hall, hshorter⟩

end TokenReader

end AstroTemplate
