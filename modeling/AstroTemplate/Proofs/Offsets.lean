import AstroTemplate.Proofs.TokenReader
import AstroTemplate.Proofs.Walks
import Mathlib.Data.List.TakeWhile

set_option autoImplicit false

/-! # Cursors and offsets

The functions that read by tokens and offsets do, on a walk that is at a place of the source, what
the reading functions do at the cursor of that place. Above all they have a result there: every
offset they come to is the offset of a place again, and the walk goes on to that place.
-/

namespace AstroTemplate

namespace TokenReader

variable {source : List Char} {c d : Cursor} {w : Walk}

/-! ## Searching from a place -/

theorem findChar?_getD (p : Char → Bool) (s : List Char) :
    (findChar? p s).getD (byteLength s) = byteLength (s.takeWhile fun x => !p x) := by
  unfold findChar?
  split
  · rfl
  · rename_i hany
    have hall : s.takeWhile (fun x => !p x) = s := by
      rw [List.takeWhile_eq_self_iff]
      simpa using hany
    rw [hall, Option.getD_none]

theorem find?_rest (c : Cursor) (p : List Char) :
    find? p c.rest = (c.cutAt? p).map fun found => byteLength found.1 := by
  rw [find?, Cursor.cutAt?, Option.map_map]
  rfl

theorem stop_spanTo (hs : byteLength source ≤ maxOffset) (hc : c.LiesIn source)
    (hcd : c.Reaches d) : (c.spanTo d).stop = d.offset := by
  rw [Cursor.spanTo_eq hs hc (hc.reaches hcd)]

/-- The characters up to the first one that fails `p` end where the search for that one does. -/
theorem stop_takeWhile (hc : c.LiesIn source) (p : Char → Bool) :
    c.offset + (findChar? (fun x => !p x) c.rest).getD (byteLength source - c.offset)
      = (c.takeWhile p).2.offset := by
  rw [← hc.byteLength_rest, findChar?_getD, (c.over_takeWhile p).2]
  simp only [Bool.not_not]
  rfl

theorem takeWhile?_follows (hs : byteLength source ≤ maxOffset) (hw : w.Follows source c)
    (p : Char → Bool) :
    ∃ w', takeWhile? source p w = some ((c.takeWhile p).1, c.spanTo (c.takeWhile p).2, w') ∧
      w.Leads source w' (c.takeWhile p).2 := by
  have hover := c.over_takeWhile p
  obtain ⟨w', hsync, hleads⟩ := hw.sync? hs hover.reaches
  refine ⟨w', ?_, hleads⟩
  rw [takeWhile?, hw.toAt.offset_eq hs, hw.lies.dropBytes?]
  simp only [Option.bind_eq_bind, Option.bind_some, stop_takeWhile hw.lies, hsync,
    hw.lies.slice?_of_over hover]
  rfl

theorem spaceStop?_offset (hc : c.LiesIn source) :
    spaceStop? source c.offset = some c.skipSpace.offset := by
  have hstop : ((findChar? (fun x => !isTagSpace x) c.rest).map (c.offset + ·)).getD
      (byteLength source) = c.offset + (findChar? (fun x => !isTagSpace x) c.rest).getD
        (byteLength c.rest) := by
    have hle := hc.offset_le
    cases findChar? (fun x => !isTagSpace x) c.rest with
    | none =>
        show byteLength source = c.offset + byteLength c.rest
        rw [hc.byteLength_rest]
        omega
    | some size => rfl
  rw [spaceStop?, hc.dropBytes?]
  simp only [Option.bind_eq_bind, Option.bind_some, hstop, findChar?_getD, Bool.not_not]
  rfl

/-! ## Values -/

/-- Moving over one character of one byte. -/
theorem drop_one_offset {x : Char} {t : List Char} (hrest : c.rest = x :: t)
    (hx : x.utf8Size = 1) : (c.drop 1).offset = c.offset + 1 := by
  simp [Cursor.drop, hrest, hx]

theorem readValue?_follows (hs : byteLength source ≤ maxOffset) (hw : w.Follows source c) :
    ∃ w', readValue? source w = some ⟨((readValue c).value, (readValue c).next.offset),
        (readValue c).errors, w'⟩ ∧ w.Leads source w' (readValue c).next := by
  have hc := hw.lies
  rw [readValue?, hw.toAt.offset_eq hs, hc.dropBytes?, hw.toAt.current_span, readValue]
  simp only [Option.bind_eq_bind, Option.bind_some]
  cases hrest : c.rest with
  | nil => exact ⟨w, rfl, hw.leads⟩
  | cons first t =>
      simp only [List.head?_cons]
      split
      · rename_i hquote
        have hsize : first.utf8Size = 1 := by rcases hquote with rfl | rfl <;> decide
        have hone := drop_one_offset hrest hsize
        have hopen := (c.over_drop 1).reaches
        have hinner := hc.reaches hopen
        rw [← hone, hinner.dropBytes?, Option.bind_some, find?_rest]
        cases hcut : (c.drop 1).cutAt? [first] with
        | none =>
            have hend := (c.drop 1).over_toEnd
            rw [hopen.toEnd_eq] at hend
            obtain ⟨w', hsync, hleads⟩ := hw.sync? hs c.over_toEnd.reaches
            refine ⟨w', ?_, hleads⟩
            simp only [Option.map_none, ← hc.toEnd_offset, hinner.slice?_of_over hend, hsync,
              Option.bind_some]
            rw [Value.ofRaw, ← hend.2]
            rfl
        | some found =>
            obtain ⟨raw, next⟩ := found
            obtain ⟨m, hraw, hnext⟩ := Cursor.exists_over_of_cutAt? hcut
            have hlast : m.offset + 1 = next.offset := by
              rw [hnext.2, byteLength_cons, hsize, byteLength_nil]
            obtain ⟨w', hsync, hleads⟩ :=
              hw.sync? hs (hopen.trans (hraw.reaches.trans hnext.reaches))
            refine ⟨w', ?_, hleads⟩
            simp only [Option.map_some, ← hraw.2, hlast, hsync, hinner.slice?_of_over hraw,
              Option.bind_some]
            rw [Value.ofRaw, ← hraw.2]
            rfl
      · split
        · exact ⟨w, rfl, hw.leads⟩
        · have hover := c.over_takeWhile isUnquotedChar
          obtain ⟨w', htake, hleads⟩ := takeWhile?_follows hs hw isUnquotedChar
          refine ⟨w', ?_, hleads⟩
          rw [htake, Option.bind_some, Value.ofRaw, ← hover.2, stop_spanTo hs hc hover.reaches]
          rfl

/-! ## Directive names -/

theorem findChar?_cons_of_neg {p : Char → Bool} {y : Char} (hy : p y = false) (s : List Char) :
    findChar? p (y :: s) = (findChar? p s).map (y.utf8Size + ·) := by
  rw [findChar?, findChar?, List.any_cons, hy, Bool.false_or]
  split
  · rw [List.takeWhile_cons_of_pos (by simp [hy])]
    rfl
  · rfl

theorem findChar?_eq_find? (x : Char) (s : List Char) : findChar? (· == x) s = find? [x] s := by
  induction s with
  | nil => rfl
  | cons y s ih =>
      rw [find?, cutAt?_cons]
      split
      · rename_i hx
        simp [findChar?, hx]
      · rename_i hx
        have hyx : (y == x) = false := by simpa using Ne.symm hx
        rw [findChar?_cons_of_neg (p := (· == x)) hyx, ih, find?, Option.map_map, Option.map_map]
        rfl

theorem splitArgument?_offset {raw : List Char} (hc : c.LiesIn raw) (name : List Char)
    (modifiers : List (List Char)) :
    splitArgument? raw name c.offset modifiers
      = some ⟨name, (DirectiveName.readArgument c.offset c.rest).1, modifiers ++
          DirectiveName.readModifiers (DirectiveName.readArgument c.offset c.rest).2⟩ := by
  rw [splitArgument?, hc.dropBytes?]
  simp only [Option.bind_eq_bind, Option.bind_some]
  split
  · -- an argument in brackets, which may be left open
    rename_i hhead
    obtain ⟨t, hrest⟩ := List.head?_eq_some_iff.1 hhead
    have hone := drop_one_offset hrest (by decide)
    have hopen := (c.over_drop 1).reaches
    have hinner := hc.reaches hopen
    have hdrop : (c.drop 1).rest = t := by rw [Cursor.drop, hrest]; rfl
    have hfind : findChar? (· == ']') c.rest
        = ((c.drop 1).cutAt? [']']).map fun found => 1 + byteLength found.1 := by
      rw [hrest, findChar?_cons_of_neg (by decide), findChar?_eq_find?, ← hdrop, find?_rest,
        Option.map_map]
      rfl
    have hargument : DirectiveName.readArgument c.offset c.rest
        = ((c.drop 1).cutAt? [']']).elim (some ⟨(c.drop 1).offset, (c.drop 1).rest, false⟩, [])
            fun found => (some ⟨(c.drop 1).offset, found.1, false⟩, found.2.rest) := by
      rw [hrest, DirectiveName.readArgument, hone, Cursor.cutAt?, hdrop]
      cases cutAt? [']'] t <;> rfl
    rw [hfind, hargument]
    cases hcut : (c.drop 1).cutAt? [']'] with
    | none =>
        have hend := (c.drop 1).over_toEnd
        rw [hopen.toEnd_eq] at hend
        simp only [Option.map_none, Option.getD_none, ← hone, ← hc.toEnd_offset,
          hinner.slice?_of_over hend, (hinner.reaches hend.reaches).dropBytes?, Option.bind_some]
        rfl
    | some found =>
        obtain ⟨content, next⟩ := found
        obtain ⟨m, hraw, hnext⟩ := Cursor.exists_over_of_cutAt? hcut
        have hm := hinner.reaches hraw.reaches
        have hstop : c.offset + (1 + byteLength content) = m.offset := by
          rw [hraw.2, hone, Nat.add_assoc]
        have hlast : m.offset + 1 = next.offset := by
          rw [hnext.2]
          rfl
        simp only [Option.map_some, Option.getD_some, ← hone, hstop, hlast,
          hinner.slice?_of_over hraw, (hm.reaches hnext.reaches).dropBytes?, Option.bind_some]
        rfl
  · -- an argument up to the first modifier, which may be empty
    rename_i hhead
    have hover := c.over_takeWhile (· != '.')
    have hsize : (findChar? (· == '.') c.rest).getD (byteLength c.rest)
        = byteLength (c.takeWhile (· != '.')).1 := findChar?_getD _ _
    have hargument : DirectiveName.readArgument c.offset c.rest
        = (if 0 < byteLength (c.takeWhile (· != '.')).1
            then some ⟨c.offset, (c.takeWhile (· != '.')).1, true⟩ else none,
          (c.takeWhile (· != '.')).2.rest) := by
      unfold DirectiveName.readArgument
      split
      · rename_i hrest
        rw [hrest] at hhead
        exact absurd rfl hhead
      · cases hcontent : c.rest.takeWhile (· != '.') with
        | nil => simp [Cursor.takeWhile, hcontent]
        | cons x content => simp [Cursor.takeWhile, hcontent, Nat.ne_of_gt x.utf8Size_pos]
    rw [hsize, ← hover.2, hc.slice?_of_over hover, (hc.reaches hover.reaches).dropBytes?,
      hargument]
    rfl

/-- The directive written as a sign of one byte and an argument. -/
theorem splitArgument?_sign {sign : Char} (hsign : sign.utf8Size = 1) (name s : List Char)
    (modifiers : List (List Char)) :
    splitArgument? (sign :: s) name 1 modifiers
      = some ⟨name, (DirectiveName.readArgument 1 s).1,
          modifiers ++ DirectiveName.readModifiers (DirectiveName.readArgument 1 s).2⟩ := by
  have hplace : (Cursor.mk 1 s).LiesIn (sign :: s) :=
    Cursor.liesIn_iff.2 ⟨[sign], rfl, by rw [byteLength_cons, hsign]; rfl⟩
  exact splitArgument?_offset hplace name modifiers

theorem splitName?_long (s : List Char) :
    splitName? ('v' :: '-' :: s) = some (DirectiveName.readLong? s) := by
  have hplace : (Cursor.mk 2 s).LiesIn ('v' :: '-' :: s) :=
    Cursor.liesIn_iff.2 ⟨['v', '-'], rfl, rfl⟩
  have hover := (Cursor.mk 2 s).over_takeWhile fun x => x != ':' && x != '.'
  have hafter := hplace.reaches hover.reaches
  have hsize : (findChar? (fun x => x == ':' || x == '.') s).getD (byteLength s)
      = byteLength (s.takeWhile fun x => x != ':' && x != '.') := by
    rw [findChar?_getD]
    simp only [Bool.not_or]
    rfl
  have hname : takeBytes? (byteLength (s.takeWhile fun x => x != ':' && x != '.')) s
      = some (s.takeWhile fun x => x != ':' && x != '.') := by
    conv => lhs; arg 2; rw [show s = _ from hover.1]
    exact takeBytes?_append _ _
  have hrest : dropBytes? (2 + byteLength (s.takeWhile fun x => x != ':' && x != '.'))
      ('v' :: '-' :: s) = some (s.dropWhile fun x => x != ':' && x != '.') := hafter.dropBytes?
  rw [splitName?, hsize, hname]
  simp only [Option.bind_eq_bind, Option.bind_some, hrest]
  unfold DirectiveName.readLong?
  cases htake : s.takeWhile fun x => x != ':' && x != '.' with
  | nil => rfl
  | cons first more =>
      cases halpha : first.isAlphanum with
      | false => simp [halpha]
      | true =>
          cases hdrop : s.dropWhile fun x => x != ':' && x != '.' with
          | nil => simp [halpha]
          | cons x rest =>
              by_cases hx : x = ':'
              · subst hx
                have hnext : (Cursor.mk (2 + byteLength (first :: more) + 1) rest).LiesIn
                    ('v' :: '-' :: s) :=
                  hafter.reaches ⟨[':'], hdrop, by rw [← htake]; rfl⟩
                rw [if_neg (by simp [halpha]), List.head?_cons, if_pos rfl,
                  splitArgument?_offset hnext]
                simp only [halpha]
                rfl
              · simp [halpha, hx]

theorem splitName?_eq (raw : List Char) : splitName? raw = some (DirectiveName.read? raw) := by
  unfold DirectiveName.read?
  split
  · exact splitName?_long _
  · rw [splitName?, splitArgument?_sign (by decide)]
    rfl
  · rw [splitName?, splitArgument?_sign (by decide)]
    rfl
  · rw [splitName?, splitArgument?_sign (by decide)]
    rfl
  · rw [splitName?, splitArgument?_sign (by decide)]
    rfl
  · unfold splitName?
    split <;> simp_all

/-! ## Start tags -/

/-- What was read, with the walk to the place after it. -/
def scan {α : Type} (w : Walk) (r : Reading α) : Scan α := ⟨r.value, r.errors, w⟩

@[simp] theorem scan_value {α : Type} (w : Walk) (r : Reading α) : (scan w r).value = r.value := rfl

@[simp] theorem scan_errors {α : Type} (w : Walk) (r : Reading α) :
    (scan w r).errors = r.errors := rfl

@[simp] theorem scan_walk {α : Type} (w : Walk) (r : Reading α) : (scan w r).walk = w := rfl

theorem ofParts_read? (span : Span) (start : Nat) (name : List Char) (value : Option Value) :
    ofParts span start name value (DirectiveName.read? name)
      = TagProp.ofName span start name value := by
  unfold TagProp.ofName
  cases DirectiveName.read? name <;> rfl

theorem readProp?_follows (hs : byteLength source ≤ maxOffset) (hw : w.Follows source c) :
    ∃ w', readProp? source w = some (scan w' (readProp c)) ∧
      w.Leads source w' (readProp c).next := by
  have hname := (c.over_takeWhile isPropNameChar).reaches
  have hafter := hw.lies.reaches hname
  have hspace := (Cursor.over_skipSpace (c.takeWhile isPropNameChar).2).reaches
  have hequals := hafter.reaches hspace
  obtain ⟨w₁, htake, hleads₁⟩ := takeWhile?_follows hs hw isPropNameChar
  rw [readProp?, hw.toAt.offset_eq hs, htake, readProp]
  simp only [Option.bind_eq_bind, Option.bind_some, splitName?_eq, stop_spanTo hs hw.lies hname,
    spaceStop?_offset hafter, hequals.dropBytes?, ofParts_read?]
  split
  · rename_i hhead
    obtain ⟨t, hrest⟩ := List.head?_eq_some_iff.1 hhead
    have hone := drop_one_offset hrest (by decide)
    have hpast := (Cursor.over_drop (c.takeWhile isPropNameChar).2.skipSpace 1).reaches
    have hvalue := (Cursor.over_skipSpace
      ((c.takeWhile isPropNameChar).2.skipSpace.drop 1)).reaches
    obtain ⟨w₂, hsync, hleads₂⟩ :=
      hleads₁.follows.sync? hs (hspace.trans (hpast.trans hvalue))
    obtain ⟨w₃, hread, hleads₃⟩ := readValue?_follows hs hleads₂.follows
    rw [← hone, spaceStop?_offset (hequals.reaches hpast), Option.bind_some, hsync,
      Option.bind_some, hread]
    exact ⟨w₃, rfl, hleads₁.trans (hleads₂.trans hleads₃)⟩
  · exact ⟨w₁, rfl, hleads₁⟩

/-- The tokens at which the loop over attributes does not read a name. -/
def signsInTag : List TokenKind :=
  [.tagClose, .selfClose, .endOfFile, .tagOpen, .closingTagOpen, .commentOpen, .slash, .equals]

/-- Each of these signs has a first character, and what begins with none of them is a name. -/
theorem exists_name_of_kind (hspace : c.rest.head?.any isTagSpace = false)
    (hkind : c.kind ∉ signsInTag) :
    ∃ first t, c.rest = first :: t ∧ first ≠ '=' ∧ first ≠ '/' ∧ first ≠ '<' ∧
      isPropNameChar first = true := by
  have hne : ∀ k ∈ signsInTag, c.kind ≠ k := fun k hk heq => hkind (heq ▸ hk)
  cases hrest : c.rest with
  | nil => exact absurd (Reader.kind_eq_endOfFile.2 hrest) (hne _ (by decide))
  | cons first t =>
      have hlt : first ≠ '<' := by
        rintro rfl
        rcases Cursor.kind_of_lt (c := c) (by rw [hrest]; rfl) with h | h | h
        · exact hne _ (by decide) h
        · exact hne _ (by decide) h
        · exact hne _ (by decide) h
      have hslash : first ≠ '/' := by
        rintro rfl
        have hkind := Cursor.kind_of_slash hrest
        split at hkind
        · exact hne _ (by decide) hkind
        · exact hne _ (by decide) hkind
      have hgt : first ≠ '>' := by
        rintro rfl
        exact hne .tagClose (by decide) (by rw [Cursor.kind, hrest]; rfl)
      have heq : first ≠ '=' := by
        rintro rfl
        exact hne .equals (by decide) (by rw [Cursor.kind, hrest]; rfl)
      have hblank : isTagSpace first = false := by
        rw [hrest] at hspace
        exact hspace
      exact ⟨first, t, rfl, heq, hslash, hlt, by simp [isPropNameChar, hblank, hslash, hgt, heq]⟩

/-- The loop over attributes ends where it ends for the cursor, and else takes the same turn. -/
theorem propTurn?_follows (hs : byteLength source ≤ maxOffset) (hw : w.Follows source c) :
    (AstroTemplate.propTurn? c = none → propTurn? source w = some none) ∧
      ∀ turn, AstroTemplate.propTurn? c = some turn →
        ∃ w', propTurn? source w = some (some (scan w' turn)) ∧ w.Leads source w' turn.next := by
  have hspace := hw.skipSpace hs
  have hprop := hspace.follows
  unfold propTurn?
  simp only [hprop.toAt.current_kind, hprop.toAt.current_span]
  -- the two loops look at a token and at a character; each token fixes its first character
  cases hkind : c.skipSpace.kind
  case tagClose | selfClose | tagOpen | closingTagOpen | commentOpen =>
    obtain ⟨t, hrest⟩ := Cursor.rest_of_kind hkind rfl
    have hend : AstroTemplate.propTurn? c = none := by
      rw [AstroTemplate.propTurn?, hrest]
      rfl
    rw [hend]
    exact ⟨fun _ => rfl, by simp⟩
  case endOfFile =>
    have hend : AstroTemplate.propTurn? c = none := by
      rw [AstroTemplate.propTurn?, Reader.kind_eq_endOfFile.1 hkind]
    rw [hend]
    exact ⟨fun _ => rfl, by simp⟩
  case slash =>
    obtain ⟨t, hrest⟩ := Cursor.rest_of_kind hkind rfl
    rw [List.singleton_append] at hrest
    have hhead : t.head? ≠ some '>' := by
      intro hhead
      rw [Cursor.kind_of_slash hrest, if_pos hhead] at hkind
      cases hkind
    have hturn : AstroTemplate.propTurn? c = some ⟨[], [], c.skipSpace.drop 1⟩ := by
      rw [AstroTemplate.propTurn?, hrest]
      simp [hhead]
    rw [hturn]
    refine ⟨by simp, fun turn heq => ?_⟩
    obtain rfl := Option.some.inj heq
    exact ⟨_, rfl, hspace.trans (hprop.advance hs hkind rfl)⟩
  case equals =>
    obtain ⟨t, hrest⟩ := Cursor.rest_of_kind hkind rfl
    have hturn : AstroTemplate.propTurn? c = some ⟨[],
        [⟨.invalidAttribute .missingName, c.skipSpace.tokenSpan⟩], c.skipSpace.drop 1⟩ := by
      rw [AstroTemplate.propTurn?, hrest]
      rfl
    rw [hturn]
    refine ⟨by simp, fun turn heq => ?_⟩
    obtain rfl := Option.some.inj heq
    exact ⟨_, rfl, hspace.trans (hprop.advance hs hkind rfl)⟩
  all_goals
    obtain ⟨first, t, hrest, hequals, hslash, hlt, hname⟩ :=
      exists_name_of_kind c.head_skipSpace (by rw [hkind]; decide)
    obtain ⟨w', hread, hleads⟩ := readProp?_follows hs hprop
    have hturn : AstroTemplate.propTurn? c = some ⟨[(readProp c.skipSpace).value],
        (readProp c.skipSpace).errors, (readProp c.skipSpace).next⟩ := by
      rw [AstroTemplate.propTurn?, hrest]
      simp [hequals, hslash, hlt, hname]
    rw [hturn, hread]
    refine ⟨by simp, fun turn heq => ?_⟩
    obtain rfl := Option.some.inj heq
    exact ⟨w', rfl, hspace.trans hleads⟩

/-- A turn of the loop over attributes that does not end it moves on. -/
theorem propTurn?_offset_lt {turn : Reading (List TagProp)}
    (h : AstroTemplate.propTurn? c = some turn) : c.offset < turn.next.offset :=
  (reaches_propTurn? h).offset_lt (propTurn?_rest_lt h)

/-- As each turn moves on, there are no more turns than bytes. -/
theorem readProps?_follows (hs : byteLength source ≤ maxOffset) (checked : Bool) {bound : Nat}
    (hw : w.Follows source c) (hbound : byteLength source < bound + c.offset) :
    ∃ w', readProps? source checked bound w = some (scan w' (readProps c)) ∧
      w.Leads source w' (readProps c).next := by
  induction bound generalizing c w with
  | zero =>
      have := hw.lies.offset_le
      omega
  | succ bound ih =>
      obtain ⟨hnone, hsome⟩ := propTurn?_follows hs hw
      rw [readProps?, readProps_eq]
      cases hturn : AstroTemplate.propTurn? c with
      | none =>
          rw [hnone hturn]
          exact ⟨_, rfl, hw.skipSpace hs⟩
      | some turn =>
          have hlt := propTurn?_offset_lt hturn
          obtain ⟨w₁, hread, hleads₁⟩ := hsome turn hturn
          obtain ⟨w₂, hmore, hleads₂⟩ := ih hleads₁.follows (by omega)
          have hmoved : checked → w.offset source < w₁.offset source := by
            rw [hw.toAt.offset_eq hs, hleads₁.follows.toAt.offset_eq hs]
            exact fun _ => hlt
          rw [hread]
          simp only [Option.bind_eq_bind, Option.bind_some, scan_walk, if_pos hmoved, hmore]
          exact ⟨w₂, rfl, hleads₁.trans hleads₂⟩

theorem readStartTag?_follows (hs : byteLength source ≤ maxOffset) (checked : Bool)
    (hw : w.Follows source c) (hkind : c.kind = .tagOpen) :
    ∃ w', readStartTag? source checked w = some (scan w' (readStartTag c)) ∧
      w.Leads source w' (readStartTag c).next := by
  have hopen := hw.advance hs hkind rfl
  obtain ⟨w₁, htake, hleads₁⟩ := takeWhile?_follows hs hopen.follows isTagNameChar
  obtain ⟨w₂, hread, hleads₂⟩ : ∃ w₂, readProps? source checked (byteLength source + 1) w₁ = _ ∧ _ :=
    readProps?_follows hs checked hleads₁.follows (by omega)
  have hprops := hopen.trans (hleads₁.trans hleads₂)
  rw [readStartTag?, htake, readStartTag]
  simp only [Option.bind_eq_bind, Option.bind_some, hread, scan_value, scan_errors, scan_walk,
    hprops.follows.toAt.current_kind, hprops.follows.toAt.current_span, List.length_singleton]
  cases hlast : (readProps ((c.drop 1).takeWhile isTagNameChar).2).next.kind
  case selfClose => exact ⟨_, rfl, hprops.trans (hprops.follows.advance hs hlast rfl)⟩
  case tagClose => exact ⟨_, rfl, hprops.trans (hprops.follows.advance hs hlast rfl)⟩
  all_goals exact ⟨w₂, rfl, hprops⟩

end TokenReader

end AstroTemplate
