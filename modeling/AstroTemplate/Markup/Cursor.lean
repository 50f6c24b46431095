import AstroTemplate.Text.Search
import AstroTemplate.Markup.Token

set_option autoImplicit false

/-! # A place in the source

A `Cursor` is an offset into the source together with the text from there on. Every way of
moving it goes forward over characters it has looked at, so the offset stays on a character
boundary and the text stays the rest of the source. The lemmas at the end say that the rest
never grows.

The offset of a cursor is the exact one. Spans have no offset beyond `maxOffset`, so a cursor stands
for a place of the token stream only in a source shorter than 2^32 bytes.
-/

namespace AstroTemplate

/-- An offset and the text from there to the end of the source. -/
structure Cursor where
  offset : Nat
  rest : List Char
  deriving DecidableEq, Repr

namespace Cursor

/-- The cursor at the beginning of a source. -/
def ofSource (source : List Char) : Cursor := ⟨0, source⟩

/-- The kind of the token under the cursor. -/
def kind (c : Cursor) : TokenKind :=
  match firstToken? c.rest with
  | some (kind, _, _) => kind
  | none => .endOfFile

/-- The span of the token under the cursor. -/
def tokenSpan (c : Cursor) : Span :=
  match firstToken? c.rest with
  | some (_, text, _) => .ofOffsets c.offset (c.offset + byteLength text)
  | none => .ofOffsets c.offset c.offset

/-- The cursor moved over `count` characters. -/
def drop (c : Cursor) (count : Nat) : Cursor :=
  ⟨c.offset + byteLength (c.rest.take count), c.rest.drop count⟩

/-- The characters up to the first one that fails `p`, and the cursor moved over them. -/
def takeWhile (c : Cursor) (p : Char → Bool) : List Char × Cursor :=
  (c.rest.takeWhile p, ⟨c.offset + byteLength (c.rest.takeWhile p), c.rest.dropWhile p⟩)

/-- The cursor moved over white space. -/
def skipSpace (c : Cursor) : Cursor := (c.takeWhile isTagSpace).2

/-- The cursor moved to the end of the source. -/
def toEnd (c : Cursor) : Cursor := ⟨c.offset + byteLength c.rest, []⟩

/-- The text before the first occurrence of `p` from here on, and the cursor after it. -/
def cutAt? (c : Cursor) (p : List Char) : Option (List Char × Cursor) :=
  (AstroTemplate.cutAt? p c.rest).map fun (before, after) =>
    (before, ⟨c.offset + byteLength before + byteLength p, after⟩)

/-- The span from one cursor to another. -/
def spanTo (c d : Cursor) : Span := .ofOffsets c.offset d.offset

theorem skipSpace_rest_le (c : Cursor) : c.skipSpace.rest.length ≤ c.rest.length :=
  (List.dropWhile_suffix _).length_le

theorem takeWhile_rest_le (c : Cursor) (p : Char → Bool) :
    (c.takeWhile p).2.rest.length ≤ c.rest.length :=
  (List.dropWhile_suffix _).length_le

theorem drop_rest_le (c : Cursor) (count : Nat) :
    (c.drop count).rest.length ≤ c.rest.length := by
  simp [drop]

theorem cutAt?_rest_lt {c d : Cursor} {p before : List Char} (hp : p ≠ [])
    (h : c.cutAt? p = some (before, d)) : d.rest.length < c.rest.length := by
  obtain ⟨⟨b, a⟩, hcut, he⟩ := Option.map_eq_some_iff.1 h
  obtain ⟨rfl, rfl⟩ := Prod.mk.inj he
  have := length_after_le hcut
  have := List.length_pos_iff.2 hp
  simp
  omega

end Cursor

end AstroTemplate
