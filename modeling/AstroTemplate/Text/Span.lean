import AstroTemplate.Text.Bytes

set_option autoImplicit false

/-! # Spans of a source text

A `Span` is a half-open range of byte offsets. Offsets are held in 32 bits: `Span.ofOffsets`
replaces an offset that does not fit by the greatest one that does.
-/

namespace AstroTemplate

/-- The greatest offset that a span can hold. -/
def maxOffset : Nat := 4294967295

/-- The bytes from `start` up to, and without, `stop`. -/
structure Span where
  start : Nat
  stop : Nat
  deriving DecidableEq, Repr

namespace Span

/-- The span between two offsets, each cut down to the greatest offset a span can hold. -/
def ofOffsets (start stop : Nat) : Span := ⟨min start maxOffset, min stop maxOffset⟩

/-- The span of no bytes at `offset`. -/
def emptyAt (offset : Nat) : Span := ⟨offset, offset⟩

/-- Whether the span covers no byte. -/
def isEmpty (s : Span) : Bool := s.start == s.stop

/-- The smallest span that covers both. -/
def cover (s t : Span) : Span := ⟨min s.start t.start, max s.stop t.stop⟩

/-- The number of bytes covered; a span that runs backwards has none to give. -/
def size? (s : Span) : Option Nat := if s.start ≤ s.stop then some (s.stop - s.start) else none

/-- The part of `source` that the span covers, if it is a part of it. -/
def slice? (s : Span) (source : List Char) : Option (List Char) :=
  if s.start ≤ s.stop then
    (dropBytes? s.start source).bind (takeBytes? (s.stop - s.start))
  else none

/-- The part of `source` that the span covers; empty where there is no such part. -/
def slice (s : Span) (source : List Char) : List Char := (s.slice? source).getD []

/-- The span moved forward by `distance` bytes. -/
def shift (s : Span) (distance : Nat) : Span :=
  ofOffsets (s.start + distance) (s.stop + distance)

theorem ofOffsets_eq {a b : Nat} (ha : a ≤ maxOffset) (hb : b ≤ maxOffset) :
    ofOffsets a b = ⟨a, b⟩ := by
  simp [ofOffsets, Nat.min_eq_left ha, Nat.min_eq_left hb]

/-- A span laid exactly over a part of the source reads that part. -/
theorem slice_append (before part after : List Char) :
    slice ⟨byteLength before, byteLength before + byteLength part⟩ (before ++ part ++ after)
      = part := by
  simp [slice, slice?, List.append_assoc, dropBytes?_append, takeBytes?_append]

end Span

end AstroTemplate
