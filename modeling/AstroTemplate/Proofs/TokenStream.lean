import AstroTemplate.Markup.Token

set_option autoImplicit false

/-! # The stream of tokens

A source is cut into tokens once. The tokens are kept in a list, and a place in the source is an
index into this list. Most moves go on to the next token. After a part that was found by searching
in the source the stream is moved to the offset where that part ends. Where this lies inside a
token, the list is cut off at the index, and the tokens of the source from the offset on are put
in its place.

A `Walk` is a stream together with the moves that have been made in it. The reader by tokens
(`TokenReader`) goes through a source in such a walk.
-/

namespace AstroTemplate

/-- The tokens of a source, and the index of the next one. -/
structure TokenStream where
  tokens : List Token
  pos : Nat
  deriving DecidableEq, Repr

namespace TokenStream

def ofSource (source : List Char) : TokenStream := ⟨AstroTemplate.tokens source, 0⟩

/-- The tokens from the index on. -/
def remaining (v : TokenStream) : List Token := v.tokens.drop v.pos

def advance (v : TokenStream) : TokenStream :=
  if v.pos < v.tokens.length then { v with pos := v.pos + 1 } else v

variable (source : List Char)

/-- The next token. After the last one there is the end of the file. -/
def current (v : TokenStream) : Token :=
  v.tokens[v.pos]?.getD ⟨.endOfFile, .ofOffsets (byteLength source) (byteLength source), []⟩

def offset (v : TokenStream) : Nat := (v.current source).span.start

/-- Advances as long as the next token is there and has `p`. -/
def advanceWhile (p : Token → Bool) (v : TokenStream) : TokenStream :=
  if v.pos < v.tokens.length ∧ p (v.current source) = true then advanceWhile p v.advance else v
termination_by v.tokens.length - v.pos
decreasing_by
  rename_i h
  rw [advance, if_pos h.1]
  exact Nat.sub_succ_lt_self _ _ h.1

def skipSpace (v : TokenStream) : TokenStream := v.advanceWhile source (·.kind == .whitespace)

/-- The stream moved to the offset `stop`. -/
def syncTo (stop : Nat) (v : TokenStream) : TokenStream :=
  let w := v.advanceWhile source fun t =>
    t.span.stop ≤ min stop maxOffset && t.kind != .endOfFile
  if (w.current source).span.start < min stop maxOffset ∧ (w.current source).kind ≠ .endOfFile then
    -- `stop` lies inside the token
    ⟨w.tokens.take w.pos ++ tokensAt source stop, w.pos⟩
  else w

/-- The tokens from the index on are the tokens of the source from the offset of the next one
on. -/
def InStep (v : TokenStream) : Prop := v.remaining = tokensAt source (v.offset source)

/-- A move of the stream. -/
inductive Move where
  | advance
  | skipSpace
  | syncTo (stop : Nat)
  deriving DecidableEq, Repr

def Move.perform : Move → TokenStream → TokenStream
  | .advance, v => v.advance
  | .skipSpace, v => v.skipSpace source
  | .syncTo stop, v => v.syncTo source stop

/-- The stream after some moves. -/
def after (v : TokenStream) (moves : List Move) : TokenStream :=
  moves.foldl (fun w move => move.perform source w) v

end TokenStream

/-- A way through the tokens of a source: the stream as it is now, and the moves made so far. -/
structure Walk where
  stream : TokenStream
  moves : List TokenStream.Move
  deriving DecidableEq, Repr

namespace Walk

def ofSource (source : List Char) : Walk := ⟨.ofSource source, []⟩

variable (source : List Char)

def move (m : TokenStream.Move) (w : Walk) : Walk := ⟨m.perform source w.stream, w.moves ++ [m]⟩

def advance (w : Walk) : Walk := w.move source .advance

def skipSpace (w : Walk) : Walk := w.move source .skipSpace

/-- The walk to the offset `stop`, if the source can be cut there. -/
def sync? (stop : Nat) (w : Walk) : Option Walk :=
  (dropBytes? stop source).map fun _ => w.move source (.syncTo stop)

/-- The next token. -/
def current (w : Walk) : Token := w.stream.current source

/-- The offset of the next token. -/
def offset (w : Walk) : Nat := w.stream.offset source

end Walk

end AstroTemplate
