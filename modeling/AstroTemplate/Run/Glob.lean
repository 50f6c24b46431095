import AstroTemplate.Text.Bytes

set_option autoImplicit false

/-! # Patterns of paths

A pattern describes paths: `?` is one byte, `*` any bytes, `[a-z]` a byte of a set, `{a,b}` one of
several patterns, and a backslash takes away the meaning of the character after it. Two stars
that fill a whole part of the path between slashes stand for any number of directories, none
included; elsewhere they are two single stars. Patterns and paths are compared byte by byte, and a
pattern has to match the whole of a path.

`Glob.read?` reads a pattern, and `Glob.isMatch` says whether it matches a path. A pattern may be
nested only so far: `Glob.levels` counts how deep it goes. Matching works from the end of the
pattern to its beginning and keeps, for every ending of the path, whether the parts behind match
it, so that its time is the product of the two lengths.
-/

namespace AstroTemplate

/-- A part of a pattern. -/
inductive GlobPart where
  | literal (c : Char)
  | anyByte
  | anyBytes
  /-- Directories at the beginning, each with the slash after it. -/
  | leadingDirs
  /-- A slash and whatever follows it. -/
  | trailingDirs
  /-- Directories between two slashes, which are part of it. -/
  | middleDirs
  | charSet (negated : Bool) (ranges : List (Char × Char))
  /-- One of several branches. Without branches it stands for nothing at all. -/
  | oneOf (branches : List (List GlobPart))
  deriving Repr

/-- A pattern. -/
structure Glob where
  parts : List GlobPart
  deriving Repr

/-- Whether a part stands for nothing. -/
def GlobPart.isVoid : GlobPart → Bool
  | oneOf [] => true
  | _ => false

/-! ## Reading sets -/

/-- A set whose opening bracket and negation have been read: its ranges and the text after its
closing bracket. `ranges` are those read so far, the last one first; `first` says that none has
been read, so that a bracket or a hyphen stands for itself; `inRange` says that the next character
ends the last range. A range that runs backwards is an error. -/
def readRanges? (first inRange : Bool) (ranges : List (Char × Char)) :
    List Char → Option (List (Char × Char) × List Char)
  | [] => none
  | c :: s =>
    if first then readRanges? false false [(c, c)] s
    else if c = ']' then
      some ((if inRange then ('-', '-') :: ranges else ranges).reverse, s)
    else
      match if inRange then ranges else [] with
      | (low, _) :: earlier =>
        if c < low then none else readRanges? false false ((low, c) :: earlier) s
      | [] =>
        if c = '-' then readRanges? false true ranges s
        else readRanges? false false ((c, c) :: ranges) s

/-- A set whose opening bracket has been read, and the text after it. -/
def readSet? (s : List Char) : Option (GlobPart × List Char) :=
  let negated := s.head? = some '!' ∨ s.head? = some '^'
  (readRanges? true false [] (if negated then s.tail else s)).map fun (ranges, rest) =>
    (.charSet (decide negated) ranges, rest)

theorem length_readRanges? {first inRange : Bool} {ranges result : List (Char × Char)}
    {s rest : List Char} (h : readRanges? first inRange ranges s = some (result, rest)) :
    rest.length < s.length := by
  induction s generalizing first inRange ranges with
  | nil => simp [readRanges?] at h
  | cons c s ih =>
    rw [readRanges?] at h
    rw [List.length_cons]
    split at h
    · exact Nat.lt_succ_of_lt (ih h)
    · split at h
      · obtain ⟨-, rfl⟩ := Prod.mk.inj (Option.some.inj h)
        exact Nat.lt_succ_self _
      · generalize (if inRange then ranges else []) = current at h
        cases current with
        | nil =>
          simp only at h
          split at h
          · exact Nat.lt_succ_of_lt (ih h)
          · exact Nat.lt_succ_of_lt (ih h)
        | cons range earlier =>
          simp only at h
          split at h
          · simp at h
          · exact Nat.lt_succ_of_lt (ih h)

theorem length_readSet? {s rest : List Char} {part : GlobPart}
    (h : readSet? s = some (part, rest)) : rest.length < s.length := by
  unfold readSet? at h
  obtain ⟨⟨ranges, after⟩, hr, he⟩ := Option.map_eq_some_iff.1 h
  obtain ⟨-, rfl⟩ := Prod.mk.inj he
  have := length_readRanges? hr
  split at this
  · exact Nat.lt_of_lt_of_le this (by simp)
  · exact this

/-! ## Reading patterns -/

/-- A brace that is not yet closed: what stands before it, and its branches so far, both with the
last first. -/
structure GlobFrame where
  before : List GlobPart
  branches : List (List GlobPart)
  deriving Repr

/-- A pattern read so far: the parts of the innermost branch, the last first, and the open braces
around it, the innermost first. -/
structure GlobReader where
  parts : List GlobPart := []
  frames : List GlobFrame := []
  deriving Repr

/-- What two stars stand for at some place. -/
inductive DoubleStar where
  | stars
  | leading
  | middle
  | trailing
  deriving DecidableEq, Repr

namespace GlobReader

def push (r : GlobReader) (part : GlobPart) : GlobReader := { r with parts := part :: r.parts }

/-- Opens a brace. -/
def openBrace (r : GlobReader) : GlobReader := ⟨[], ⟨r.parts, []⟩ :: r.frames⟩

/-- Ends a branch; outside of braces a comma stands for itself. -/
def comma (r : GlobReader) : GlobReader :=
  match r.frames with
  | [] => r.push (.literal ',')
  | frame :: frames =>
    ⟨[], { frame with branches := r.parts.reverse :: frame.branches } :: frames⟩

/-- Closes a brace. Branches that stand for nothing do not count. -/
def closeBrace? (r : GlobReader) : Option GlobReader :=
  match r.frames with
  | [] => none
  | frame :: frames =>
    let branches := (r.parts.reverse :: frame.branches).reverse
    some ⟨.oneOf (branches.filter fun branch => !branch.all GlobPart.isVoid) :: frame.before,
      frames⟩

/-- What two stars between the characters `previous` and `next` stand for. At the beginning of a
branch a slash or nothing follows them; elsewhere they follow a slash, and a slash, the end of the
branch or the end of the pattern follows them. -/
def doubleStar (r : GlobReader) (previous next : Option Char) : DoubleStar :=
  if r.parts.isEmpty then
    if next = none ∨ next = some '/' then .leading else .stars
  else if previous = some '/'
      ∨ (¬ r.frames.isEmpty ∧ (previous = some ',' ∨ previous = some '\x7b')) then
    if next = some '/' then .middle
    else if next = none ∨ (¬ r.frames.isEmpty ∧ (next = some ',' ∨ next = some '\x7d')) then
      .trailing
    else .stars
  else .stars

/-- Puts directories in the place of the last part, which is the slash before them. Directories
that follow directories add nothing. -/
def replaceLast (r : GlobReader) (part : GlobPart) : GlobReader :=
  match r.parts with
  | .leadingDirs :: _ | .trailingDirs :: _ => r
  | _ :: parts => { r with parts := part :: parts }
  | [] => r

/-- Puts what two stars stand for. -/
def pushDoubleStar (r : GlobReader) : DoubleStar → GlobReader
  | .stars => (r.push .anyBytes).push .anyBytes
  | .leading => r.push .leadingDirs
  | .middle => r.replaceLast .middleDirs
  | .trailing => r.replaceLast .trailingDirs

/-- Reads the rest of a pattern; `previous` is the character before it. -/
def read? (r : GlobReader) (previous : Option Char) (s : List Char) : Option Glob :=
  match s with
  | [] => if r.frames.isEmpty then some ⟨r.parts.reverse⟩ else none
  | '*' :: '*' :: '/' :: s =>
    match r.doubleStar previous (some '/') with
    | .stars => (r.pushDoubleStar .stars).read? (some '*') ('/' :: s)
    | place => (r.pushDoubleStar place).read? (some '/') s
  | '*' :: '*' :: s => (r.pushDoubleStar (r.doubleStar previous s.head?)).read? (some '*') s
  | '*' :: s => (r.push .anyBytes).read? (some '*') s
  | '?' :: s => (r.push .anyByte).read? (some '?') s
  | '[' :: s =>
    match h : readSet? s with
    | some (part, rest) =>
      have := length_readSet? h
      (r.push part).read? (some ']') rest
    | none => none
  | '\x7b' :: s => r.openBrace.read? (some '\x7b') s
  | '\x7d' :: s =>
    match r.closeBrace? with
    | some r => r.read? (some '\x7d') s
    | none => none
  | ',' :: s => r.comma.read? (some ',') s
  | '\\' :: c :: s => (r.push (.literal c)).read? (some c) s
  | ['\\'] => none
  | c :: s => (r.push (.literal c)).read? (some c) s
termination_by s.length

end GlobReader

/-- The ranges of bytes that a range of characters comes to. Each byte counts for itself, and the
range runs from the last byte of the one character to the first byte of the other. -/
def byteRanges (range : Char × Char) : List (UInt8 × UInt8) :=
  let low := String.utf8EncodeChar range.1
  let high := String.utf8EncodeChar range.2
  let single := fun (b : UInt8) => (b, b)
  if range.1 = range.2 then low.map single
  else
    low.dropLast.map single ++ (low.getLast?.toList.zip high.head?.toList)
      ++ high.tail.map single

/-! ## Nesting

Parts in a row are one level deeper than the deepest of them, and so is a repetition or a choice.
A character of several bytes counts as a row of its bytes. -/

namespace GlobPart

/-- How many pieces of a row a part makes. -/
def width : GlobPart → Nat
  | literal c => c.utf8Size
  | trailingDirs => 2
  | oneOf [] => 0
  | _ => 1

/-- How many pieces a row of parts has. -/
def rowWidth (parts : List GlobPart) : Nat := parts.foldr (·.width + ·) 0

/-- The levels of a row whose deepest part has `deepest` levels. -/
def rowLevels (parts : List GlobPart) (deepest : Nat) : Nat :=
  if 1 < rowWidth parts then deepest + 1 else deepest

mutual

/-- How many levels a part has. -/
def levels : GlobPart → Nat
  | literal _ | anyByte => 0
  | anyBytes | trailingDirs => 1
  | leadingDirs | middleDirs => 4
  | charSet _ ranges => if 1 < (ranges.flatMap byteRanges).length then 2 else 1
  | oneOf [] => 0
  | oneOf [branch] => rowLevels branch (deepest branch) + 1
  | oneOf branches => deepestBranch branches + 2

/-- The levels of the deepest of some parts. -/
def deepest : List GlobPart → Nat
  | [] => 0
  | part :: parts => max (levels part) (deepest parts)

/-- The levels of the deepest of some branches. -/
def deepestBranch : List (List GlobPart) → Nat
  | [] => 0
  | branch :: branches => max (rowLevels branch (deepest branch)) (deepestBranch branches)

end

end GlobPart

/-! ## Matching -/

/-- For every ending of a text, beginning with the whole of it, whether something matches it. -/
abbrev EndingTable := List Bool

namespace EndingTable

/-- Nothing but the empty ending. -/
def atEnd (s : List UInt8) : EndingTable := s.map (fun _ => false) ++ [true]

/-- The endings that begin with a byte for which `p` holds, with an ending of `next` after it. -/
def byteThen (p : UInt8 → Bool) (s : List UInt8) (next : EndingTable) : EndingTable :=
  List.zipWith (fun b ok => p b && ok) s next.tail ++ [false]

/-- The endings that come to an ending of `next` when some bytes are left out. -/
def anyThen (next : EndingTable) : EndingTable :=
  next.foldr (fun ok later => (ok || later.headD false) :: later) []

/-- The endings of one table or the other. -/
def union (a b : EndingTable) : EndingTable := List.zipWith (· || ·) a b

/-- The endings that begin with a slash. -/
def slashThen (s : List UInt8) (next : EndingTable) : EndingTable := byteThen (· == 0x2f) s next

/-- The endings that come to an ending of `next` when some directories are left out. -/
def dirsThen (s : List UInt8) (next : EndingTable) : EndingTable :=
  union next (anyThen (slashThen s next))

end EndingTable

namespace GlobPart

open EndingTable

mutual

/-- The endings of `s` that begin with a part, with an ending of `next` after it. -/
def before (s : List UInt8) (next : EndingTable) : GlobPart → EndingTable
  | literal c => (String.utf8EncodeChar c).foldr (fun b table => byteThen (· == b) s table) next
  | anyByte => byteThen (fun _ => true) s next
  | anyBytes => anyThen next
  | leadingDirs => dirsThen s next
  | trailingDirs => slashThen s (anyThen next)
  | middleDirs => slashThen s (dirsThen s next)
  | charSet negated ranges =>
    let ranges := ranges.flatMap byteRanges
    byteThen (fun b => ranges.any (fun (low, high) => low ≤ b && b ≤ high) != negated) s next
  | oneOf [] => next
  | oneOf (branch :: branches) => anyBefore s next (allBefore s next branch) branches

/-- The endings that begin with all of some parts, one after another. -/
def allBefore (s : List UInt8) (next : EndingTable) : List GlobPart → EndingTable
  | [] => next
  | part :: parts => before s (allBefore s next parts) part

/-- The endings that are in `table` or begin with one of some branches. -/
def anyBefore (s : List UInt8) (next table : EndingTable) : List (List GlobPart) → EndingTable
  | [] => table
  | branch :: branches => anyBefore s next (union table (allBefore s next branch)) branches

end

end GlobPart

namespace Glob

/-- How deep a pattern may be nested. -/
def maxLevels : Nat := 250

/-- How many levels a pattern has. It is a row, however few its parts are. -/
def levels (glob : Glob) : Nat := GlobPart.deepest glob.parts + 1

/-- The pattern that a text spells. -/
def read? (s : List Char) : Option Glob :=
  (({} : GlobReader).read? none s).filter fun glob => glob.levels ≤ maxLevels

/-- Whether a pattern matches the whole of a path. Directories alone match every path. -/
def isMatch (glob : Glob) (path : List Char) : Bool :=
  match glob.parts with
  | [.leadingDirs] => true
  | parts =>
    let bytes := path.flatMap String.utf8EncodeChar
    (GlobPart.allBefore bytes (EndingTable.atEnd bytes) parts).headD false

end Glob

end AstroTemplate
