import AstroTemplate.Text.Blank
import AstroTemplate.Text.Search

set_option autoImplicit false

/-! # Loops

The expression of `v-for` reads `alias in source` or `alias of source`, where the alias may be a
parenthesised list: an item, an index, and more. `Loop.split?` looks for the first place where a
keyword between blanks can separate the two. Blanks around the alias and the source do not belong
to them, unless blanks are all there is: a blank can be the alias or the source if there is one
more blank beside it.

A loop is generated as a call of `map`, which has no use for more than an item and an index.
-/

namespace AstroTemplate

/-- A loop over `source`. -/
structure Loop where
  item : List Char
  index : Option (List Char)
  source : List Char
  /-- Names after the index. -/
  extraAliases : List (List Char)
  /-- Whether the expression had the form of a loop. -/
  wellFormed : Bool
  deriving DecidableEq, Repr

namespace Loop

/-- What follows a keyword. -/
def afterKeyword? (s : List Char) : Option (List Char) :=
  (afterPrefix? "in".toList s).or (afterPrefix? "of".toList s)

/-- The source of a loop, read after the keyword: what follows the blanks, or the last of them if
nothing does and there is one more. -/
def source? : List Char → Option (List Char)
  | [] => none
  | c :: s =>
    if !isBlank c || s.isEmpty then none
    else if s.all isBlank then s.getLast?.map ([·])
    else some (trim s)

/-- The source of a loop whose alias ends before blanks that have been read. -/
def sourceAfterKeyword? (s : List Char) : Option (List Char) := (afterKeyword? s).bind source?

/-- The source of a loop whose alias ends with `c`, in front of `s`. An alias ends in a character
that is not blank, with blanks after it. -/
def sourceAfter? (c : Char) (s : List Char) : Option (List Char) :=
  if !isBlank c && s.head?.any isBlank then sourceAfterKeyword? (trimStart s) else none

/-- The shortest alias after which a source follows, and that source. -/
def splitAlias? : List Char → Option (List Char × List Char)
  | [] => none
  | c :: s =>
    ((sourceAfter? c s).map fun source => ([c], source)).or
      ((splitAlias? s).map fun (name, source) => (c :: name, source))

/-- The alias and the source of a loop. If there is no other alias, it is the last blank but one
before the keyword. -/
def split? (s : List Char) : Option (List Char × List Char) :=
  let t := trimStart s
  match splitAlias? t with
  | some parts => some parts
  | none =>
    match (s.takeWhile isBlank).reverse with
    | _ :: blank :: _ => (sourceAfterKeyword? t).map fun source => ([blank], source)
    | _ => none

/-- How a character changes the depth of brackets. -/
def depthChange (c : Char) : Int32 :=
  if c = '(' ∨ c = '[' ∨ c = '\x7b' then 1
  else if c = ')' ∨ c = ']' ∨ c = '\x7d' then -1
  else 0

/-- The parts of a list between the commas outside brackets. The depth is a number of 32 bits, which
starts over after the greatest one. -/
def splitTopLevel (depth : Int32) : List Char → List (List Char)
  | [] => [[]]
  | c :: cs =>
    if c = ',' ∧ depth = 0 then [] :: splitTopLevel depth cs
    else
      match splitTopLevel (depth + depthChange c) cs with
      | [] => [[c]]
      | part :: parts => (c :: part) :: parts

/-- The inside of a parenthesised text. -/
def insideParens? (s : List Char) : Option (List Char) :=
  (afterPrefix? ['('] s).bind (beforeSuffix? [')'])

/-- A text unless it is empty. -/
def nonempty? (s : List Char) : Option (List Char) := if s.isEmpty then none else some s

def defaultItem : List Char := "item".toList

/-- The loop that an expression describes. An expression without the form of a loop is taken as a
source. -/
def read (expression : List Char) : Loop :=
  match split? expression with
  | none => ⟨defaultItem, none, trim expression, [], false⟩
  | some (aliases, source) =>
    match insideParens? (trim aliases) with
    | none => ⟨(nonempty? (trim aliases)).getD defaultItem, none, trim source, [], true⟩
    | some inner =>
      let parts := (splitTopLevel 0 inner).map fun part => nonempty? (trim part)
      ⟨(parts.head?.join).getD defaultItem, parts[1]?.join, trim source,
        (parts.drop 2).filterMap id, true⟩

/-- The parameters of the function that is mapped over the source. -/
def params (loop : Loop) : List Char :=
  match loop.index with
  | some index => loop.item ++ ", ".toList ++ index
  | none => loop.item

/-- What is mapped over. A number stands for the numbers from one up to it. -/
def iterable (loop : Loop) : List Char :=
  if !loop.source.isEmpty && loop.source.all Char.isDigit then
    "Array.from(\x7b length: ".toList ++ loop.source ++ " \x7d, (_, i) => i + 1)".toList
  else loop.source

end Loop

end AstroTemplate
