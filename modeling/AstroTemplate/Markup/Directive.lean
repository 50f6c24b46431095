import AstroTemplate.Text.Bytes
import AstroTemplate.Text.Search

set_option autoImplicit false

/-! # Directive names

An attribute name that begins with `v-`, `:`, `@`, `#` or `.` is a directive. Its name is built
as `v-name:argument.modifier.modifier`; the shorthands `:`, `@` and `#` stand for `v-bind:`,
`v-on:` and `v-slot:`, and `.` stands for `v-bind:` with the modifier `prop`. `DirectiveName.read?`
takes such a name apart.
-/

namespace AstroTemplate

/-- The place of an element in a conditional chain. -/
inductive BranchKind where
  | ifBranch
  | elseIfBranch
  | elseBranch
  deriving DecidableEq, Repr

/-- What a directive does. -/
inductive DirectiveKind where
  | branch (kind : BranchKind)
  | loop
  | visibility
  | text
  | html
  | bind
  | on
  | other
  deriving DecidableEq, Repr

namespace DirectiveKind

/-- The directive names with a meaning of their own. -/
def known : List (List Char × DirectiveKind) :=
  [("if".toList, branch .ifBranch), ("else-if".toList, branch .elseIfBranch),
    ("else".toList, branch .elseBranch), ("for".toList, loop), ("show".toList, visibility),
    ("text".toList, text), ("html".toList, html), ("bind".toList, bind), ("on".toList, on)]

/-- The kind of the directive `v-name`. -/
def ofName (name : List Char) : DirectiveKind := (known.lookup name).getD other

/-- Whether directives of this kind take part in a conditional chain. -/
def isConditional : DirectiveKind → Bool
  | branch _ => true
  | _ => false

end DirectiveKind

/-- An argument inside a directive name, placed by its offset from the beginning of the name. -/
structure NameArgument where
  offset : Nat
  content : List Char
  isStatic : Bool
  deriving DecidableEq, Repr

/-- The parts of a directive name. -/
structure DirectiveName where
  name : List Char
  argument : Option NameArgument
  modifiers : List (List Char)
  deriving DecidableEq, Repr

namespace DirectiveName

/-- The modifiers in a text such as `.stop.prevent`; empty ones do not count. -/
def readModifiers (s : List Char) : List (List Char) :=
  (splitAtChar '.' s).filter (! ·.isEmpty)

/-- The argument that begins at `offset`, and the text after it. An argument in brackets is
dynamic and ends at the first `]`, or with the name if there is none. -/
def readArgument (offset : Nat) : List Char → Option NameArgument × List Char
  | '[' :: s =>
    match cutAt? [']'] s with
    | some (content, after) => (some ⟨offset + 1, content, false⟩, after)
    | none => (some ⟨offset + 1, s, false⟩, [])
  | s =>
    let content := s.takeWhile (· != '.')
    (if content.isEmpty then none else some ⟨offset, content, true⟩, s.dropWhile (· != '.'))

/-- A directive called `name` whose argument and modifiers are written in `s`, from `offset`
on. -/
def withArgument (name : List Char) (offset : Nat) (s : List Char) : DirectiveName :=
  let (argument, rest) := readArgument offset s
  ⟨name, argument, readModifiers rest⟩

/-- The directive written as `v-` followed by `s`. Its name begins with a letter or digit and
runs to the first `:` or `.`. -/
def readLong? (s : List Char) : Option DirectiveName :=
  let name := s.takeWhile fun c => c != ':' && c != '.'
  match name, s.dropWhile fun c => c != ':' && c != '.' with
  | [], _ => none
  | first :: _, after =>
    if !first.isAlphanum then none
    else
      match after with
      | ':' :: rest => some (withArgument name (2 + byteLength name + 1) rest)
      | rest => some ⟨name, none, readModifiers rest⟩

/-- The parts of an attribute name that is a directive. -/
def read? : List Char → Option DirectiveName
  | 'v' :: '-' :: s => readLong? s
  | ':' :: s => some (withArgument "bind".toList 1 s)
  | '@' :: s => some (withArgument "on".toList 1 s)
  | '#' :: s => some (withArgument "slot".toList 1 s)
  | '.' :: s =>
    let parts := withArgument "bind".toList 1 s
    some { parts with modifiers := "prop".toList :: parts.modifiers }
  | _ => none

end DirectiveName

end AstroTemplate
