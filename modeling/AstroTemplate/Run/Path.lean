import AstroTemplate.Text.Search

set_option autoImplicit false

/-! # Paths

A path is a text in which slashes divide names. It may step in place with `.` and go up with `..`.
Paths are kept as they are written, since messages show them, and are compared by their names.
-/

namespace AstroTemplate

/-- A path as it is written. -/
abbrev Path := List Char

namespace Path

/-- Whether a path begins at the root. -/
def isAbsolute (path : Path) : Bool := path.head? == some '/'

/-- What a path means when it is taken from `base`. -/
def join (base path : Path) : Path :=
  if isAbsolute path || base.isEmpty then path
  else if base.getLast? == some '/' then base ++ path
  else base ++ '/' :: path

/-- The names in a path. Doubled slashes and steps in place do not count. -/
def names (path : Path) : List (List Char) :=
  (splitAtChar '/' path).filter fun name => !name.isEmpty && name != ['.']

/-- The path of names one after another. -/
def ofNames (names : List (List Char)) : Path := joinWith ['/'] names

/-- Whether a path can only be that of a directory, as it ends in a slash or a step in place. -/
def endsInDirectory (path : Path) : Bool :=
  let last := (splitAtChar '/' path).getLastD []
  last.isEmpty || last == ['.']

/-- Whether a path is `ancestor` or lies under it, going by the names alone. -/
def isUnder (ancestor path : Path) : Bool := (names ancestor).isPrefixOf (names path)

/-- A path written backwards without slashes and steps in place at its end. -/
def trimEndReversed : List Char → List Char
  | ['/'] => ['/']
  | '/' :: s => trimEndReversed s
  | '.' :: '/' :: s => trimEndReversed ('/' :: s)
  | s => s

/-- A path without slashes and steps in place at its end. -/
def trimEnd (path : Path) : Path := (trimEndReversed path.reverse).reverse

/-- The path of the directory that the last name of a path stands in. -/
def parent (path : Path) : Path :=
  trimEnd ((trimEnd path).reverse.dropWhile (· != '/')).reverse

end Path

end AstroTemplate
