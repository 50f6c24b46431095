import AstroTemplate.Run.Path

set_option autoImplicit false

/-! # Trees of files

A `FileTree` says what there is at each place under the root. Paths lead to places step by step,
and every step but the last has to be a directory. The operations fail as those of an operating
system do, each for a cause with a wording of its own.
-/

namespace AstroTemplate

/-- A place in a tree: the names on the way from the root. -/
abbrev Place := List (List Char)

/-- Contents are compared byte by byte. -/
local instance (priority := high) decEqContent : DecidableEq ByteArray := ByteArray.instDecidableEq

/-- What there is at a place. -/
inductive Entry where
  | directory
  | file (content : ByteArray)
  deriving DecidableEq

/-- Why an operation on files failed. -/
inductive FileError where
  | notFound
  | alreadyExists
  | notDirectory
  | isDirectory
  deriving DecidableEq, Repr

/-- The wording of a cause. -/
def FileError.message : FileError → String
  | notFound => "No such file or directory (os error 2)"
  | alreadyExists => "File exists (os error 17)"
  | notDirectory => "Not a directory (os error 20)"
  | isDirectory => "Is a directory (os error 21)"

/-- What there is at each place. An entry hides those for the same place behind it, a place
without an entry is empty, and the root is always a directory. -/
structure FileTree where
  entries : List (Place × Entry) := []
  deriving DecidableEq

namespace FileTree

/-! ## Places -/

/-- What there is at a place. -/
def lookup? (tree : FileTree) (place : Place) : Option Entry :=
  if place = [] then some .directory else tree.entries.lookup place

/-- Puts an entry at a place, instead of what was there. -/
def put (tree : FileTree) (place : Place) (entry : Entry) : FileTree :=
  ⟨(place, entry) :: tree.entries⟩

@[simp] theorem lookup?_put_self (tree : FileTree) {place : Place} (entry : Entry)
    (h : place ≠ []) : (tree.put place entry).lookup? place = some entry := by
  simp [lookup?, put, h]

theorem lookup?_put_of_ne (tree : FileTree) {place other : Place} (entry : Entry)
    (h : other ≠ place) : (tree.put place entry).lookup? other = tree.lookup? other := by
  have : (other == place) = false := by simpa using h
  simp [lookup?, put, List.lookup_cons, this]

/-- The content of the file at a place. -/
def content? (tree : FileTree) (place : Place) : Option ByteArray :=
  match tree.lookup? place with
  | some (.file content) => some content
  | _ => none

/-- The places that have an entry, each of them once. -/
def places (tree : FileTree) : List Place := (tree.entries.map (·.1)).eraseDups

/-- Makes a directory of each place on the way to `place`. -/
def putDirectories (tree : FileTree) (place : Place) : FileTree :=
  (List.range place.length).foldl (fun tree n => tree.put (place.take (n + 1)) .directory) tree

/-- Puts a file at a place, with the directories on the way. -/
def putFile (tree : FileTree) (place : Place) (content : ByteArray) : FileTree :=
  (tree.putDirectories place.dropLast).put place (.file content)

/-- Removes a place and all that is under it. -/
def remove (tree : FileTree) (place : Place) : FileTree :=
  ⟨tree.entries.filter fun (p, _) => !place.isPrefixOf p⟩

/-- The files at a place and under it, by the names from there on. -/
def filesUnder (tree : FileTree) (place : Place) : List (List (List Char)) :=
  let files := tree.places.filter fun p => (tree.content? p).isSome && place.isPrefixOf p
  files.map (·.drop place.length)

/-- The files of `after` that are not in `before` with the same content. -/
def changes (before after : FileTree) : List (Place × ByteArray) :=
  after.places.filterMap fun p =>
    match after.content? p with
    | some content => if before.content? p = some content then none else some (p, content)
    | none => none

/-! ## Paths -/

/-- One step from a place: to a name in it, or up. -/
def step (place : Place) (name : List Char) : Place :=
  if name = ['.', '.'] then place.dropLast else place ++ [name]

/-- Where names lead from a place. Every place that a step starts from has to be a directory. -/
def walk (tree : FileTree) (place : Place) : List (List Char) → Except FileError Place
  | [] => .ok place
  | name :: names =>
    match tree.lookup? place with
    | some .directory => tree.walk (step place name) names
    | some (.file _) => .error .notDirectory
    | none => .error .notFound

/-- The place that a path leads to, and what there is. -/
def find (tree : FileTree) (path : Path) : Except FileError (Place × Entry) := do
  let place ← tree.walk [] path.names
  match tree.lookup? place with
  | none => throw .notFound
  | some (.file content) =>
    if path.endsInDirectory then throw .notDirectory else return (place, .file content)
  | some .directory => return (place, .directory)

/-- The content of the file that a path leads to. -/
def read (tree : FileTree) (path : Path) : Except FileError ByteArray := do
  match ← tree.find path with
  | (_, .file content) => return content
  | (_, .directory) => throw .isDirectory

/-- Writes a file where a path leads to, in the place of a file that may be there. -/
def write (tree : FileTree) (path : Path) (content : ByteArray) : Except FileError FileTree := do
  let place ← tree.walk [] path.names
  if path.endsInDirectory ∨ tree.lookup? place = some .directory then throw .isDirectory
  return tree.put place (.file content)

/-- Makes the directories that names lead through from a place. A file in the way is met in two
ways: while nothing has been `made`, all names are taken at once, and only the last of them could
be made; afterwards one name is taken after another. What has been made stays. -/
def makeFrom (tree : FileTree) (made : Bool) (place : Place) :
    List (List Char) → FileTree × Option FileError
  | [] => (tree, none)
  | name :: names =>
    let next := step place name
    match tree.lookup? next with
    | none => (tree.put next .directory).makeFrom true next names
    | some .directory => tree.makeFrom made next names
    | some (.file _) =>
      (tree, some (if made ∨ names.isEmpty then .alreadyExists else .notDirectory))

/-- Makes the directory that a path leads to, with those on the way. -/
def makeDirectories (tree : FileTree) (path : Path) : FileTree × Option FileError :=
  tree.makeFrom false [] path.names

end FileTree

end AstroTemplate
