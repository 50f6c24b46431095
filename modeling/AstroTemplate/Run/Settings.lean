import AstroTemplate.Text.Blank
import AstroTemplate.Run.JsonValue

set_option autoImplicit false

/-! # Settings of a project

A project may keep its settings in a file: which files to look at, which to leave alone, and
whether to report diagnostics. The file is JSON in which comments and commas at the end of a list
are allowed; both are removed before the text is read. Members that are not settings are passed
over, and a list may stand for the settings in their order.
-/

namespace AstroTemplate

/-! ## Removing what JSON does not allow -/

/-- What a text with comments is in the middle of. -/
inductive CommentState where
  | plain
  | string
  | line
  | block
  deriving DecidableEq, Repr

/-- The text without its comments, from a state on. Nothing in a string is a comment, a line
comment ends before the end of its line, and a block comment that nothing closes goes on to the
end. -/
def removeCommentsFrom : CommentState → List Char → List Char
  | _, [] => []
  | .plain, '"' :: s => '"' :: removeCommentsFrom .string s
  | .plain, '/' :: '/' :: s => removeCommentsFrom .line s
  | .plain, '/' :: '*' :: s => removeCommentsFrom .block s
  | .plain, c :: s => c :: removeCommentsFrom .plain s
  | .string, '\\' :: c :: s => '\\' :: c :: removeCommentsFrom .string s
  | .string, '"' :: s => '"' :: removeCommentsFrom .plain s
  | .string, c :: s => c :: removeCommentsFrom .string s
  | .line, '\n' :: s => '\n' :: removeCommentsFrom .plain s
  | .line, _ :: s => removeCommentsFrom .line s
  | .block, '*' :: '/' :: s => removeCommentsFrom .plain s
  | .block, _ :: s => removeCommentsFrom .block s

/-- The text `s` without its comments. -/
def removeComments (s : List Char) : List Char := removeCommentsFrom .plain s

/-- Where a text stands with respect to strings. -/
inductive StringState where
  | outside
  | inside
  | escaped
  deriving DecidableEq, Repr

/-- Whether the next character that is not blank closes a list. -/
def closesNext (s : List Char) : Bool :=
  match trimStart s with
  | '\x7d' :: _ | ']' :: _ => true
  | _ => false

/-- The text `s` without the commas that stand before the end of a list. -/
def removeTrailingCommasFrom (state : StringState) : List Char → List Char
  | [] => []
  | c :: rest =>
    match state with
    | .escaped => c :: removeTrailingCommasFrom .inside rest
    | .inside =>
      let next := if c = '\\' then .escaped else if c = '"' then .outside else .inside
      c :: removeTrailingCommasFrom next rest
    | .outside =>
      if c = ',' ∧ closesNext rest then removeTrailingCommasFrom .outside rest
      else c :: removeTrailingCommasFrom (if c = '"' then .inside else .outside) rest

/-- The text `s` without the commas that stand before the end of a list. -/
def removeTrailingCommas (s : List Char) : List Char := removeTrailingCommasFrom .outside s

/-! ## The settings -/

/-- The settings of a project. -/
structure Settings where
  /-- Endings of the names of files to look at. -/
  extensions : List (List Char) := []
  /-- Patterns of files to leave alone. -/
  ignore : List (List Char) := []
  /-- Whether to report diagnostics, if the project says so. -/
  diagnostics : Option Bool := none
  deriving DecidableEq, Repr

namespace Settings

/-- The name of the file that holds the settings. -/
def fileName : List Char := "vuecast.config.json".toList

/-- The endings of the names of files to look at; pages unless the project says otherwise. -/
def fileExtensions (settings : Settings) : List (List Char) :=
  if settings.extensions.isEmpty then [".astro".toList] else settings.extensions

/-- Whether to report diagnostics; yes unless the project says otherwise. -/
def diagnosticsEnabled (settings : Settings) : Bool := settings.diagnostics.getD true

/-- The member of an object with a given key; more than one is an error. -/
def member? (key : List Char) (fields : List (Option (List Char) × JsonValue)) :
    Option (Option JsonValue) :=
  match fields.filter (·.1 == some key) with
  | [] => some none
  | [(_, value)] => some (some value)
  | _ => none

/-- The settings of three members, each of which may be missing. -/
def ofMembers? (extensions ignore diagnostics : Option JsonValue) : Option Settings := do
  let extensions ← match extensions with
    | some value => value.texts?
    | none => some []
  let ignore ← match ignore with
    | some value => value.texts?
    | none => some []
  let diagnostics ← match diagnostics with
    | some value => value.optionalBool?
    | none => some none
  return { extensions, ignore, diagnostics }

/-- The settings that a JSON value describes. -/
def ofJson? : JsonValue → Option Settings
  | .object fields => do
    guard (fields.all (·.1.isSome))
    ofMembers? (← member? "extensions".toList fields) (← member? "ignore".toList fields)
      (← member? "diagnostics".toList fields)
  | .array items =>
    if items.length ≤ 3 then ofMembers? items[0]? items[1]? items[2]? else none
  | _ => none

/-- The settings in the text of a file. -/
def read? (content : List Char) : Option Settings :=
  (JsonValue.read? (removeTrailingCommas (removeComments content))).bind ofJson?

end Settings

end AstroTemplate
