import AstroTemplate.Page.Conversion
import AstroTemplate.Run.FileTree
import AstroTemplate.Run.Glob
import AstroTemplate.Run.Log
import AstroTemplate.Run.Settings
import AstroTemplate.Run.Timings

set_option autoImplicit false

/-! # Sessions

A session is one run of the program over a tree of files. `Session.prepare` settles what the run
needs: the options given for the run and the settings of the project together. `Session.discover`
finds the files to look at.
-/

namespace AstroTemplate

/-- Why a run failed. -/
inductive RunError where
  /-- A pattern of files to leave alone is no pattern. -/
  | invalidGlob
  /-- A file could not be read. There is no cause if its content is no text. -/
  | readFailed (path : Path) (cause : Option FileError)
  | writeFailed (path : Path) (cause : FileError)
  | watchFailed
  deriving DecidableEq, Repr

/-- The wording of a failure. -/
def RunError.message : RunError → String
  | invalidGlob => "invalid glob pattern"
  | readFailed path cause =>
    "failed to read " ++ String.ofList path ++ ": "
      ++ (cause.map FileError.message).getD "stream did not contain valid UTF-8"
  | writeFailed path cause => "failed to write " ++ String.ofList path ++ ": " ++ cause.message
  | watchFailed => "watch error"

/-- What a run depends on besides options and files. -/
structure Environment where
  /-- The directory that relative paths start from. -/
  directory : Path
  /-- The variable that asks for timings. -/
  timings : Option (List Char) := none
  deriving DecidableEq, Repr

/-- All that a run needs to know. -/
structure Session where
  options : Options
  workspace : Path
  outDir : Option Path
  extensions : List (List Char)
  ignored : List Glob
  diagnostics : Bool
  timings : Bool

/-- A file of the workspace: the names that lead to it. -/
abbrev SourceFile := List (List Char)

/-! ## Settings -/

/-- The text in a file, if the content is text. -/
def textOfBytes? (content : ByteArray) : Option (List Char) :=
  (String.fromUTF8? content).map String.toList

/-- The settings of a workspace, and what the log tells about them. Settings that cannot be read
are as good as none. -/
def loadSettings (tree : FileTree) (workspace : Path) : Settings × List LogEntry :=
  let path := workspace.join Settings.fileName
  match tree.find path with
  | .error _ => ({}, [])
  | .ok (_, .directory) => ({}, [.badSettings path])
  | .ok (_, .file content) =>
    match (textOfBytes? content).bind Settings.read? with
    | some settings => (settings, [.loadedSettings path])
    | none => ({}, [.badSettings path])

/-- Patterns of files that are always left alone. -/
def alwaysIgnored : List (List Char) :=
  ["**/node_modules/**".toList, "**/dist/**".toList, "**/.astro/**".toList]

namespace Session

/-- A session with given settings. -/
def ofSettings (environment : Environment) (options : Options) (settings : Settings) :
    Except RunError Session :=
  match (settings.ignore ++ options.ignore ++ alwaysIgnored).mapM Glob.read? with
  | none => .error .invalidGlob
  | some ignored =>
    .ok {
      options, ignored
      workspace := environment.directory.join options.workspace
      outDir := options.outDir.map environment.directory.join
      extensions := settings.fileExtensions
      diagnostics := settings.diagnosticsEnabled && !options.noDiagnostics
      timings := options.timings || options.timingsFormat == .json
        || environment.timings.any isSwitchedOn }

/-- Settles what a run needs, and what the log tells about it. -/
def prepare (environment : Environment) (options : Options) (tree : FileTree) :
    Except RunError Session × List LogEntry :=
  let (settings, log) := loadSettings tree (environment.directory.join options.workspace)
  (ofSettings environment options settings, log)

/-! ## Files -/

/-- The path of a file from the workspace on. -/
def relative (file : SourceFile) : Path := Path.ofNames file

/-- The path of a file. -/
def path (session : Session) (file : SourceFile) : Path := file.foldl Path.join session.workspace

/-- Whether the name of a file has one of the endings to look for. -/
def hasExtension (session : Session) (file : SourceFile) : Bool :=
  let name := (session.path file).names.getLastD []
  session.extensions.any fun extension => endsWith extension name

/-- Whether a file is left alone. -/
def isIgnored (session : Session) (file : SourceFile) : Bool :=
  session.outDir.any (·.isUnder (session.path file))
    || session.ignored.any (·.isMatch (relative file))

/-- The files to look at, in the order of their names. -/
def discover (session : Session) (tree : FileTree) : List SourceFile :=
  match tree.find session.workspace with
  | .error _ => []
  | .ok (place, _) =>
    let files := (tree.filesUnder place).filter fun file =>
      session.hasExtension file && !session.isIgnored file
    files.mergeSort fun a b => decide (¬ b < a)

end Session

end AstroTemplate
