import AstroTemplate.Lint.PageCheck
import AstroTemplate.Run.Session
import AstroTemplate.Run.Summary

set_option autoImplicit false

/-! # A pass over the workspace

`Session.process` converts one file, and `Session.processAll` converts files in the order given
and stops at the first failure. `run` is the whole program on a tree of files: a function of the
environment, the options and the tree, whose result holds the new tree and all that is printed.
A run that fails prints nothing about its files, though what it has written stays.
-/

namespace AstroTemplate

/-- What became of a file. -/
structure FileOutcome where
  file : SourceFile
  /-- The converted code, if there was anything to convert. -/
  code : Option (List Char) := none
  written : Bool := false
  diagnostics : List Diagnostic := []
  /-- The report on the file for a reader. -/
  report : String := ""
  /-- The diagnostics with their positions. -/
  findings : List Finding := []

namespace FileOutcome

/-- The number of diagnostics of a severity. -/
def count (outcome : FileOutcome) (severity : Severity) : Nat :=
  outcome.diagnostics.countP (·.severity = severity)

end FileOutcome

/-- A tree and a log after some work, and what the work came to. -/
structure Progress (α : Type) where
  tree : FileTree
  log : List LogEntry
  result : Except RunError α

namespace Session

/-! ## One file -/

/-- The diagnostics on a page that are severe enough. -/
def diagnose (session : Session) (source : List Char) : List Diagnostic :=
  if session.diagnostics then
    (pageDiagnostics source).filter fun d => session.options.threshold.rank ≤ d.severity.rank
  else []

/-- What the log tells about a converted file. -/
def conversionLog (session : Session) (file : SourceFile) (source : List Char)
    (conversion : Conversion) : List LogEntry :=
  conversion.notes.map .ofNote ++ .converted (relative file)
    :: (if session.diagnostics then (pageCheckNotes source).map .ofNote else [])

/-- The outcome of a converted file. -/
def outcome (session : Session) (file : SourceFile) (source code : List Char) : FileOutcome :=
  let format := session.options.output
  let diagnostics := session.diagnose source
  { file, diagnostics
    code := some code
    written := session.options.write || session.outDir.isSome
    report := (if format = .json then "" else report format (relative file) source diagnostics)
      ++ (if session.options.check then pendingNotice format (relative file) else "")
    findings := Finding.ofDiagnostics (relative file) source diagnostics }

/-- Writes code where a path leads to. -/
def writeCode (tree : FileTree) (path : Path) (code : List Char) : FileTree × Option RunError :=
  match tree.write path (String.ofList code).toUTF8 with
  | .ok tree => (tree, none)
  | .error e => (tree, some (.writeFailed path e))

/-- The path that a converted file is written to apart from its source. -/
def targetIn (outDir : Path) (file : SourceFile) : Path := outDir.join (relative file)

/-- Writes code where a path leads to, with directories made as needed. -/
def writeCodeDeep (tree : FileTree) (path : Path) (code : List Char) : FileTree × Option RunError :=
  match tree.makeDirectories path.parent with
  | (tree, some e) => (tree, some (.writeFailed path.parent e))
  | (tree, none) => writeCode tree path code

/-- Writes a converted file, if the run is to write: in its own place, or under the directory for
conversions. -/
def store (session : Session) (tree : FileTree) (file : SourceFile) (code : List Char) :
    FileTree × Option RunError :=
  if session.options.write then writeCode tree (session.path file) code
  else
    match session.outDir with
    | none => (tree, none)
    | some outDir => writeCodeDeep tree (targetIn outDir file) code

/-- The text of a file. -/
def readSource (session : Session) (tree : FileTree) (file : SourceFile) :
    Except RunError (List Char) :=
  let path := session.path file
  match tree.read path with
  | .error e => .error (.readFailed path e)
  | .ok content =>
    match textOfBytes? content with
    | none => .error (.readFailed path none)
    | some source => .ok source

/-- Converts a file. -/
def process (session : Session) (tree : FileTree) (file : SourceFile) : Progress FileOutcome :=
  match session.readSource tree file with
  | .error e => ⟨tree, [], .error e⟩
  | .ok source =>
    match convertModule? source (session.path file) with
    | none => ⟨tree, [], .ok { file }⟩
    | some conversion =>
      let log := session.conversionLog file source conversion
      match session.store tree file conversion.code with
      | (tree, some e) => ⟨tree, log, .error e⟩
      | (tree, none) => ⟨tree, log, .ok (session.outcome file source conversion.code)⟩

/-! ## All files -/

/-- Converts files in the order given, up to the first failure. -/
def processAll (session : Session) (tree : FileTree) :
    List SourceFile → Progress (List FileOutcome)
  | [] => ⟨tree, [], .ok []⟩
  | file :: files =>
    let first := session.process tree file
    match first.result with
    | .error e => ⟨first.tree, first.log, .error e⟩
    | .ok outcome =>
      let others := session.processAll first.tree files
      ⟨others.tree, first.log ++ others.log, others.result.map (outcome :: ·)⟩

/-- The summary of a pass. -/
def summary (session : Session) (outcomes : List FileOutcome) : Summary where
  files := outcomes.length
  converted := outcomes.countP (·.code.isSome)
  written := outcomes.countP (·.written)
  errors := outcomes.foldr (·.count .error + ·) 0
  warnings := outcomes.foldr (·.count .warning + ·) 0
  failOnWarnings := session.options.failOnWarnings
  check := session.options.check

/-- What is printed about a file. -/
def printFile (session : Session) (outcome : FileOutcome) : String :=
  match outcome.code with
  | none => ""
  | some code =>
    (if session.options.emit then
      "=== " ++ String.ofList (relative outcome.file) ++ " ===\n" ++ String.ofList code ++ "\n"
    else "") ++ outcome.report

/-- What is printed at the end: all diagnostics as JSON, or the summary. -/
def printEnd (session : Session) (outcomes : List FileOutcome) : String :=
  match session.options.output with
  | .json => jsonReport (outcomes.flatMap (·.findings)) ++ "\n"
  | _ => (session.summary outcomes).text ++ "\n"

/-- What a pass prints. -/
def print (session : Session) (outcomes : List FileOutcome) : String :=
  String.join (outcomes.map session.printFile) ++ session.printEnd outcomes

end Session

/-! ## Whole runs -/

/-- The result of a run. -/
structure RunResult where
  output : String
  log : List LogEntry
  timings : Option Timings
  tree : FileTree
  outcome : Except RunError Summary

namespace RunResult

/-- The lines on the error channel, with the durations that a clock has measured. What the log
tells about a file whose path has line breaks takes several lines. -/
def logLines (result : RunResult) (durations : Durations) : List String :=
  result.log.flatMap LogEntry.lines ++ (result.timings.map (·.lines durations)).getD []

/-- Whether the program ends with a failure. -/
def failed (result : RunResult) : Bool :=
  match result.outcome with
  | .ok summary => summary.failed
  | .error _ => true

end RunResult

namespace Session

/-- What a pass comes to after the work on its files. -/
def conclude (session : Session) (progress : Progress (List FileOutcome)) : RunResult :=
  match progress.result with
  | .error e => ⟨"", progress.log, none, progress.tree, .error e⟩
  | .ok outcomes =>
    let summary := session.summary outcomes
    { output := session.print outcomes
      log := progress.log
      timings := if session.timings then
        some ⟨session.options.timingsFormat, summary.files, summary.converted⟩ else none
      tree := progress.tree
      outcome := .ok summary }

/-- One pass over the workspace. -/
def runOnce (session : Session) (tree : FileTree) : RunResult :=
  session.conclude (session.processAll tree (session.discover tree))

/-- The beginning of a run that watches the workspace: one pass, after which there has to be a
workspace to watch. -/
def startWatching (session : Session) (tree : FileTree) : RunResult :=
  let result := session.runOnce tree
  let outcome := do
    let summary ← result.outcome
    match result.tree.find session.workspace with
    | .ok _ => return summary
    | .error _ => throw .watchFailed
  { result with output := "Starting watch mode...\n\n" ++ result.output, outcome }

end Session

/-- Runs the program. -/
def run (environment : Environment) (options : Options) (tree : FileTree) : RunResult :=
  let (session, settingsLog) := Session.prepare environment options tree
  let result : RunResult := match session with
    | .error e => ⟨"", [], none, tree, .error e⟩
    | .ok session => if options.watch then session.startWatching tree else session.runOnce tree
  { result with log := (settingsLog ++ result.log).filter (·.isShown options.verbose) }

end AstroTemplate
