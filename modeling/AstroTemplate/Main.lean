import AstroTemplate.Run.Watch

set_option autoImplicit false

/-! # The command line

The program on the files of the computer. It reads the directories that a run can touch into a
`FileTree`, leaves the work to `AstroTemplate.run`, and then writes what has changed and prints
what is to be printed.
-/

namespace AstroTemplate

namespace CommandLine

/-- The text of a place as a path from the root. -/
def pathText (place : Place) : String := String.ofList ('/' :: Path.ofNames place)

/-- Reads what there is under a directory. Links are not followed. -/
partial def loadEntry (tree : FileTree) (place : Place) (entry : IO.FS.DirEntry) :
    IO FileTree := do
  let place := place ++ [entry.fileName.toList]
  match (← entry.path.symlinkMetadata).type with
  | .dir =>
    (← entry.path.readDir).foldlM (fun tree entry => loadEntry tree place entry)
      (tree.put place .directory)
  | .file => return tree.put place (.file (← IO.FS.readBinFile entry.path))
  | _ => return tree

/-- Reads what there is at a path, and the directories on the way to it. -/
def loadPath (tree : FileTree) (path : Path) : IO FileTree := do
  let root ← IO.currentDir
  let mut tree := tree
  let mut place : Place := []
  for name in path.names do
    place := FileTree.step place name
    let here := root / pathText place
    if ← here.isDir then
      if (tree.lookup? place).isNone then tree := tree.put place .directory
    else if ← here.pathExists then
      tree := tree.put place (.file (← IO.FS.readBinFile here))
  let here := root / pathText place
  if ← here.isDir then
    tree ← (← here.readDir).foldlM (fun tree entry => loadEntry tree place entry) tree
  return tree

/-- Reads what a run can touch. -/
def loadTree (environment : Environment) (options : Options) : IO FileTree := do
  let paths := options.workspace :: options.outDir.toList
  paths.foldlM (fun tree path => loadPath tree (environment.directory.join path)) {}

/-- Writes what differs between two trees. -/
def storeChanges (before after : FileTree) : IO Unit := do
  for place in after.places do
    if before.lookup? place ≠ after.lookup? place then
      match after.lookup? place with
      | some .directory => IO.FS.createDirAll (pathText place)
      | some (.file content) =>
        IO.FS.createDirAll (pathText place.dropLast)
        IO.FS.writeBinFile (pathText place) content
      | none => pure ()

/-- A span of time in milliseconds, to three places. -/
def milliseconds (nanoseconds : Nat) : String :=
  let micro := nanoseconds / 1000
  let fraction := toString (micro % 1000)
  toString (micro / 1000) ++ "." ++ String.ofList (List.replicate (3 - fraction.length) '0')
    ++ fraction

/-- Durations as a format shows them. -/
def showDurations (format : TimingsFormat) (scan convert : Nat) : Durations :=
  let text := fun n => milliseconds n ++ (match format with | .text => "ms" | .json => "")
  ⟨text scan, text convert, text (scan + convert)⟩

/-- What surrounds the program. -/
def currentEnvironment : IO Environment := do
  return {
    directory := (← IO.currentDir).toString.toList
    timings := (← IO.getEnv "VUECAST_TIMINGS").map String.toList }

/-- One pass: reads the files, does the work, and writes and prints its result. Its result is given
together with the files that were there before. -/
def pass {α : Type} (environment : Environment) (options : Options)
    (work : FileTree → RunResult × α) : IO (FileTree × RunResult × α) := do
  let start ← IO.monoNanosNow
  let tree ← loadTree environment options
  let loaded ← IO.monoNanosNow
  let (result, more) ← IO.lazyPure fun _ => work tree
  let done ← IO.monoNanosNow
  storeChanges tree result.tree
  IO.print result.output
  for line in result.logLines (showDurations options.timingsFormat (loaded - start)
      (done - loaded)) do
    IO.eprintln line
  return (tree, result, more)

/-- Makes one more pass whenever a file that the session looks at has changed since the last one
began. So what a pass writes to such a file leads to another pass. -/
partial def watchFrom (environment : Environment) (session : Session) (before : FileTree)
    (written : Written) : IO Unit := do
  IO.sleep 1000
  let tree ← loadTree environment session.options
  if session.sameFiles before tree then
    watchFrom environment session before written
  else
    unless session.options.preserveWatchOutput do IO.print "\x1b[2J\x1b[1;1H"
    IO.print "File changed, converting...\n\n"
    let (tree, result, written) ← pass environment session.options (session.runAgain written)
    match result.outcome with
    | .error e => IO.eprintln ("error: " ++ e.message)
    | .ok _ => pure ()
    watchFrom environment session tree written

/-- Runs the program with accepted options. A run that watches keeps to the session that its first
pass had. -/
def execute (options : Options) : IO UInt32 := do
  let environment ← currentEnvironment
  let (tree, result, session) ← pass environment options fun tree =>
    (run environment options tree, (Session.prepare environment options tree).1)
  match result.outcome, session with
  | .error e, _ => IO.eprintln ("Error: " ++ e.message)
  | .ok _, .ok session =>
    if options.watch then
      IO.print "Watching for changes... (Ctrl+C to stop)\n\n"
      watchFrom environment session tree (session.runAgain [] tree).2
  | .ok _, .error _ => pure ()
  return if result.failed then 1 else 0

/-- What the program says about its options. -/
def usage : String :=
  "Usage: vuecast [OPTIONS]\n\nOptions:\n"
    ++ String.join (OptionName.long.map fun (name, _) => "  --" ++ name ++ "\n")

/-- The wording of what is wrong with the arguments. -/
def describe : OptionsError → String
  | .unknownArgument => "unexpected argument found"
  | .invalidValue => "a value is missing or invalid"
  | .conflict => "an argument cannot be used multiple times or together with another"
  | .tooManyValues => "unexpected value for a flag"

/-- Does what the arguments ask for. -/
def start (arguments : List String) : IO UInt32 := do
  match Request.read (arguments.map String.toList) with
  | .ok (.run options) => execute options
  | .ok .help =>
    IO.print usage
    return 0
  | .ok .version =>
    IO.println "vuecast 0.3.1"
    return 0
  | .error e =>
    IO.eprintln ("error: " ++ describe e ++ "\n\n" ++ usage)
    return 2

end CommandLine

end AstroTemplate

/-- The program. -/
def main (arguments : List String) : IO UInt32 := AstroTemplate.CommandLine.start arguments
