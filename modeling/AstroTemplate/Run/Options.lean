import AstroTemplate.Run.Report

set_option autoImplicit false

/-! # Options of the command line

`Request.read` reads the arguments of the program from left to right. A flag is given at most
once and takes no value. Every other option takes one value, behind an equals sign or as the next
argument, and only the patterns to ignore may be given more than once.

A value that is an argument of its own is looked at when the next option is read or the arguments
end. So an argument that is no option at all is reported before a bad value in front of it.
-/

namespace AstroTemplate

/-- How to show timings. -/
inductive TimingsFormat where
  | text
  | json
  deriving DecidableEq, Repr

namespace TimingsFormat

def name : TimingsFormat → String
  | text => "text"
  | json => "json"

def all : List TimingsFormat := [text, json]

end TimingsFormat

/-- What a run is asked to do. -/
structure Options where
  /-- The directory to look in. -/
  workspace : List Char := ['.']
  /-- Whether to replace files by their conversions. -/
  write : Bool := false
  /-- The directory to write conversions to. -/
  outDir : Option (List Char) := none
  /-- Whether to print conversions. -/
  emit : Bool := false
  /-- Whether files to convert make the run fail. -/
  check : Bool := false
  output : ReportFormat := .human
  /-- The least severity to report. -/
  threshold : Severity := .warning
  failOnWarnings : Bool := false
  /-- Patterns of files to leave alone. -/
  ignore : List (List Char) := []
  noDiagnostics : Bool := false
  watch : Bool := false
  preserveWatchOutput : Bool := false
  timings : Bool := false
  timingsFormat : TimingsFormat := .text
  verbose : Bool := false
  deriving DecidableEq, Repr

/-- What is wrong with the arguments. -/
inductive OptionsError where
  | unknownArgument
  /-- A value that the option does not have, or no value. -/
  | invalidValue
  /-- An option given twice, or two options that exclude each other. -/
  | conflict
  /-- A value for a flag. -/
  | tooManyValues
  deriving DecidableEq, Repr

/-- What the arguments ask for. -/
inductive Request where
  | run (options : Options)
  | help
  | version
  deriving DecidableEq, Repr

/-! ## The options -/

/-- Options without a value. -/
inductive Flag where
  | write
  | emit
  | check
  | failOnWarnings
  | noDiagnostics
  | watch
  | preserveWatchOutput
  | timings
  | verbose
  deriving DecidableEq, Repr

namespace Flag

/-- Whether the flag is set. -/
def isSet (options : Options) : Flag → Bool
  | write => options.write
  | emit => options.emit
  | check => options.check
  | failOnWarnings => options.failOnWarnings
  | noDiagnostics => options.noDiagnostics
  | watch => options.watch
  | preserveWatchOutput => options.preserveWatchOutput
  | timings => options.timings
  | verbose => options.verbose

/-- Sets the flag. -/
def set (options : Options) : Flag → Options
  | write => { options with write := true }
  | emit => { options with emit := true }
  | check => { options with check := true }
  | failOnWarnings => { options with failOnWarnings := true }
  | noDiagnostics => { options with noDiagnostics := true }
  | watch => { options with watch := true }
  | preserveWatchOutput => { options with preserveWatchOutput := true }
  | timings => { options with timings := true }
  | verbose => { options with verbose := true }

end Flag

/-- Options with a value. -/
inductive ValueOption where
  | workspace
  | outDir
  | output
  | threshold
  | ignore
  | timingsFormat
  deriving DecidableEq, Repr

namespace ValueOption

/-- The member of a list that has a given name. -/
def named? {α : Type} (name : α → String) (values : List α) (text : List Char) : Option α :=
  values.find? fun value => (name value).toList == text

/-- Gives the option a value, if it has that value. -/
def set? (options : Options) (text : List Char) : ValueOption → Option Options
  | workspace => some { options with workspace := text }
  | outDir => some { options with outDir := some text }
  | output => (named? ReportFormat.name ReportFormat.all text).map ({ options with output := · })
  | threshold =>
    (named? Severity.name [.error, .warning, .hint] text).map ({ options with threshold := · })
  | ignore => some { options with ignore := options.ignore ++ [text] }
  | timingsFormat =>
    (named? TimingsFormat.name TimingsFormat.all text).map ({ options with timingsFormat := · })

/-- Whether the option may be given more than once. -/
def isRepeatable : ValueOption → Bool
  | ignore => true
  | _ => false

end ValueOption

/-- What the name of an option stands for. -/
inductive OptionName where
  | flag (flag : Flag)
  | value (option : ValueOption)
  | help
  | version
  deriving DecidableEq, Repr

namespace OptionName

/-- The names that follow two hyphens. -/
def long : List (String × OptionName) :=
  [("workspace", .value .workspace), ("write", .flag .write), ("out-dir", .value .outDir),
    ("emit", .flag .emit), ("check", .flag .check), ("output", .value .output),
    ("threshold", .value .threshold), ("fail-on-warnings", .flag .failOnWarnings),
    ("ignore", .value .ignore), ("no-diagnostics", .flag .noDiagnostics),
    ("watch", .flag .watch), ("preserve-watch-output", .flag .preserveWatchOutput),
    ("preserveWatchOutput", .flag .preserveWatchOutput), ("timings", .flag .timings),
    ("timings-format", .value .timingsFormat), ("verbose", .flag .verbose), ("help", .help),
    ("version", .version)]

/-- The option with a long name. -/
def ofLong? (name : List Char) : Option OptionName := long.lookup (String.ofList name)

/-- The option with a name of one letter. -/
def ofShort? : Char → Option OptionName
  | 'v' => some (.flag .verbose)
  | 'h' => some .help
  | 'V' => some .version
  | _ => none

end OptionName

/-! ## Reading -/

/-- An option whose value is still missing, or is there and not yet looked at. -/
inductive Pending where
  | awaiting (option : ValueOption)
  | given (option : ValueOption) (text : List Char)
  deriving DecidableEq, Repr

/-- The arguments read so far. -/
structure OptionsReader where
  options : Options := {}
  /-- The options that have a value. -/
  given : List ValueOption := []
  pending : Option Pending := none
  deriving DecidableEq, Repr

namespace OptionsReader

/-- Gives an option its value. -/
def accept (r : OptionsReader) (option : ValueOption) (text : List Char) :
    Except OptionsError OptionsReader :=
  if option ∈ r.given ∧ ¬ option.isRepeatable then .error .conflict
  else
    match option.set? r.options text with
    | some options => .ok { r with options, given := option :: r.given }
    | none => .error .invalidValue

/-- Looks at the value that is pending. -/
def settle (r : OptionsReader) : Except OptionsError OptionsReader :=
  match r.pending with
  | none => .ok r
  | some (.awaiting _) => .error .invalidValue
  | some (.given option text) => { r with pending := none }.accept option text

/-- Sets a flag. -/
def raise (r : OptionsReader) (flag : Flag) : Except OptionsError OptionsReader :=
  if flag.isSet r.options then .error .conflict
  else .ok { r with options := flag.set r.options }

/-- The outcome of reading an argument: a request at once, or the state to go on from. -/
abbrev Outcome := Except OptionsError (Request ⊕ OptionsReader)

/-- Reads an option that has no value behind an equals sign. -/
def readName (r : OptionsReader) (name : OptionName) : Outcome := do
  let r ← r.settle
  match name with
  | .flag flag => return .inr (← r.raise flag)
  | .value option => return .inr { r with pending := some (.awaiting option) }
  | .help => return .inl .help
  | .version => return .inl .version

/-- Reads an argument that begins with two hyphens. -/
def readLong (r : OptionsReader) (body : List Char) : Outcome :=
  let name := body.takeWhile (· != '=')
  match OptionName.ofLong? name, body.drop name.length with
  | none, _ => .error .unknownArgument
  | some name, [] => r.readName name
  | some (.value option), _ :: text => do
    let r ← r.settle
    return .inr (← r.accept option text)
  | some _, _ :: _ => .error .tooManyValues

/-- Reads the letters behind one hyphen. -/
def readShort (r : OptionsReader) : List Char → Outcome
  | [] => .ok (.inr r)
  | c :: letters =>
    match OptionName.ofShort? c with
    | none => .error .unknownArgument
    | some name =>
      match r.readName name with
      | .ok (.inr r) => r.readShort letters
      | outcome => outcome

/-- Reads an argument that is no option: the value that an option waits for. -/
def readWord (r : OptionsReader) (text : List Char) : Outcome :=
  match r.pending with
  | some (.awaiting option) => .ok (.inr { r with pending := some (.given option text) })
  | _ => .error .unknownArgument

/-- Reads one argument. -/
def readArgument (r : OptionsReader) : List Char → Outcome
  | '-' :: '-' :: body => r.readLong body
  | '-' :: c :: letters => r.readShort (c :: letters)
  | text => r.readWord text

/-- What the options come to when all arguments are read. -/
def finish (r : OptionsReader) : Except OptionsError Request := do
  let r ← r.settle
  if r.options.write ∧ r.options.outDir.isSome then throw .conflict
  return .run r.options

/-- Reads the arguments that are left. Nothing may follow two hyphens that stand alone. -/
def readAll (r : OptionsReader) : List (List Char) → Except OptionsError Request
  | [] => r.finish
  | argument :: rest =>
    if argument = ['-', '-'] then
      if rest.isEmpty then r.finish else .error .unknownArgument
    else
      match r.readArgument argument with
      | .error e => .error e
      | .ok (.inl request) => .ok request
      | .ok (.inr r) => r.readAll rest

end OptionsReader

/-- What a list of arguments asks for. -/
def Request.read (arguments : List (List Char)) : Except OptionsError Request :=
  ({} : OptionsReader).readAll arguments

end AstroTemplate
