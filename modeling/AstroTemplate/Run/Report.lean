import AstroTemplate.Lint.Diagnostic
import AstroTemplate.Text.LineIndex

set_option autoImplicit false

/-! # Reports

How the diagnostics of a file are shown: to a reader, with or without the line in question, as one
line each, or as JSON. Spans count from the beginning of the file. An offset past the end of the
file is shown as line zero, column zero.
-/

namespace AstroTemplate

/-- The ways to show diagnostics. -/
inductive ReportFormat where
  | human
  | humanVerbose
  | json
  | machine
  deriving DecidableEq, Repr

namespace ReportFormat

def name : ReportFormat → String
  | human => "human"
  | humanVerbose => "human-verbose"
  | json => "json"
  | machine => "machine"

def all : List ReportFormat := [human, humanVerbose, json, machine]

end ReportFormat

/-- The word for a severity at the head of a report. -/
def Severity.label : Severity → String
  | error => "Error"
  | warning => "Warning"
  | hint => "Hint"

/-- A diagnostic together with where it stands in a file. -/
structure Finding where
  path : List Char
  diagnostic : Diagnostic
  start : LineCol
  stop : LineCol
  deriving DecidableEq, Repr

namespace Finding

/-- The position of an offset in a file. -/
def position (index : LineIndex) (offset : Nat) : LineCol := (index.lineCol? offset).getD ⟨0, 0⟩

/-- The findings that diagnostics on a file amount to. -/
def ofDiagnostics (path source : List Char) (diagnostics : List Diagnostic) : List Finding :=
  let index := LineIndex.ofText source
  diagnostics.map fun d => ⟨path, d, position index d.span.start, position index d.span.stop⟩

/-- The message of a finding with its code. -/
def text (f : Finding) : String := f.diagnostic.message ++ " (" ++ f.diagnostic.code.name ++ ")"

end Finding

/-- A text of `n` blanks. -/
def blanks (n : Nat) : String := String.ofList (List.replicate n ' ')

/-! ## For a reader -/

/-- The line of a position with a mark under the column. -/
def snippet (lines : List (List Char)) (place : LineCol) : String :=
  match place.line with
  | 0 => ""
  | index + 1 =>
    match lines[index]? with
    | none => ""
    | some line =>
      let gutter := toString place.line
      "  " ++ gutter ++ " | " ++ String.ofList line ++ "\n"
        ++ "  " ++ blanks gutter.length ++ " | " ++ blanks (place.column - 1) ++ "^\n"

/-- A finding for a reader, without the line in question. -/
def Finding.human (f : Finding) : String :=
  String.ofList f.path ++ ":" ++ toString f.start.line ++ ":" ++ toString f.start.column ++ "\n"
    ++ f.diagnostic.severity.label ++ ": " ++ f.text ++ "\n"

/-- A finding on one line. -/
def Finding.machine (f : Finding) : String :=
  f.diagnostic.severity.label.toUpper ++ " " ++ String.ofList f.path
    ++ ":" ++ toString f.start.line ++ ":" ++ toString f.start.column
    ++ ":" ++ toString f.stop.line ++ ":" ++ toString f.stop.column ++ " " ++ f.text ++ "\n"

/-! ## JSON -/

/-- A character as it stands in a JSON string. -/
def escapeJsonChar (c : Char) : List Char :=
  if c = '"' then ['\\', '"']
  else if c = '\\' then ['\\', '\\']
  else if c = '\x08' then ['\\', 'b']
  else if c = '\t' then ['\\', 't']
  else if c = '\n' then ['\\', 'n']
  else if c = '\x0c' then ['\\', 'f']
  else if c = '\r' then ['\\', 'r']
  else if c.toNat < 0x20 then
    ['\\', 'u', '0', '0', Nat.digitChar (c.toNat / 16), Nat.digitChar (c.toNat % 16)]
  else [c]

/-- A JSON string. -/
def jsonString (s : String) : String :=
  "\"" ++ String.ofList (s.toList.flatMap escapeJsonChar) ++ "\""

/-- A JSON array or object over several lines: each member on a line of its own, two blanks
further in than the brackets. Without members it is just the brackets. -/
def jsonBlock (opening closing : String) (indent : Nat) (members : List String) : String :=
  if members.isEmpty then opening ++ closing
  else
    opening ++ "\n" ++ ",\n".intercalate (members.map (blanks (indent + 2) ++ ·)) ++ "\n"
      ++ blanks indent ++ closing

/-- A JSON object over several lines. -/
def jsonObject (indent : Nat) (fields : List (String × String)) : String :=
  jsonBlock "\x7b" "\x7d" indent (fields.map fun (key, value) => jsonString key ++ ": " ++ value)

/-- A position as JSON. -/
def jsonPosition (indent : Nat) (place : LineCol) (offset : Nat) : String :=
  jsonObject indent
    [("line", toString place.line), ("column", toString place.column),
      ("offset", toString offset)]

/-- A finding as JSON. -/
def Finding.json (indent : Nat) (f : Finding) : String :=
  jsonObject indent
    [("type", jsonString f.diagnostic.severity.label),
      ("filename", jsonString (String.ofList f.path)),
      ("start", jsonPosition (indent + 2) f.start f.diagnostic.span.start),
      ("end", jsonPosition (indent + 2) f.stop f.diagnostic.span.stop),
      ("message", jsonString f.diagnostic.message),
      ("code", jsonString f.diagnostic.code.name)]

/-- Findings as a JSON array. -/
def jsonReport (findings : List Finding) : String :=
  jsonBlock "[" "]" 0 (findings.map (Finding.json 2))

/-! ## Whole reports -/

/-- The report on the diagnostics of a file. -/
def report (format : ReportFormat) (path source : List Char) (diagnostics : List Diagnostic) :
    String :=
  let findings := Finding.ofDiagnostics path source diagnostics
  match format with
  | .human => String.join (findings.map fun f => f.human ++ "\n")
  | .humanVerbose =>
    let lines := sourceLines source
    String.join (findings.map fun f => f.human ++ snippet lines f.start ++ "\n")
  | .machine => String.join (findings.map Finding.machine)
  | .json => jsonReport findings

/-- The notice that a file would be converted. -/
def pendingNotice (format : ReportFormat) (path : List Char) : String :=
  match format with
  | .human | .humanVerbose =>
    String.ofList path ++ "\nPending: Vue template syntax would be converted\n\n"
  | .machine => "PENDING " ++ String.ofList path ++ "\n"
  | .json => ""

end AstroTemplate
