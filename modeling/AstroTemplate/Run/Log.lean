import AstroTemplate.Astro.Note
import AstroTemplate.Text.LineIndex

set_option autoImplicit false

/-! # Log of a run

A run tells about its work on the error channel: warnings always, details only when it is asked to
be verbose, and timings at the end when it is asked for them.
-/

namespace AstroTemplate

/-- An entry of the log. -/
inductive LogEntry where
  /-- A detail, with the part of the program that tells it. -/
  | detail (teller : String) (text : String)
  | warning (text : String)
  deriving DecidableEq, Repr

namespace LogEntry

def text : LogEntry → String
  | detail teller text => "[debug " ++ teller ++ "] " ++ text
  | warning text => "warn: " ++ text

/-- The entry as it is printed, line by line. -/
def lines (entry : LogEntry) : List String :=
  (sourceLines (entry.text.toList ++ ['\n'])).map String.ofList

/-- Whether a run shows the entry. -/
def isShown (verbose : Bool) : LogEntry → Bool
  | detail .. => verbose
  | warning _ => true

/-- The detail that a note on generation amounts to. -/
def ofNote : Note → LogEntry
  | .chain branches name =>
    detail "vue_astro_transformer::group"
      ("grouped conditional chain of " ++ toString branches ++ " branches at <"
        ++ String.ofList name ++ ">")
  | .orphanBranch name =>
    detail "vue_astro_transformer::codegen"
      ("<" ++ String.ofList name ++ "> has v-else/v-else-if without a preceding v-if")
  | .droppedDirective rawName =>
    detail "vue_astro_transformer::codegen"
      ("dropping unsupported directive `" ++ String.ofList rawName ++ "`")

/-- That the settings were found in a file. -/
def loadedSettings (path : List Char) : LogEntry :=
  detail "vuecast::config" ("loaded " ++ String.ofList path)

/-- That the settings in a file are no settings. -/
def badSettings (path : List Char) : LogEntry :=
  warning ("failed to parse " ++ String.ofList path)

/-- That a file was converted. -/
def converted (path : List Char) : LogEntry :=
  detail "vuecast::orchestrator" ("converted " ++ String.ofList path)

end LogEntry

end AstroTemplate
