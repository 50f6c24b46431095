import AstroTemplate.Markup.ParseError

set_option autoImplicit false

/-! # Diagnostics

A diagnostic says what is wrong, or what is lost, at a place in a template. Its code tells the
sort of finding and decides how severe it is.
-/

namespace AstroTemplate

/-- How severe a diagnostic is. -/
inductive Severity where
  | hint
  | warning
  | error
  deriving DecidableEq, Repr

namespace Severity

def name : Severity → String
  | hint => "hint"
  | warning => "warning"
  | error => "error"

/-- The place of a severity among the others. -/
def rank : Severity → Nat
  | hint => 0
  | warning => 1
  | error => 2

end Severity

/-- The sorts of findings. -/
inductive DiagnosticCode where
  | parseError
  | orphanElse
  | duplicateAttribute
  | duplicateDirective
  | conflictingContentDirectives
  | contentDirectiveDiscardsChildren
  | malformedFor
  | unsupportedDirective
  | inertEventHandler
  | dynamicStyleObject
  deriving DecidableEq, Repr

namespace DiagnosticCode

/-- All codes. -/
def all : List DiagnosticCode :=
  [parseError, orphanElse, duplicateAttribute, duplicateDirective, conflictingContentDirectives,
    contentDirectiveDiscardsChildren, malformedFor, unsupportedDirective, inertEventHandler,
    dynamicStyleObject]

def name : DiagnosticCode → String
  | parseError => "parse-error"
  | orphanElse => "orphan-else"
  | duplicateAttribute => "duplicate-attribute"
  | duplicateDirective => "duplicate-directive"
  | conflictingContentDirectives => "conflicting-content-directives"
  | contentDirectiveDiscardsChildren => "content-directive-discards-children"
  | malformedFor => "malformed-for"
  | unsupportedDirective => "unsupported-directive"
  | inertEventHandler => "inert-event-handler"
  | dynamicStyleObject => "dynamic-style-object"

/-- The severity of a finding of this sort. -/
def severity : DiagnosticCode → Severity
  | parseError => .error
  | inertEventHandler => .hint
  | _ => .warning

end DiagnosticCode

/-- A finding at a place. -/
structure Diagnostic where
  code : DiagnosticCode
  severity : Severity
  message : String
  span : Span
  deriving DecidableEq, Repr

namespace Diagnostic

/-- A diagnostic as severe as its code says. -/
def ofCode (code : DiagnosticCode) (message : String) (span : Span) : Diagnostic :=
  ⟨code, code.severity, message, span⟩

/-- The diagnostic for an error in the markup. -/
def ofParseError (e : ParseError) : Diagnostic := ofCode .parseError e.kind.message e.span

/-- The diagnostic for a text in which the template begins `distance` bytes further on. -/
def shift (d : Diagnostic) (distance : Nat) : Diagnostic :=
  { d with span := d.span.shift distance }

/-- Diagnostics in the order of their places; those at the same place keep their order. -/
def sortByPlace (ds : List Diagnostic) : List Diagnostic :=
  ds.mergeSort fun a b => a.span.start ≤ b.span.start

end Diagnostic

end AstroTemplate
