import AstroTemplate.Run.Options

set_option autoImplicit false

/-! # Timings

What a run tells about the time it took. The run itself only counts files; how long it took is
added by whoever has a clock.
-/

namespace AstroTemplate

/-- How long the parts of a run took, as texts. -/
structure Durations where
  scan : String
  convert : String
  total : String
  deriving DecidableEq, Repr

/-- What the timings of a run tell besides durations. -/
structure Timings where
  format : TimingsFormat
  files : Nat
  converted : Nat
  deriving DecidableEq, Repr

/-- The timings of a run as lines. -/
def Timings.lines (t : Timings) (durations : Durations) : List String :=
  match t.format with
  | .text =>
    ["=== vuecast timings ===",
      "file scan: " ++ durations.scan ++ " (" ++ toString t.files ++ " files)",
      "convert: " ++ durations.convert ++ " (" ++ toString t.converted ++ " converted)",
      "total: " ++ durations.total]
  | .json =>
    ["\x7b",
      "  \"convert_ms\": " ++ durations.convert ++ ",",
      "  \"converted_count\": " ++ toString t.converted ++ ",",
      "  \"file_count\": " ++ toString t.files ++ ",",
      "  \"file_scan_ms\": " ++ durations.scan ++ ",",
      "  \"total_ms\": " ++ durations.total,
      "\x7d"]

/-- Whether the value of an environment variable switches something on. -/
def isSwitchedOn (value : List Char) : Bool :=
  ["1".toList, "true".toList, "yes".toList, "on".toList].contains (value.map Char.toLower)

end AstroTemplate
