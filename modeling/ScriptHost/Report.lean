import ScriptHost.Location

/-!
This module contains the report of a failure: its origin, line and message, the text of the line, and
carets under the part of the line that is to blame.
-/

namespace ScriptHost

/-- The place that a report shows. -/
structure ReportSite where
  origin : String
  loc : Location
  /-- The text of the line in which the location starts. -/
  line : String

namespace ReportSite

/-- The carets cover the columns of the location as far as the line goes. -/
def underline (site : ReportSite) : String :=
  let width := site.line.length
  let start := min (site.loc.column - 1) width
  let stop := min (start + site.loc.len) width
  ("".pushn ' ' start).pushn '^' (stop - start)

end ReportSite

/-- The report of a failure; without a site it is the message alone. Every line of it ends with a line feed. -/
def renderReport (message : String) (site : Option ReportSite) (trace : Option String) : String :=
  match site with
  | none => message ++ "\n"
  | some site =>
    site.origin ++ ":" ++ toString site.loc.line ++ ": " ++ message ++ "\n"
      ++ site.line ++ "\n"
      ++ site.underline ++ "\n"
      ++ match trace with
        | none | some "" => ""
        | some trace => trace ++ "\n"

end ScriptHost
