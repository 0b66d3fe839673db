import Scriptlet.Source.Position

/-!
# Reports

A `Report` is what a user reads: a code and a message, the place they are about, the source line that
holds it with the place underlined, and hints.
-/

namespace Scriptlet

/-- A message about a program, ready to be shown. -/
structure Report where
  code : String
  message : String
  span : Option Span
  sourceLine : Option String
  hints : List String
  deriving DecidableEq, Inhabited, Repr

namespace Report

/-- The severity of every report. -/
def severity : String := "error"

/-- Place, severity, code and message. -/
def header (file : Option String) (r : Report) : String :=
  let tail := severity ++ "[" ++ r.code ++ "]: " ++ r.message
  match r.span with
  | some span => span.start.text file ++ ": " ++ tail
  | none => tail

/-- The carets below a source line: they mark the span if it ends on its line, otherwise the rest of
the line, and there is at least one. -/
def underline (span : Span) (line : String) : String :=
  let column := span.start.column
  let stop := if span.start.line = span.stop.line then span.stop.column else line.length + 1
  String.ofList (List.replicate (column - 1) ' ' ++ List.replicate (max 1 (stop - column)) '^')

/-- A line number, right-aligned. -/
def lineLabel (n : Nat) : String :=
  let digits := toString n
  String.ofList (List.replicate (3 - digits.length) ' ') ++ digits

/-- The source line of a report with its span underlined. -/
def excerpt (span : Span) (line : String) : List String :=
  ["  |", lineLabel span.start.line ++ " | " ++ line, "    | " ++ underline span line]

/-- The lines of a report; the excerpt only if `withSource`. -/
def lines (file : Option String) (withSource : Bool) (r : Report) : List String :=
  let quoted :=
    match r.span, r.sourceLine with
    | some span, some line => if withSource then excerpt span line else []
    | _, _ => []
  r.header file :: quoted ++ r.hints.map ("    = hint: " ++ ·)

/-- The text of a report. -/
def text (file : Option String) (withSource : Bool) (r : Report) : String :=
  "\n".intercalate (r.lines file withSource)

end Report

end Scriptlet
