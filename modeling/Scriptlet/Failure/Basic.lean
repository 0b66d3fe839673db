import Scriptlet.Failure.Cause
import Scriptlet.Failure.Report
import Scriptlet.Text.Lines

/-!
# Failures

A `Fault` says why and where a text is wrong and which line shows it; a `Failure` has that line
quoted. `Fault.quote` goes from the one to the other with the source text at hand.
-/

namespace Scriptlet

/-- A cause at a place of a source text, with the number of the line to quote. -/
structure Fault where
  cause : Cause
  span : Span
  quoted : Option Nat
  deriving DecidableEq, Inhabited

/-- A cause at a place, if it has one, with the source line that is quoted, if there is one. -/
structure Failure where
  cause : Cause
  span : Option Span
  sourceLine : Option String
  deriving DecidableEq, Inhabited

namespace Failure

/-- A failure that belongs to no place of the program. -/
def ofCause (cause : Cause) : Failure := ⟨cause, none, none⟩

/-- A failure at a span, quoted from the given lines. -/
def atSpan (lines : List String) (span : Option Span) (cause : Cause) : Failure :=
  ⟨cause, span, span.bind fun s => Text.lineAt? lines s.start.line⟩

/-- The report of a failure. -/
def report (f : Failure) : Report :=
  ⟨f.cause.code, f.cause.message, f.span, f.sourceLine, f.cause.hints⟩

/-- The text of a failure with its source line. -/
def text (file : Option String) (f : Failure) : String := f.report.text file true

end Failure

namespace Fault

/-- The failure of a fault, with its line taken from the given lines. -/
def quote (lines : List String) (f : Fault) : Failure :=
  ⟨f.cause, some f.span, f.quoted.bind (Text.lineAt? lines)⟩

end Fault

end Scriptlet
