/-!
# Positions in a source text

A `Location` counts lines and columns from one and offsets from zero, all in code points; only a
line feed starts a new line. A `Span` runs from its start up to, and not including, its stop.
-/

namespace Scriptlet

/-- A place between two characters of a source text. -/
structure Location where
  line : Nat
  column : Nat
  offset : Nat
  deriving DecidableEq, Inhabited, Repr

namespace Location

/-- The beginning of a text. -/
def first : Location := ⟨1, 1, 0⟩

/-- The place after one more character. -/
def step (l : Location) (c : Char) : Location :=
  if c = '\n' then ⟨l.line + 1, 1, l.offset + 1⟩ else ⟨l.line, l.column + 1, l.offset + 1⟩

/-- The place after some more text. -/
def after (l : Location) (text : List Char) : Location := text.foldl step l

@[simp] theorem after_nil (l : Location) : l.after [] = l := rfl

@[simp] theorem after_cons (l : Location) (c : Char) (cs : List Char) :
    l.after (c :: cs) = (l.step c).after cs := rfl

theorem after_append (l : Location) (s t : List Char) :
    l.after (s ++ t) = (l.after s).after t := List.foldl_append

/-- Line and column, after the name of the file if there is one. -/
def text (file : Option String) (l : Location) : String :=
  let place := toString l.line ++ ":" ++ toString l.column
  match file with
  | some name => if name = "" then place else name ++ ":" ++ place
  | none => place

end Location

/-- A range of a source text. -/
structure Span where
  start : Location
  stop : Location
  deriving DecidableEq, Inhabited, Repr

namespace Span

/-- Both ends of a span, after the name of the file if there is one. -/
def text (file : Option String) (s : Span) : String :=
  s.start.text file ++ "-" ++ s.stop.text none

/-- From the start of one range to the stop of another. -/
def between (a b : Option Span) : Option Span :=
  match a, b with
  | some s, some t => some ⟨s.start, t.stop⟩
  | _, _ => none

@[simp] theorem between_some (s t : Span) : between (some s) (some t) = some ⟨s.start, t.stop⟩ :=
  rfl

end Span

end Scriptlet
