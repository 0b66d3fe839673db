/-!
# Lines of a text

Two notions of a line break live here. `pieces` cuts a text at every character that any convention
takes for a line break; quoted source lines are such pieces. `unixBreaks` turns the breaks of a
file into single line feeds.
-/

namespace Scriptlet.Text

/-- Does `c` end a line? -/
def isBreak (c : Char) : Bool :=
  c == '\n' || c == '\r' || c == '\x0b' || c == '\x0c' || c == '\x1c' || c == '\x1d' ||
    c == '\x1e' || c == '\u0085' || c == '\u2028' || c == '\u2029'

/-- The lines of a text without their breaks. A carriage return and the line feed after it are one
break, and a break at the very end opens no further line. -/
def pieces : List Char → List (List Char)
  | [] => []
  | '\r' :: '\n' :: cs => [] :: pieces cs
  | c :: cs =>
    if isBreak c then [] :: pieces cs
    else
      match pieces cs with
      | [] => [[c]]
      | line :: lines => (c :: line) :: lines

/-- The lines of a text. -/
def lines (s : String) : List String := (pieces s.toList).map String.ofList

/-- Line number `n`, counted from one. -/
def lineAt? (lines : List String) : Nat → Option String
  | 0 => none
  | n + 1 => lines[n]?

/-- Each break of a file, `\r\n` or a lone `\r`, becomes a line feed. -/
def unixBreaks : List Char → List Char
  | [] => []
  | '\r' :: '\n' :: cs => '\n' :: unixBreaks cs
  | c :: cs => (if c == '\r' then '\n' else c) :: unixBreaks cs

end Scriptlet.Text
