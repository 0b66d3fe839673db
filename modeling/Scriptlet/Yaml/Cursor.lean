/-!
# Places in a document

A `Cursor` is a place in the text of a document: what is left to read, and the column, which tells the
parts of a block apart. `Cursor.next` passes over all that stands between two tokens.

Inside a scalar, spaces and line breaks are not passed over but folded: one break counts as a space,
and of several the first one does not count. `Fold` is what was seen since the last other character.
-/

namespace Scriptlet.Yaml

/-! ## Characters -/

/-- Does the character end a line? -/
def endsLine (c : Char) : Bool := c == '\n' || c == '\u0085' || c == '\u2028' || c == '\u2029'

/-- Is the character white space? -/
def isBlank (c : Char) : Bool := c == ' ' || c == '\t' || endsLine c

/-- Does a text start with white space, or end here? -/
def startsBlank (cs : List Char) : Bool := cs.head?.all isBlank

/-- Does a text open with three marks that stand alone? -/
def opensWith (mark : Char) (cs : List Char) : Bool :=
  cs.take 3 == [mark, mark, mark] && startsBlank (cs.drop 3)

/-- Does a text open with a mark that starts or ends a document? -/
def opensMarker (cs : List Char) : Bool := opensWith '-' cs || opensWith '.' cs

/-! ## Places -/

/-- A place in a document. -/
structure Cursor where
  column : Nat
  rest : List Char
  deriving DecidableEq, Inhabited, Repr

namespace Cursor

/-- Passes over spaces, line breaks and comments; also tells whether there was a line break. -/
def nextFrom (inComment crossed : Bool) (column : Nat) : List Char → Bool × Cursor
  | [] => (crossed, ⟨column, []⟩)
  | c :: cs =>
    if endsLine c then nextFrom false true 0 cs
    else if inComment || c == ' ' then nextFrom inComment crossed (column + 1) cs
    else if c == '#' then nextFrom true crossed (column + 1) cs
    else (crossed, ⟨column, c :: cs⟩)

/-- The place of the next token, and whether it is on a later line. -/
def next (k : Cursor) : Bool × Cursor := nextFrom false false k.column k.rest

/-- The place after some characters of the line. -/
def skip (k : Cursor) (n : Nat) : Cursor := ⟨k.column + n, k.rest.drop n⟩

/-- Does the document end here? -/
def isEnd (k : Cursor) : Bool := k.rest.isEmpty || (k.column == 0 && opensMarker k.rest)

/-- The longest key, in characters. -/
def keyLimit : Nat := 1024

/-- May the text between two places be a key? It has to be short and on one line. -/
def mayBeKey (start stop : Cursor) : Bool :=
  let n := start.rest.length - stop.rest.length
  n ≤ keyLimit && !(start.rest.take n).any endsLine

end Cursor

/-! ## Folding -/

/-- What was seen inside a scalar since its last character: spaces on one line, or line breaks, the
first of which may have been taken away. Spaces and further breaks have the newest first. -/
inductive Fold where
  | spaces (cs : List Char)
  | breaks (first : Char) (more : List Char)
  | continued (more : List Char)
  deriving DecidableEq, Inhabited, Repr

namespace Fold

/-- Nothing was seen. -/
def none : Fold := .spaces []

/-- One more space or tab; around line breaks they do not count. -/
def space (c : Char) : Fold → Fold
  | .spaces cs => .spaces (c :: cs)
  | .breaks first more => .breaks first more
  | .continued more => .continued more

/-- One more line break; a next line counts as a line feed. -/
def newline (c : Char) (f : Fold) : Fold :=
  let c := if c == '\u0085' then '\n' else c
  match f with
  | .spaces _ => .breaks c []
  | .breaks first more => .breaks first (c :: more)
  | .continued more => .continued (c :: more)

/-- Was there a line break? -/
def isBroken : Fold → Bool
  | .spaces _ => false
  | _ => true

/-- The text that stands for what was seen. -/
def text : Fold → List Char
  | .spaces cs => cs.reverse
  | .breaks first more =>
    if first != '\n' then first :: more.reverse
    else if more.isEmpty then [' ']
    else more.reverse
  | .continued more => more.reverse

end Fold

end Scriptlet.Yaml
