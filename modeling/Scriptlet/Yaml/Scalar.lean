import Scriptlet.Yaml.Cursor
import Scriptlet.Yaml.Tree

/-!
# Scalars

A scalar is quoted or plain. `leaf` reads either kind.
-/

namespace Scriptlet.Yaml

open Scriptlet.Text

/-! ## Quoted scalars -/

/-- A character by its code in hexadecimal digits. -/
def codeChar? (digits : List Char) : Option Char :=
  let n := ofDigits 16 digits
  if digits.all isHex && n.isValidChar then some (Char.ofNat n) else none

/-- The character that a letter after a backslash stands for. -/
def escapeChar? (c : Char) : Option Char :=
  [('0', '\x00'), ('a', '\x07'), ('b', '\x08'), ('t', '\t'), ('\t', '\t'), ('n', '\n'),
   ('v', '\x0b'), ('f', '\x0c'), ('r', '\r'), ('e', '\x1b'), (' ', ' '), ('"', '"'), ('/', '/'),
   ('\\', '\\'), ('N', '\u0085'), ('_', '\u00a0'), ('L', '\u2028'), ('P', '\u2029')].lookup c

/-- A text and the place after it, with some more text in front. -/
def inFront (text : List Char) (rest : Option (List Char × Cursor)) : Option (List Char × Cursor) :=
  rest.map fun r => (text ++ r.1, r.2)

/-- The text up to the closing double quote, and the place after the quote. A backslash before a line
break takes the break away. -/
def doubleQuoted (fold : Fold) (column : Nat) : List Char → Option (List Char × Cursor)
  | [] => none
  | '"' :: cs => some (fold.text, ⟨column + 1, cs⟩)
  | '\\' :: 'x' :: a :: b :: cs =>
    escaped fold (codeChar? [a, b]) (doubleQuoted .none (column + 4) cs)
  | '\\' :: 'u' :: a :: b :: c :: d :: cs =>
    escaped fold (codeChar? [a, b, c, d]) (doubleQuoted .none (column + 6) cs)
  | '\\' :: 'U' :: a :: b :: c :: d :: e :: f :: g :: h :: cs =>
    escaped fold (codeChar? [a, b, c, d, e, f, g, h]) (doubleQuoted .none (column + 10) cs)
  | '\\' :: c :: cs =>
    if endsLine c then
      if opensMarker cs then none else inFront fold.text (doubleQuoted (.continued []) 0 cs)
    else escaped fold (escapeChar? c) (doubleQuoted .none (column + 2) cs)
  | c :: cs =>
    if endsLine c then
      if opensMarker cs then none else doubleQuoted (fold.newline c) 0 cs
    else if isBlank c then doubleQuoted (fold.space c) (column + 1) cs
    else inFront (fold.text ++ [c]) (doubleQuoted .none (column + 1) cs)
where
  /-- A character that was written by its escape. -/
  escaped (fold : Fold) (c : Option Char) (rest : Option (List Char × Cursor)) :
      Option (List Char × Cursor) :=
    match c with
    | some c => inFront (fold.text ++ [c]) rest
    | none => none

/-- The text up to the closing single quote, and the place after the quote. Two quotes stand for
one. -/
def singleQuoted (fold : Fold) (column : Nat) : List Char → Option (List Char × Cursor)
  | [] => none
  | '\'' :: '\'' :: cs => inFront (fold.text ++ ['\'']) (singleQuoted .none (column + 2) cs)
  | '\'' :: cs => some (fold.text, ⟨column + 1, cs⟩)
  | c :: cs =>
    if endsLine c then
      if opensMarker cs then none else singleQuoted (fold.newline c) 0 cs
    else if isBlank c then singleQuoted (fold.space c) (column + 1) cs
    else inFront (fold.text ++ [c]) (singleQuoted .none (column + 1) cs)

/-! ## Plain scalars -/

/-- The marks that end a plain scalar inside brackets or braces. -/
def isFlowMark (c : Char) : Bool := [',', '?', '[', ']', '\x7b', '\x7d'].contains c

/-- Does a colon with this text after it end a plain scalar? -/
def endsKey (inFlow : Bool) (cs : List Char) : Bool :=
  startsBlank cs || (inFlow && cs.head?.any fun c => c != '?' && isFlowMark c)

/-- May a plain scalar start like this? -/
def startsPlain (inFlow : Bool) : List Char → Bool
  | [] => false
  | c :: cs =>
    !(isBlank c || ['-', '?', ':', ',', '[', ']', '\x7b', '\x7d', '#', '&', '*', '!', '|', '>', '\'',
        '"', '%', '@', '\x60'].contains c) ||
      ((c == '-' || (!inFlow && (c == '?' || c == ':'))) && !startsBlank cs)

/-- A plain scalar and the place after it, where `stop` is the place after what was read. It ends
before a colon that ends a key, a comment or a tab, inside brackets and braces before their marks, and
elsewhere before a line that is indented to less than `least`. -/
def plain (inFlow : Bool) (least : Nat) (fold : Fold) (stop : Cursor) (column : Nat) :
    List Char → List Char × Cursor
  | [] => ([], stop)
  | c :: cs =>
    if c == ' ' then plain inFlow least (fold.space c) stop (column + 1) cs
    else if endsLine c then
      if opensMarker cs then ([], stop) else plain inFlow least (fold.newline c) stop 0 cs
    else if c == '\t' || (c == ':' && endsKey inFlow cs) || (inFlow && isFlowMark c) ||
        (c == '#' && fold != .none) || (!inFlow && fold.isBroken && column < least) then
      ([], stop)
    else
      let (text, stop) := plain inFlow least .none ⟨column + 1, cs⟩ (column + 1) cs
      (fold.text ++ c :: text, stop)

/-- A scalar, quoted or plain, and the place after it. -/
def leaf (inFlow : Bool) (least : Nat) (k : Cursor) : Option (Tree × Cursor) :=
  match k.rest with
  | '"' :: cs =>
    (doubleQuoted .none (k.column + 1) cs).map fun r => (.quoted (String.ofList r.1), r.2)
  | '\'' :: cs =>
    (singleQuoted .none (k.column + 1) cs).map fun r => (.quoted (String.ofList r.1), r.2)
  | cs =>
    if startsPlain inFlow cs then
      let (text, stop) := plain inFlow least .none k k.column cs
      some (.plain (String.ofList text), stop)
    else none

end Scriptlet.Yaml
