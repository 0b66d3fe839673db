import Scriptlet.Text.Decimal
import Scriptlet.Text.Quoted
import Scriptlet.Value.Basic

/-!
# Values as source text

`Value.text` writes a value as a program would write it. Characters that are not printable become
escapes that the scanner of tokens reads back, and a tuple of one element keeps its comma. Which
characters count as printable is left open in `Value.chars`.
-/

namespace Scriptlet.Value

open Scriptlet.Text

/-- One character of a string literal. -/
def literalChar (printable : Char → Bool) (c : Char) : List Char :=
  if c == '\\' then ['\\', '\\']
  else if c == '"' then ['\\', '"']
  else if c == '\n' then ['\\', 'n']
  else if c == '\t' then ['\\', 't']
  else if c == '\r' then ['\\', 'r']
  else if c == '\x00' then ['\\', '0']
  else if printable c then [c]
  else '\\' :: 'u' :: '\x7b' :: hex 1 c.toNat ++ ['\x7d']

mutual

/-- The characters of a value. -/
def chars (printable : Char → Bool) : Value → List Char
  | .int n => Decimal.signed n
  | .str s => '"' :: s.toList.flatMap (literalChar printable) ++ ['"']
  | .bool true => "true".toList
  | .bool false => "false".toList
  | .tuple items =>
    '(' :: (itemChars printable items ++ if items.length = 1 then [',', ')'] else [')'])

/-- The elements of a tuple, separated by commas. -/
def itemChars (printable : Char → Bool) : List Value → List Char
  | [] => []
  | [v] => chars printable v
  | v :: w :: vs => chars printable v ++ ',' :: ' ' :: itemChars printable (w :: vs)

end

/-- A value as source text. -/
def text (v : Value) : String := String.ofList (v.chars isPrintable)

mutual

/-- The frames that a host takes for the text of a value: an item that stands alone in its tuple takes one
more, and one of several takes two more. -/
def frames : Value → Nat
  | .int _ => 3
  | .str _ => 3
  | .bool _ => 2
  | .tuple items => (if items.length = 1 then 1 else 2) + itemFrames items

/-- The frames for any of several values. -/
def itemFrames : List Value → Nat
  | [] => 0
  | v :: vs => max (frames v) (itemFrames vs)

end

/-- A value with its kind, for inspection. -/
def inspect (v : Value) : String := "Value(" ++ v.kind.name ++ ", " ++ v.text ++ ")"

end Scriptlet.Value
