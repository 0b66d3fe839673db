import Mathlib.Algebra.Ring.Int.Defs
import Scriptlet.Token.Scanner

/-!
# The lexical grammar

What the pieces of a source text are, said without the scanner. A lexeme is a beginning of a text that
belongs to one of the classes of tokens; some classes also look at what follows. Of all lexemes at a
place the longest one is the token. Between tokens stand blanks and comments.

* `Lexeme kind lexeme rest`: in front of `rest`, the characters `lexeme` form a token of this kind.
* `LongestMatch kind lexeme rest`: and no longer beginning of the text does.
* `Trivia text rest`: in front of `rest`, the characters `text` are a blank or a comment.
* `Splits here source tokens`: the source text, which starts at `here`, is cut into `tokens`.
-/

namespace Scriptlet.Lexical

open Scriptlet.Text Scriptlet.Token

/-! ## Words -/

/-- The words that are no names. -/
def reservedWords : List (String × Kind) :=
  [("let", .keyword .letWord), ("use", .keyword .useWord), ("as", .keyword .asWord),
   ("true", .bool true), ("false", .bool false)]

/-- A letter or an underscore, and then letters, digits and underscores. -/
def IsWord : List Char → Prop
  | [] => False
  | c :: cs => isNameStart c = true ∧ ∀ d ∈ cs, isNameChar d = true

/-! ## Numbers -/

/-- Digits of a class, with single underscores between them. -/
inductive DigitRun (isDigit : Char → Bool) : List Char → Prop
  | last {c : Char} : isDigit c = true → DigitRun isDigit [c]
  | digit {c : Char} {cs : List Char} : isDigit c = true → DigitRun isDigit cs →
      DigitRun isDigit (c :: cs)
  | separated {c : Char} {cs : List Char} : isDigit c = true → DigitRun isDigit cs →
      DigitRun isDigit (c :: '_' :: cs)

/-- The text goes on with a character of a name. -/
def StartsWithName (text : List Char) : Prop := ∃ c cs, text = c :: cs ∧ isNameChar c = true

/-- The text goes on with a point and a digit of some script. -/
def StartsWithFraction (text : List Char) : Prop :=
  ∃ c cs, text = '.' :: c :: cs ∧ isDigit c = true

/-! ## Strings -/

/-- The escapes of one letter: the letter and the character that it stands for. -/
def shortEscapes : List (Char × Char) :=
  [('n', '\n'), ('t', '\t'), ('r', '\r'), ('0', '\x00'), ('\\', '\\'), ('"', '"'), ('\'', '\'')]

/-- What may follow a backslash, with the character that it stands for. -/
inductive Escaped : Char → List Char → Prop
  | short {letter c : Char} : (letter, c) ∈ shortEscapes → Escaped c [letter]
  | byte {c a b : Char} : isHex a = true → isHex b = true → c.toNat = ofDigits 16 [a, b] →
      Escaped c ['x', a, b]
  | scalar {c : Char} {digits : List Char} : (∀ d ∈ digits, isHex d = true) →
      1 ≤ digits.length → digits.length ≤ 6 → c.toNat = ofDigits 16 digits →
      Escaped c ('u' :: '\x7b' :: digits ++ ['\x7d'])

/-- The inside of a string literal, after the characters that it denotes. -/
inductive StringInside : List Char → List Char → Prop
  | nil : StringInside [] []
  | plain {c : Char} {value text : List Char} : c ≠ '"' → c ≠ '\\' → c ≠ '\n' →
      StringInside value text → StringInside (c :: value) (c :: text)
  | escaped {c : Char} {raw value text : List Char} : Escaped c raw → StringInside value text →
      StringInside (c :: value) ('\\' :: raw ++ text)

/-! ## Comments -/

/-- Does a comment start here? -/
def opensComment : List Char → Bool
  | '/' :: '/' :: _ | '/' :: '*' :: _ => true
  | _ => false

/-- The marks of block comments, read from left to right without overlap: `1` for `/*`, `-1` for `*/`
and `0` for any other character. -/
def marks : List Char → List Int
  | '/' :: '*' :: cs => 1 :: marks cs
  | '*' :: '/' :: cs => -1 :: marks cs
  | _ :: cs => 0 :: marks cs
  | [] => []

/-- With `depth` comments open, the marks close all of them, and not before the end. -/
def Closes (depth : Int) (ms : List Int) : Prop :=
  depth + ms.sum = 0 ∧ ∀ n < ms.length, 0 < depth + (ms.take n).sum

/-- A comment that starts with `/*` and ends where its marks balance. -/
def IsBlockComment (text : List Char) : Prop :=
  ∃ inside, text = '/' :: '*' :: inside ∧ Closes 1 (marks inside)

/-- A blank or a comment in front of `rest`. A comment of one line ends before the line feed. -/
inductive Trivia : List Char → List Char → Prop
  | blank {c : Char} {rest : List Char} : c ∈ [' ', '\t', '\r', '\n'] → Trivia [c] rest
  | line {inside rest : List Char} : '\n' ∉ inside → (rest = [] ∨ ∃ cs, rest = '\n' :: cs) →
      Trivia ('/' :: '/' :: inside) rest
  | block {text rest : List Char} : IsBlockComment text → Trivia text rest

/-! ## Lexemes -/

/-- In front of `rest`, the characters `lexeme` form a token of kind `kind`. A number may not run into
a name or a fraction, and a slash that opens a comment is no operator. -/
inductive Lexeme : Kind → List Char → List Char → Prop
  | reserved {word : String} {kind : Kind} {rest : List Char} : (word, kind) ∈ reservedWords →
      Lexeme kind word.toList rest
  | name {text rest : List Char} : IsWord text →
      (∀ kind, (String.ofList text, kind) ∉ reservedWords) →
      Lexeme (.ident (String.ofList text)) text rest
  | decimal {digits rest : List Char} : DigitRun isDecimal digits → ¬ StartsWithName rest →
      ¬ StartsWithFraction rest → Lexeme (.int (ofDigits 10 (digitsOnly digits))) digits rest
  | hexadecimal {x : Char} {digits rest : List Char} : x = 'x' ∨ x = 'X' →
      DigitRun isHex digits → ¬ StartsWithName rest →
      Lexeme (.int (ofDigits 16 (digitsOnly digits))) ('0' :: x :: digits) rest
  | binary {b : Char} {digits rest : List Char} : b = 'b' ∨ b = 'B' →
      DigitRun isBinary digits → ¬ StartsWithName rest →
      Lexeme (.int (ofDigits 2 (digitsOnly digits))) ('0' :: b :: digits) rest
  | string {value text rest : List Char} : StringInside value text →
      Lexeme (.str (String.ofList value)) ('"' :: text ++ ['"']) rest
  | symbol {s : Symbol} {rest : List Char} : opensComment (s.text.toList ++ rest) = false →
      Lexeme (.symbol s) s.text.toList rest

/-- A lexeme that no other lexeme of the same text is longer than. -/
def LongestMatch (kind : Kind) (lexeme rest : List Char) : Prop :=
  Lexeme kind lexeme rest ∧
    ∀ kind' lexeme' rest', lexeme' ++ rest' = lexeme ++ rest → Lexeme kind' lexeme' rest' →
      lexeme'.length ≤ lexeme.length

/-- The text that starts at `here` is cut from left to right into trivia and longest lexemes; the
tokens are the lexemes in their order, and the end of input after them. -/
inductive Splits : Location → List Char → List Token → Prop
  | done {here : Location} : Splits here [] [⟨.eof, "", ⟨here, here⟩⟩]
  | trivia {here : Location} {text rest : List Char} {tokens : List Token} : Trivia text rest →
      Splits (here.after text) rest tokens → Splits here (text ++ rest) tokens
  | token {here : Location} {kind : Kind} {lexeme rest : List Char} {tokens : List Token} :
      LongestMatch kind lexeme rest → Splits (here.after lexeme) rest tokens →
      Splits here (lexeme ++ rest)
        (⟨kind, String.ofList lexeme, ⟨here, here.after lexeme⟩⟩ :: tokens)

end Scriptlet.Lexical
