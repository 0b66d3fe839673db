import Scriptlet.Syntax.Operator

/-!
# The grammar of programs

Which lists of tokens are programs, said without the reader. Only the kinds of the tokens matter.

```
program    = (statement | ";")* EOF
statement  = block | use | binding | expression ending
block      = "{" (statement | ";")* "}" [";"]
use        = "use" NAME "::" NAME ["as" NAME] ending
binding    = ["let"] NAME "=" expression ending
ending     = ";" | nothing, directly before "}" or EOF
expression = unary (operator unary)*
unary      = ("-" | "+" | "!")* operand
operand    = primary suffix*
suffix     = "[" expression "]" | "(" elements ")"
primary    = literal | NAME | NAME "::" NAME | "(" ")" | "(" expression ")"
           | "(" expression "," elements ")"
elements   = [expression ("," expression)* [","]]
```

A call is the first suffix of an operand or none: it comes directly after a name, which may stand in
grouping parentheses, or after `NAME "::" NAME`, which asks for it.
-/

namespace Scriptlet.Grammar

open Scriptlet.Token (Kind)

/-! ## Expressions -/

/-- A name, also in grouping parentheses. -/
inductive Name : List Kind → Prop
  | ident (name : String) : Name [.ident name]
  | group {n : List Kind} : Name n → Name (.symbol .openParen :: n ++ [.symbol .closeParen])

mutual

/-- Operands with binary operators between them. -/
inductive Expression : List Kind → Prop
  | chain {u ops : List Kind} : Unary u → Operations ops → Expression (u ++ ops)

/-- Binary operators with their right operands. -/
inductive Operations : List Kind → Prop
  | nil : Operations []
  | cons {s : Symbol} {u ops : List Kind} : s.binary?.isSome = true → Unary u → Operations ops →
      Operations (.symbol s :: u ++ ops)

/-- An operand after any number of signs. -/
inductive Unary : List Kind → Prop
  | sign {s : Symbol} {u : List Kind} : s.isUnary = true → Unary u → Unary (.symbol s :: u)
  | operand {o : List Kind} : Operand o → Unary o

/-- A primary expression with its suffixes. A name may be called, and a path has to be. -/
inductive Operand : List Kind → Prop
  | plain {p ss : List Kind} : Primary p → Suffixes false ss → Operand (p ++ ss)
  | named {n ss : List Kind} : Name n → Suffixes true ss → Operand (n ++ ss)
  | path {m f : String} {es ss : List Kind} : Elements es → Suffixes false ss →
      Operand (.ident m :: .symbol .doubleColon :: .ident f :: .symbol .openParen ::
        es ++ .symbol .closeParen :: ss)

/-- Suffixes; the flag says whether a call may come next. -/
inductive Suffixes : Bool → List Kind → Prop
  | nil {callable : Bool} : Suffixes callable []
  | index {callable : Bool} {e ss : List Kind} : Expression e → Suffixes false ss →
      Suffixes callable (.symbol .openBracket :: e ++ .symbol .closeBracket :: ss)
  | call {es ss : List Kind} : Elements es → Suffixes false ss →
      Suffixes true (.symbol .openParen :: es ++ .symbol .closeParen :: ss)

/-- An expression without operators and suffixes. -/
inductive Primary : List Kind → Prop
  | int (n : Nat) : Primary [.int n]
  | str (s : String) : Primary [.str s]
  | bool (b : Bool) : Primary [.bool b]
  | name (name : String) : Primary [.ident name]
  | unit : Primary [.symbol .openParen, .symbol .closeParen]
  | group {e : List Kind} : Expression e →
      Primary (.symbol .openParen :: e ++ [.symbol .closeParen])
  | tuple {e es : List Kind} : Expression e → Elements es →
      Primary (.symbol .openParen :: e ++ .symbol .comma :: es ++ [.symbol .closeParen])

/-- Expressions with commas between them, and perhaps one after them. -/
inductive Elements : List Kind → Prop
  | nil : Elements []
  | last {e : List Kind} : Expression e → Elements e
  | cons {e es : List Kind} : Expression e → Elements es → Elements (e ++ .symbol .comma :: es)

end

/-! ## Statements -/

/-- The end of a statement in front of `rest`. -/
inductive Ending : List Kind → List Kind → Prop
  | semicolon {rest : List Kind} : Ending [.symbol .semicolon] rest
  | brace {rest : List Kind} : Ending [] (.symbol .closeBrace :: rest)
  | eof {rest : List Kind} : Ending [] (.eof :: rest)

mutual

/-- A statement in front of `rest`. -/
inductive Statement : List Kind → List Kind → Prop
  | block {ss semicolon rest : List Kind} : semicolon = [] ∨ semicolon = [.symbol .semicolon] →
      Statements ss (.symbol .closeBrace :: semicolon ++ rest) →
      Statement (.symbol .openBrace :: ss ++ .symbol .closeBrace :: semicolon) rest
  | use {m f : String} {ending rest : List Kind} : Ending ending rest →
      Statement (.keyword .useWord :: .ident m :: .symbol .doubleColon :: .ident f :: ending) rest
  | useAs {m f n : String} {ending rest : List Kind} : Ending ending rest →
      Statement (.keyword .useWord :: .ident m :: .symbol .doubleColon :: .ident f ::
        .keyword .asWord :: .ident n :: ending) rest
  | binding {n : String} {e ending rest : List Kind} : Expression e → Ending ending rest →
      Statement (.ident n :: .symbol .assign :: e ++ ending) rest
  | letBinding {n : String} {e ending rest : List Kind} : Expression e → Ending ending rest →
      Statement (.keyword .letWord :: .ident n :: .symbol .assign :: e ++ ending) rest
  | expression {e ending rest : List Kind} : Expression e → Ending ending rest →
      Statement (e ++ ending) rest

/-- Statements and stray semicolons in front of `rest`. -/
inductive Statements : List Kind → List Kind → Prop
  | nil {rest : List Kind} : Statements [] rest
  | semicolon {ss rest : List Kind} : Statements ss rest → Statements (.symbol .semicolon :: ss) rest
  | cons {s ss rest : List Kind} : Statement s (ss ++ rest) → Statements ss rest →
      Statements (s ++ ss) rest

end

/-- The tokens of a program, without the end of input. -/
def IsProgram (kinds : List Kind) : Prop := Statements kinds [.eof]

end Scriptlet.Grammar
