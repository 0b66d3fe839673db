import Scriptlet.Source.Position
import Scriptlet.Text.Decimal
import Scriptlet.Text.Quoted

/-!
# Tokens

A token is a classified piece of source text: its kind with what the text denotes, the text itself
and where it stands. A stream of tokens ends with an `eof` token of empty text.
-/

namespace Scriptlet

/-- The reserved words that open or shape statements. -/
inductive Keyword where
  | letWord
  | useWord
  | asWord
  deriving DecidableEq, Inhabited, Repr

namespace Keyword

/-- A keyword as it is written. -/
def text : Keyword → String
  | .letWord => "let"
  | .useWord => "use"
  | .asWord => "as"

end Keyword

/-- Operators and punctuation. -/
inductive Symbol where
  | plus
  | minus
  | star
  | slash
  | percent
  | less
  | greater
  | lessEqual
  | greaterEqual
  | equal
  | notEqual
  | andAnd
  | orOr
  | bang
  | assign
  | doubleColon
  | openParen
  | closeParen
  | openBrace
  | closeBrace
  | openBracket
  | closeBracket
  | comma
  | semicolon
  deriving DecidableEq, Inhabited, Repr

namespace Symbol

/-- A symbol as it is written. -/
def text : Symbol → String
  | .plus => "+"
  | .minus => "-"
  | .star => "*"
  | .slash => "/"
  | .percent => "%"
  | .less => "<"
  | .greater => ">"
  | .lessEqual => "<="
  | .greaterEqual => ">="
  | .equal => "=="
  | .notEqual => "!="
  | .andAnd => "&&"
  | .orOr => "||"
  | .bang => "!"
  | .assign => "="
  | .doubleColon => "::"
  | .openParen => "("
  | .closeParen => ")"
  | .openBrace => "\x7b"
  | .closeBrace => "\x7d"
  | .openBracket => "["
  | .closeBracket => "]"
  | .comma => ","
  | .semicolon => ";"

/-- The name of a symbol in token listings. -/
def name : Symbol → String
  | .plus => "PLUS"
  | .minus => "MINUS"
  | .star => "STAR"
  | .slash => "SLASH"
  | .percent => "PERCENT"
  | .less => "LT"
  | .greater => "GT"
  | .lessEqual => "LE"
  | .greaterEqual => "GE"
  | .equal => "EQ"
  | .notEqual => "NE"
  | .andAnd => "AND"
  | .orOr => "OR"
  | .bang => "NOT"
  | .assign => "ASSIGN"
  | .doubleColon => "DOUBLE_COLON"
  | .openParen => "LPAREN"
  | .closeParen => "RPAREN"
  | .openBrace => "LBRACE"
  | .closeBrace => "RBRACE"
  | .openBracket => "LBRACKET"
  | .closeBracket => "RBRACKET"
  | .comma => "COMMA"
  | .semicolon => "SEMICOLON"

/-- Is the symbol punctuation rather than an operator? -/
def isPunctuation : Symbol → Bool
  | .openParen | .closeParen | .openBrace | .closeBrace | .openBracket | .closeBracket
  | .comma | .semicolon => true
  | _ => false

end Symbol

namespace Token

/-- What a token is and what it denotes. -/
inductive Kind where
  | int (n : Nat)
  | str (s : String)
  | bool (b : Bool)
  | ident (name : String)
  | keyword (k : Keyword)
  | symbol (s : Symbol)
  | eof
  deriving DecidableEq, Inhabited, Repr

namespace Kind

/-- The name of a kind in token listings. -/
def name : Kind → String
  | .int _ => "INT_LITERAL"
  | .str _ => "STRING_LITERAL"
  | .bool _ => "BOOL_LITERAL"
  | .ident _ => "IDENTIFIER"
  | .keyword .letWord => "LET"
  | .keyword .useWord => "USE"
  | .keyword .asWord => "AS"
  | .symbol s => s.name
  | .eof => "EOF"

/-- The coarse class of a kind. -/
def category : Kind → String
  | .int _ => "number"
  | .str _ => "string"
  | .bool _ => "keyword"
  | .ident _ => "identifier"
  | .keyword _ => "keyword"
  | .symbol s => if s.isPunctuation then "punctuation" else "operator"
  | .eof => "end-of-input"

end Kind

end Token

/-- A classified piece of source text. -/
structure Token where
  kind : Token.Kind
  lexeme : String
  span : Span
  deriving DecidableEq, Inhabited, Repr

namespace Token

/-- A token as error messages name it. -/
def describe (t : Token) : String :=
  match t.kind with
  | .eof => "end of input"
  | .symbol s => "'" ++ s.text ++ "'"
  | .ident _ => "identifier '" ++ t.lexeme ++ "'"
  | .keyword _ => "keyword '" ++ t.lexeme ++ "'"
  | _ => "'" ++ t.lexeme ++ "'"

/-- The kind of a token with what a literal or a name denotes; none for a number that is too long
to show. -/
def show? (t : Token) : Option String :=
  let shown (payload : String) : String := t.kind.name ++ "(" ++ payload ++ ")"
  match t.kind with
  | .int n => (Decimal.ofInt? n).map shown
  | .str s => some (shown (Text.quote s))
  | .bool b => some (shown (if b then "True" else "False"))
  | .ident name => some (shown (Text.quote name))
  | kind => some kind.name

end Token

end Scriptlet
