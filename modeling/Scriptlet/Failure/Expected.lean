import Scriptlet.Value.Basic

/-!
# What was expected

The parties of a mismatch, named once: what the reader of programs was waiting for, and what kinds of
operands an operator takes.
-/

namespace Scriptlet

/-- What may come next at a place of a program. -/
inductive Expected where
  | expression
  | terminator
  | closeBracket
  | argumentEnd
  | tupleEnd
  | pathSymbol
  | callOf (module symbol : String)
  | variableName
  | equals
  | moduleName
  | colons
  | symbolName
  | aliasName
  | closeBrace
  deriving DecidableEq, Inhabited, Repr

namespace Expected

/-- How messages name what was expected. -/
def text : Expected → String
  | .expression => "expression"
  | .terminator => "';'"
  | .closeBracket => "']'"
  | .argumentEnd => "')' or ','"
  | .tupleEnd => "',' or ')'"
  | .pathSymbol => "symbol name after '::'"
  | .callOf module symbol => "'(' to call '" ++ module ++ "::" ++ symbol ++ "'"
  | .variableName => "variable name"
  | .equals => "'='"
  | .moduleName => "module name"
  | .colons => "'::'"
  | .symbolName => "symbol name"
  | .aliasName => "alias name"
  | .closeBrace => "'\x7d'"

end Expected

/-- The operands that an operator takes. -/
inductive Operands where
  | booleans
  | boolean
  | integers
  | integer
  | ordered
  | indexed
  | index
  deriving DecidableEq, Inhabited, Repr

namespace Operands

/-- How messages name the operands of an operator. -/
def text : Operands → String
  | .booleans => "Boolean operands"
  | .boolean => "a Boolean operand"
  | .integers => "Integer operands"
  | .integer => "an Integer operand"
  | .ordered => "two Integers or two Strings"
  | .indexed => "a Tuple to index"
  | .index => "an Integer index"

end Operands

end Scriptlet
