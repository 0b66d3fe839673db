import Scriptlet.Token.Basic

/-!
# Operators

The thirteen binary operators with their precedence, and the symbols that may stand before an operand.
-/

namespace Scriptlet

/-- Binary operators. -/
inductive BinaryOperator where
  | or
  | and
  | eq
  | ne
  | lt
  | gt
  | le
  | ge
  | add
  | sub
  | mul
  | div
  | mod
  deriving DecidableEq, Inhabited, Repr

namespace BinaryOperator

/-- An operator as it is written. -/
def text : BinaryOperator → String
  | .or => "||"
  | .and => "&&"
  | .eq => "=="
  | .ne => "!="
  | .lt => "<"
  | .gt => ">"
  | .le => "<="
  | .ge => ">="
  | .add => "+"
  | .sub => "-"
  | .mul => "*"
  | .div => "/"
  | .mod => "%"

/-- How tightly an operator binds. -/
def precedence : BinaryOperator → Nat
  | .or => 1
  | .and => 2
  | .eq | .ne | .lt | .gt | .le | .ge => 3
  | .add | .sub => 4
  | .mul | .div | .mod => 5

/-- All binary operators. -/
def all : List BinaryOperator :=
  [.or, .and, .eq, .ne, .lt, .gt, .le, .ge, .add, .sub, .mul, .div, .mod]

/-- The operator that is written so. -/
def ofText? (s : String) : Option BinaryOperator := all.find? (·.text == s)

theorem ofText?_text (op : BinaryOperator) : ofText? op.text = some op := by
  cases op <;> decide

end BinaryOperator

namespace Symbol

/-- The binary operator that a symbol writes. -/
def binary? : Symbol → Option BinaryOperator
  | .orOr => some .or
  | .andAnd => some .and
  | .equal => some .eq
  | .notEqual => some .ne
  | .less => some .lt
  | .greater => some .gt
  | .lessEqual => some .le
  | .greaterEqual => some .ge
  | .plus => some .add
  | .minus => some .sub
  | .star => some .mul
  | .slash => some .div
  | .percent => some .mod
  | _ => none

/-- May the symbol stand before an operand? -/
def isUnary : Symbol → Bool
  | .minus | .plus | .bang => true
  | _ => false

end Symbol

end Scriptlet
