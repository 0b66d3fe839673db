import Scriptlet.Failure.Cause
import Scriptlet.Syntax.Operator

/-!
# What operators do

The operators on values that have been computed. Integers have any size; division goes toward zero.
Any two values can be compared for equality, and two integers or two strings for order.
-/

namespace Scriptlet

namespace Value

/-- The order of two integers, or of two strings by code points. Other pairs have none. -/
def order? : Value → Value → Option Ordering
  | .int m, .int n => some (compare m n)
  | .str s, .str t => some (compare s t)
  | _, _ => none

end Value

namespace Operation

/-- The quotient of the magnitudes, negative if one of the two integers is and the other is not. -/
def truncate (a b : Int) : Int :=
  let magnitude : Int := Int.ofNat (a.natAbs / b.natAbs)
  if decide (a < 0) != decide (b < 0) then -magnitude else magnitude

/-- The quotient, rounded toward zero. -/
def quotient? (a b : Int) : Option Int := if b = 0 then none else some (truncate a b)

/-- The remainder that goes with the quotient. -/
def remainder? (a b : Int) : Option Int := if b = 0 then none else some (a - b * truncate a b)

/-- What the left operand decides alone. A logical operator refuses anything but a boolean, and its
right operand may not be needed. -/
def shortcut (op : BinaryOperator) (left : Value) : Except Cause (Option Value) :=
  match op, left with
  | .and, .bool b => .ok (if b then none else some (.bool b))
  | .or, .bool b => .ok (if b then some (.bool b) else none)
  | .and, v | .or, v => .error (.operandMismatch op.text .booleans [v.kind])
  | _, _ => .ok none

/-- An operator on integers. -/
def arithmetic (op : BinaryOperator) (left right : Value) (f : Int → Int → Option Int) :
    Except Cause Value :=
  match left, right with
  | .int a, .int b =>
    match f a b with
    | some n => .ok (.int n)
    | none => .error (.divisionByZero op.text)
  | v, w => .error (.operandMismatch op.text .integers [v.kind, w.kind])

/-- An operator on the order of its operands. -/
def ordering (op : BinaryOperator) (left right : Value) (f : Ordering → Bool) :
    Except Cause Value :=
  match left.order? right with
  | some o => .ok (.bool (f o))
  | none => .error (.operandMismatch op.text .ordered [left.kind, right.kind])

/-- A binary operator on both operands. -/
def binary (op : BinaryOperator) (left right : Value) : Except Cause Value :=
  match op with
  | .and | .or =>
    match right with
    | .bool b => .ok (.bool b)
    | v => .error (.operandMismatch op.text .booleans [v.kind])
  | .eq => .ok (.bool (left = right))
  | .ne => .ok (.bool (left ≠ right))
  | .lt => ordering op left right (· == .lt)
  | .gt => ordering op left right (· == .gt)
  | .le => ordering op left right (· != .gt)
  | .ge => ordering op left right (· != .lt)
  | .add => arithmetic op left right fun a b => some (a + b)
  | .sub => arithmetic op left right fun a b => some (a - b)
  | .mul => arithmetic op left right fun a b => some (a * b)
  | .div => arithmetic op left right quotient?
  | .mod => arithmetic op left right remainder?

/-- A prefix operator: `!` negates a boolean, `-` an integer, any other keeps an integer. -/
def unary (op : String) (operand : Value) : Except Cause Value :=
  if op = "!" then
    match operand with
    | .bool b => .ok (.bool !b)
    | v => .error (.operandMismatch op .boolean [v.kind])
  else
    match operand with
    | .int n => .ok (.int (if op = "-" then -n else n))
    | v => .error (.operandMismatch op .integer [v.kind])

/-- The element of a tuple at a position, counted from zero. -/
def element (object position : Value) : Except Cause Value :=
  match object, position with
  | .tuple items, .int i =>
    match if i < 0 then none else items[i.toNat]? with
    | some v => .ok v
    | none => .error (.indexOutOfRange (Decimal.ofInt i) items.length)
  | .tuple _, v => .error (.operandMismatch "[]" .index [v.kind])
  | v, _ => .error (.operandMismatch "[]" .indexed [v.kind])

end Operation

end Scriptlet
