import Mathlib.Tactic.Common
import Scriptlet.Eval.Operation

/-!
# How operations fail

An operation on values fails because of the kinds of its operands, because of a zero divisor or because
of an index out of range, and for no other reason.
-/

namespace Scriptlet

/-- Is it a cause that only the operands of an operation can give? -/
def Cause.isOperation : Cause → Bool
  | .operandMismatch _ _ _ | .divisionByZero _ | .indexOutOfRange _ _ => true
  | _ => false

namespace Operation

variable {cause : Cause}

theorem isOperation_of_shortcut {op : BinaryOperator} {left : Value}
    (h : shortcut op left = .error cause) : cause.isOperation = true := by
  unfold shortcut at h
  split at h
  · cases h
  · cases h
  · cases h
    rfl
  · cases h
    rfl
  · cases h

theorem isOperation_of_arithmetic {op : BinaryOperator} {left right : Value} {f : Int → Int → Option Int}
    (h : arithmetic op left right f = .error cause) : cause.isOperation = true := by
  unfold arithmetic at h
  split at h
  · split at h
    · cases h
    · cases h
      rfl
  · cases h
    rfl

theorem isOperation_of_ordering {op : BinaryOperator} {left right : Value} {f : Ordering → Bool}
    (h : ordering op left right f = .error cause) : cause.isOperation = true := by
  unfold ordering at h
  split at h
  · cases h
  · cases h
    rfl

theorem isOperation_of_binary {op : BinaryOperator} {left right : Value}
    (h : binary op left right = .error cause) : cause.isOperation = true := by
  cases op with
  | and | or =>
    dsimp only [binary] at h
    split at h
    · cases h
    · cases h
      rfl
  | eq | ne => cases h
  | lt | gt | le | ge => exact isOperation_of_ordering h
  | add | sub | mul | div | mod =>
    dsimp only [binary] at h
    exact isOperation_of_arithmetic h

theorem isOperation_of_unary {op : String} {operand : Value} (h : unary op operand = .error cause) :
    cause.isOperation = true := by
  unfold unary at h
  split at h
  · split at h
    · cases h
    · cases h
      rfl
  · split at h
    · cases h
    · cases h
      rfl

theorem isOperation_of_element {object position : Value} (h : element object position = .error cause) :
    cause.isOperation = true := by
  unfold element at h
  split at h
  · split at h
    · cases h
    · cases h
      rfl
  · cases h
    rfl
  · cases h
    rfl

end Operation

end Scriptlet
