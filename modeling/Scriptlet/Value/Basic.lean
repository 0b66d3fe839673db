/-!
# Run-time values

A value is an integer of any size, a string, a boolean or a tuple of values. Values of different
kinds are never equal, at any depth, so equality is structural.
-/

namespace Scriptlet

/-- A run-time value. -/
inductive Value where
  | int (n : Int)
  | str (s : String)
  | bool (b : Bool)
  | tuple (items : List Value)
  deriving Inhabited

namespace Value

/-- The four kinds of values. -/
inductive Kind where
  | integer
  | string
  | boolean
  | tuple
  deriving DecidableEq, Inhabited, Repr

/-- The name of a kind in messages. -/
def Kind.name : Kind → String
  | .integer => "Integer"
  | .string => "String"
  | .boolean => "Boolean"
  | .tuple => "Tuple"

/-- The name of a kind with its article, as messages about arguments use it. -/
def Kind.phrase : Kind → String
  | .integer => "an integer"
  | .string => "a string"
  | .boolean => "a boolean"
  | .tuple => "a tuple"

/-- The kind of a value. -/
def kind : Value → Kind
  | .int _ => .integer
  | .str _ => .string
  | .bool _ => .boolean
  | .tuple _ => .tuple

/-- The empty tuple, the value of whatever has no value of its own. -/
def unit : Value := .tuple []

/-- The number of elements of a tuple. -/
def size? : Value → Option Nat
  | .tuple items => some items.length
  | _ => none

mutual

/-- Equality of values is decidable. -/
def decEq : (a b : Value) → Decidable (a = b)
  | .int m, .int n =>
    if h : m = n then isTrue (by rw [h]) else isFalse fun e => h (by injection e)
  | .str s, .str t =>
    if h : s = t then isTrue (by rw [h]) else isFalse fun e => h (by injection e)
  | .bool p, .bool q =>
    if h : p = q then isTrue (by rw [h]) else isFalse fun e => h (by injection e)
  | .tuple vs, .tuple ws =>
    match decEqList vs ws with
    | isTrue h => isTrue (by rw [h])
    | isFalse h => isFalse fun e => h (by injection e)
  | .int _, .str _ | .int _, .bool _ | .int _, .tuple _ => isFalse nofun
  | .str _, .int _ | .str _, .bool _ | .str _, .tuple _ => isFalse nofun
  | .bool _, .int _ | .bool _, .str _ | .bool _, .tuple _ => isFalse nofun
  | .tuple _, .int _ | .tuple _, .str _ | .tuple _, .bool _ => isFalse nofun

/-- Equality of lists of values is decidable. -/
def decEqList : (vs ws : List Value) → Decidable (vs = ws)
  | [], [] => isTrue rfl
  | [], _ :: _ => isFalse nofun
  | _ :: _, [] => isFalse nofun
  | v :: vs, w :: ws =>
    match decEq v w, decEqList vs ws with
    | isTrue h, isTrue h' => isTrue (by rw [h, h'])
    | isFalse h, _ => isFalse fun e => h (by injection e)
    | _, isFalse h => isFalse fun e => h (by injection e)

end

instance : DecidableEq Value := decEq

end Value

end Scriptlet
