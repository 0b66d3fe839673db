import Scriptlet.Value.Basic

/-!
# Objects of the host

`Object` is what host code holds: what values are made from, and what they turn into. `Value.ofObject` and
`Value.toObject` convert. Both go down into collections one level at a time, as deep as the host allows.
-/

namespace Scriptlet

/-- What the text of an object is: a text, a text of a class of its own, or an exception. -/
inductive Shown where
  | text (s : String)
  | derived (typeName : String)
  | raises (kind : String)
  deriving DecidableEq, Inhabited, Repr

/-- An object of the host. A class that is derived from that of integers, texts, tuples or lists has a say
in conversions: which integer or which text the object is converted to, or an exception; which items a walk
over it finds, and the exception that ends the walk, if one does. -/
inductive Object where
  | value (v : Value)
  | bool (b : Bool)
  | int (n : Int)
  | str (s : String)
  | list (items : List Object)
  | tuple (items : List Object)
  | derivedInt (typeName : String) (own : Int) (converted : Except String Int)
  | derivedStr (typeName : String) (own : String) (shown : Shown)
  | derivedItems (typeName : String) (items : List Object) (ending : Option String)
  | other (typeName : String)
  deriving Inhabited

/-- The name of an object's type in messages. -/
def Object.typeName : Object → String
  | .value _ => "Value"
  | .bool _ => "bool"
  | .int _ => "int"
  | .str _ => "str"
  | .list _ => "list"
  | .tuple _ => "tuple"
  | .derivedInt typeName _ _ | .derivedStr typeName _ _ | .derivedItems typeName _ _
  | .other typeName => typeName

namespace Value

/-! ## Payloads -/

/-- The type name of the payload of a kind. -/
def Kind.payload : Kind → String
  | .integer => "int"
  | .string => "str"
  | .boolean => "bool"
  | .tuple => "tuple"

/-- Why a payload does not make a value of a kind. -/
inductive PayloadError where
  | wrongType (kind : Kind) (found : String)
  | elements
  deriving DecidableEq, Inhabited, Repr

/-- The message for a payload that does not fit. -/
def PayloadError.message : PayloadError → String
  | .wrongType kind found => kind.name ++ " value requires " ++ kind.payload ++ ", got " ++ found
  | .elements => "Tuple value elements must be Values"

/-- The values among the items of a tuple, if all of them are values. -/
def elements? : List Object → Option (List Value)
  | [] => some []
  | .value v :: os => (elements? os).map (v :: ·)
  | _ :: _ => none

/-- The value of a kind with a payload; the payload has to have the type of the kind exactly. -/
def ofPayload (kind : Kind) (payload : Object) : Except PayloadError Value :=
  match kind, payload with
  | .integer, .int n => .ok (.int n)
  | .string, .str s => .ok (.str s)
  | .boolean, .bool b => .ok (.bool b)
  | .tuple, .tuple items =>
    match elements? items with
    | some vs => .ok (.tuple vs)
    | none => .error .elements
  | _, other => .error (.wrongType kind other.typeName)

/-- The message for the length of a value that has none. -/
def lengthMessage (kind : Kind) : String := kind.name ++ " value has no length"

/-! ## Conversions -/

/-- Why an object does not become a value: an object of the type `typeName` stands for none, a payload does
not fit, an exception of the class `kind`, or a host that can go no deeper. -/
inductive Refusal where
  | foreign (typeName : String)
  | payload (e : PayloadError)
  | raised (kind : String)
  | exhausted
  deriving DecidableEq, Inhabited, Repr

/-- The message for an object that stands for no value. -/
def conversionMessage (typeName : String) : String :=
  "cannot convert " ++ typeName ++ " to an apexlang value"

/-- The value of an integer that an object was converted to. -/
def ofConverted : Except String Int → Except Refusal Value
  | .ok n => .ok (.int n)
  | .error kind => .error (.raised kind)

/-- The value of what an object is shown as. -/
def ofShown : Shown → Except Refusal Value
  | .text s => .ok (.str s)
  | .derived typeName => .error (.payload (.wrongType .string typeName))
  | .raises kind => .error (.raised kind)

/-- The tuple of the values that a walk gave, unless an exception ended it. -/
def ofWalk (ending : Option String) (vs : List Value) : Except Refusal Value :=
  match ending with
  | none => .ok (.tuple vs)
  | some kind => .error (.raised kind)

mutual

/-- The value that an object stands for, where collections may be nested `room` deep. Lists and tuples both
become tuples. The first object that stands for no value is refused. -/
def ofObject (room : Nat) : Object → Except Refusal Value
  | .value v => .ok v
  | .bool b => .ok (.bool b)
  | .int n => .ok (.int n)
  | .derivedInt _ _ converted => ofConverted converted
  | .str s => .ok (.str s)
  | .derivedStr _ _ shown => ofShown shown
  | .list items =>
    if room = 0 then .error .exhausted else ofObjects (room - 1) items >>= ofWalk none
  | .tuple items =>
    if room = 0 then .error .exhausted else ofObjects (room - 1) items >>= ofWalk none
  | .derivedItems _ items ending =>
    if room = 0 then .error .exhausted else ofObjects (room - 1) items >>= ofWalk ending
  | .other typeName => .error (.foreign typeName)

/-- The values that several objects stand for. -/
def ofObjects (room : Nat) : List Object → Except Refusal (List Value)
  | [] => .ok []
  | o :: os => do
    let v ← ofObject room o
    let vs ← ofObjects room os
    return v :: vs

end

mutual

/-- A value as an object, where tuples may be nested `room` deep. -/
def toObject (room : Nat) : Value → Option Object
  | .int n => some (.int n)
  | .str s => some (.str s)
  | .bool b => some (.bool b)
  | .tuple items => if room = 0 then none else (toObjects (room - 1) items).map .tuple

/-- Values as objects. -/
def toObjects (room : Nat) : List Value → Option (List Object)
  | [] => some []
  | v :: vs => do
    let o ← toObject room v
    let os ← toObjects room vs
    return o :: os

end

end Value

end Scriptlet
