import Scriptlet.Text.Quoted
import Scriptlet.Value.Floating

/-!
# Plain data

`Datum` is the data that a document of settings holds, and `Datum.show?` its text in messages.
-/

namespace Scriptlet

/-- Plain data. Of an object of any other type there is the name of the type and the text in messages. -/
inductive Datum where
  | null
  | bool (b : Bool)
  | int (n : Int)
  | float (f : Floating)
  | str (s : String)
  | list (items : List Datum)
  | mapping (keys values : List Datum)
  | other (typeName text : String)
  deriving Inhabited

namespace Datum

/-- The name of a datum's type in messages. -/
def typeName : Datum → String
  | .null => "NoneType"
  | .bool _ => "bool"
  | .int _ => "int"
  | .float _ => "float"
  | .str _ => "str"
  | .list _ => "list"
  | .mapping _ _ => "dict"
  | .other typeName _ => typeName

/-- The quantity that a datum counts as, if it counts as one. -/
def quantity? : Datum → Option Quantity
  | .bool b => some (.finite (if b then 1 else 0))
  | .int n => some (.finite n)
  | .float f => some f.quantity
  | _ => none

mutual

/-- The text of a datum in messages; none if it holds a number too long to show. -/
def show? : Datum → Option String
  | .null => some "None"
  | .bool b => some (if b then "True" else "False")
  | .int n => Decimal.ofInt? n
  | .float f => some f.text
  | .str s => some (Text.quote s)
  | .list items => do
    return "[" ++ ", ".intercalate (← showAll? items) ++ "]"
  | .mapping keys values => do
    let ks ← showAll? keys
    let vs ← showAll? values
    return "\x7b" ++ ", ".intercalate (List.zipWith (fun k v => k ++ ": " ++ v) ks vs) ++ "\x7d"
  | .other _ text => some text

/-- The texts of several data. -/
def showAll? : List Datum → Option (List String)
  | [] => some []
  | d :: ds => do
    let s ← show? d
    let rest ← showAll? ds
    return s :: rest

end

end Datum

end Scriptlet
