import Scriptlet.Native.Registry

/-!
# Signals

A signal table counts events by name. A failure while the table is locked poisons it: until the poison
is cleared every operation fails and changes nothing. The native module `signal` works on a table
that is part of the host's state.
-/

namespace Scriptlet

/-- Named counters behind a lock. -/
structure SignalTable where
  counts : Assoc Nat := []
  poisoned : Bool := false
  deriving DecidableEq, Inhabited, Repr

namespace SignalTable

/-- How messages name a table. -/
def resourceName : String := "Signal registry"

/-- Works on the counters, unless the table is poisoned. -/
def locked {α : Type} (act : Assoc Nat → α × Assoc Nat) (t : SignalTable) :
    Except Cause α × SignalTable :=
  if t.poisoned then (.error (.lockPoisoned resourceName), t)
  else
    let (a, counts) := act t.counts
    (.ok a, { t with counts })

/-- The count of a name, zero if it is not tracked. -/
def countOf (counts : Assoc Nat) (name : String) : Nat := (counts.get? name).getD 0

/-- Starts a name at zero; was it new? -/
def register (name : String) : SignalTable → Except Cause Bool × SignalTable :=
  locked fun counts => ((counts.get? name).isNone, counts.put name 0)

/-- Counts an event; how many are there now? -/
def emit (name : String) : SignalTable → Except Cause Nat × SignalTable :=
  locked fun counts => (countOf counts name + 1, counts.put name (countOf counts name + 1))

/-- How many events are there? -/
def count (name : String) : SignalTable → Except Cause Nat × SignalTable :=
  locked fun counts => (countOf counts name, counts)

/-- How many names are tracked? -/
def tracked : SignalTable → Except Cause Nat × SignalTable :=
  locked fun counts => (counts.length, counts)

/-- Takes a tracked name back to zero; was it tracked? -/
def reset (name : String) : SignalTable → Except Cause Bool × SignalTable :=
  locked fun counts =>
    if (counts.get? name).isSome then (true, counts.put name 0) else (false, counts)

/-- All counters. -/
def snapshot : SignalTable → Except Cause (Assoc Nat) × SignalTable :=
  locked fun counts => (counts, counts)

/-- A failure while the table is locked. -/
def interrupt (t : SignalTable) : Except Cause Unit × SignalTable :=
  if t.poisoned then (.error (.lockPoisoned resourceName), t)
  else (.ok (), { t with poisoned := true })

/-- Makes a poisoned table usable again. -/
def clearPoison (t : SignalTable) : SignalTable := { t with poisoned := false }

end SignalTable

namespace Signal

variable {σ : Type}

/-- The name of the module. -/
def moduleName : String := "signal"

/-- What a call with checked arguments does to the table. -/
abbrev Act := SignalTable → Except Cause Value × SignalTable

/-- An operation whose result becomes a value. -/
def act {α : Type} (toValue : α → Value) (operation : SignalTable → Except Cause α × SignalTable) :
    Act := fun t =>
  let (result, t') := operation t
  (result.map toValue, t')

/-- A native function on the table that `view` shows. Arguments are checked before the table is
touched. -/
def native (view : View σ SignalTable) (symbol : String)
    (plan : String → List Value → Except Cause Act) : String × Native σ :=
  let function := Node.pathText moduleName symbol
  (symbol,
    { name := function
      run := fun args s =>
        match plan function args with
        | .error cause => (.failure (.ofCause cause), s)
        | .ok act =>
          let (result, table) := act (view.get s)
          (.ofResult result, view.set table s) })

/-- The plan of a call without arguments. -/
def plain (body : Act) (function : String) (args : List Value) : Except Cause Act := do
  Native.expectCount function 0 args
  return body

/-- The plan of a call with the name of a counter. -/
def named (body : String → Act) (function : String) (args : List Value) : Except Cause Act := do
  Native.expectCount function 1 args
  let name ← Native.expectText function 0 args
  return body name

/-- A number as a value. -/
def number (n : Nat) : Value := .int n

/-- The native module on the table that `view` shows. -/
def module (view : View σ SignalTable) : NativeModule σ :=
  [native view "register" (named fun name => act .bool (SignalTable.register name)),
   native view "emit" (named fun name => act number (SignalTable.emit name)),
   native view "count" (named fun name => act number (SignalTable.count name)),
   native view "tracked" (plain (act number SignalTable.tracked)),
   native view "reset" (named fun name => act .bool (SignalTable.reset name))]

end Signal

end Scriptlet
