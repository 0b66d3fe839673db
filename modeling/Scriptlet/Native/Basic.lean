import Scriptlet.Failure.Basic

/-!
# Native functions

A native function is host code that a program can call. It works on a state of the host's choosing,
`σ`, checks its own arguments, and may answer with something that is no value or break off: `settle`
turns an answer into a value or a failure, unless what host code raised cannot even be shown.
-/

namespace Scriptlet

namespace Native

/-- What host code gives back: a value, something that is no value, a failure of its own, or an
exception that it let escape. An answer is `unreadable` if it cannot be told what it is: to ask for the text
of the exception, or for the class of what was given back, raises another exception of the class `kind`. -/
inductive Answer where
  | value (v : Value)
  | foreign (typeName : String)
  | failure (f : Failure)
  | escaped (kind text : String)
  | unreadable (kind : String)
  deriving DecidableEq, Inhabited

/-- Why an answer gives no value: a failure, or an exception of the class `kind` on the way to one. -/
inductive Trouble where
  | failure (f : Failure)
  | exception (kind : String)
  deriving DecidableEq, Inhabited

/-- The answer of host code that ends in a value or a cause. -/
def Answer.ofResult : Except Cause Value → Answer
  | .ok v => .value v
  | .error cause => .failure (.ofCause cause)

/-- The outcome that an answer of a function stands for. -/
def Answer.settle (function : String) : Answer → Except Trouble Value
  | .value v => .ok v
  | .foreign typeName =>
    .error (.failure (.ofCause
      (.nativeFailure function ("returned " ++ typeName ++ " instead of a value") none)))
  | .failure f => .error (.failure f)
  | .escaped kind text =>
    .error (.failure (.ofCause (.nativeFailure function (kind ++ ": " ++ text) (some kind))))
  | .unreadable kind => .error (.exception kind)

end Native

/-- A host function: its path, what it does, and what it says about itself. -/
structure Native (σ : Type) where
  name : String
  run : List Value → σ → Native.Answer × σ
  doc : String := ""

namespace Native

variable {σ : Type}

/-- Calls a native function. -/
def invoke (n : Native σ) (args : List Value) (s : σ) : Except Trouble Value × σ :=
  let (answer, s') := n.run args s
  (answer.settle n.name, s')

/-! ## Arguments -/

/-- Accepts exactly `count` arguments. -/
def expectCount (function : String) (count : Nat) (args : List Value) : Except Cause Unit :=
  if args.length = count then .ok () else .error (.wrongArity function count args.length)

/-- The argument at `index`, which has to be of the given kind. -/
def expectKind (function : String) (kind : Value.Kind) (index : Nat) (args : List Value) :
    Except Cause Value :=
  match args[index]? with
  | none => .error (.missingArgument function index kind)
  | some v => if v.kind = kind then .ok v else .error (.wrongArgument function index kind v.kind)

/-- The text at `index`. -/
def expectText (function : String) (index : Nat) (args : List Value) : Except Cause String :=
  match expectKind function .string index args with
  | .error cause => .error cause
  | .ok (.str s) => .ok s
  | .ok v => .error (.wrongArgument function index .string v.kind)

end Native

/-- A part of a larger state. -/
structure View (σ α : Type) where
  get : σ → α
  set : α → σ → σ

namespace View

/-- The whole state. -/
def whole (σ : Type) : View σ σ := ⟨id, fun s _ => s⟩

end View

end Scriptlet
