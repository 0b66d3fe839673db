import Scriptlet.Data.Assoc
import Scriptlet.Native.Basic

/-!
# Environments

An environment is a chain of scopes. Names are looked up from the innermost scope outward and bound
in the innermost one, so an inner binding hides an outer one and never changes it.
-/

namespace Scriptlet

/-- What a name stands for. -/
inductive Binding (σ : Type) where
  | value (v : Value)
  | native (n : Native σ)

/-- The bindings of one scope. -/
abbrev Scope (σ : Type) := Assoc (Binding σ)

/-- The innermost scope, and the scopes around it from the inside out. -/
structure Environment (σ : Type) where
  inner : Scope σ := []
  outer : List (Scope σ) := []

namespace Environment

variable {σ : Type}

/-- The first binding of a name in a list of scopes. -/
def lookupIn (name : String) : List (Scope σ) → Option (Binding σ)
  | [] => none
  | scope :: scopes =>
    match scope.get? name with
    | some b => some b
    | none => lookupIn name scopes

/-- What a name stands for. -/
def lookup (e : Environment σ) (name : String) : Option (Binding σ) :=
  lookupIn name (e.inner :: e.outer)

/-- The value that a name stands for. -/
def value? (e : Environment σ) (name : String) : Option Value :=
  match e.lookup name with
  | some (.value v) => some v
  | _ => none

/-- Binds a name in the innermost scope. -/
def bind (e : Environment σ) (name : String) (b : Binding σ) : Environment σ :=
  { e with inner := e.inner.put name b }

/-- How many scopes are around the innermost one. -/
def depth (e : Environment σ) : Nat := e.outer.length

/-- Opens a scope. -/
def push (e : Environment σ) : Environment σ := ⟨[], e.inner :: e.outer⟩

/-- Closes the innermost scope; the outermost one stays. -/
def pop (e : Environment σ) : Environment σ :=
  match e.outer with
  | [] => e
  | scope :: scopes => ⟨scope, scopes⟩

/-- One scope with the given values. -/
def ofValues (values : List (String × Value)) : Environment σ :=
  values.foldl (fun e p => e.bind p.1 (.value p.2)) {}

@[simp] theorem pop_push (e : Environment σ) : e.push.pop = e := rfl

@[simp] theorem depth_push (e : Environment σ) : e.push.depth = e.depth + 1 := rfl

@[simp] theorem depth_bind (e : Environment σ) (name : String) (b : Binding σ) :
    (e.bind name b).depth = e.depth := rfl

end Environment

end Scriptlet
