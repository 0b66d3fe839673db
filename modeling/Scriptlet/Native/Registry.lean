import Scriptlet.Data.Assoc
import Scriptlet.Native.Basic
import Scriptlet.Syntax.Node

/-!
# Registries

A registry holds the native modules that programs can reach. A module is registered as a whole, and a
later registration of a name replaces the earlier one.
-/

namespace Scriptlet

/-- The native functions of a module by their symbols. -/
abbrev NativeModule (σ : Type) := Assoc (Native σ)

/-- Native modules by name. -/
abbrev Registry (σ : Type) := Assoc (NativeModule σ)

namespace Registry

variable {σ : Type}

/-- The registry without modules. -/
def empty : Registry σ := []

/-- The function at a path. -/
def find? (r : Registry σ) (module symbol : String) : Option (Native σ) :=
  (r.get? module).bind (·.get? symbol)

/-- The entries of a module, if all of them are native functions, else the first other symbol. -/
def entries : List (String × Option (Native σ)) → Except String (NativeModule σ)
  | [] => .ok []
  | (symbol, none) :: _ => .error symbol
  | (symbol, some native) :: rest =>
    match entries rest with
    | .ok table => .ok ((symbol, native) :: table)
    | .error s => .error s

/-- Registers a module. If an entry is no native function, the error is its symbol. -/
def register (r : Registry σ) (name : String) (symbols : List (String × Option (Native σ))) :
    Except String (Registry σ) :=
  match entries symbols with
  | .ok table => .ok (r.put name table)
  | .error symbol => .error symbol

/-- The message for an entry that is no native function. -/
def entryMessage (name symbol : String) : String :=
  Node.pathText name symbol ++ " must be a NativeCallable"

/-- Names in the order of their code points. -/
def sorted (names : List String) : List String := names.mergeSort fun a b => decide (a ≤ b)

/-- Is there a module of this name? -/
def has (r : Registry σ) (module : String) : Bool := r.keys.contains module

/-- The names of the modules, sorted. -/
def modules (r : Registry σ) : List String := sorted r.keys

/-- The symbols of a module, sorted. -/
def symbolsOf (table : NativeModule σ) : List String := sorted table.keys

/-- The paths of all functions: module by module, each module's symbols sorted. -/
def symbols (r : Registry σ) : List String :=
  r.modules.flatMap fun module =>
    (symbolsOf ((r.get? module).getD [])).map (Node.pathText module)

end Registry

end Scriptlet
