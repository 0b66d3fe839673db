import Scriptlet.Native.Signal
import Scriptlet.Native.System

/-!
# The standard modules

`Standard.install` puts standard modules into a registry by their names. The order of the names does
not matter.
-/

namespace Scriptlet.Standard

variable {σ : Type}

/-- The names of the standard modules. -/
def names : List String := [System.moduleName, Signal.moduleName]

/-- The names that no standard module has. -/
def unknown (chosen : List String) : List String := chosen.filter (· ∉ names)

theorem unknown_names : unknown names = [] := by decide

/-- The message for names that no standard module has. -/
def unknownMessage (others : List String) : String :=
  "unknown standard module(s): " ++ ", ".intercalate others ++ "; available: " ++
    ", ".intercalate names

/-- A registry with the chosen standard modules put into it. -/
def add (host : Host) (view : View σ SignalTable) (chosen : List String) (r : Registry σ) :
    Registry σ :=
  let withSystem :=
    if System.moduleName ∈ chosen then r.put System.moduleName (System.module host) else r
  if Signal.moduleName ∈ chosen then withSystem.put Signal.moduleName (Signal.module view)
  else withSystem

/-- The registry of the chosen standard modules. -/
def chosen (host : Host) (view : View σ SignalTable) (names : List String) : Registry σ :=
  add host view names .empty

/-- Puts modules into a registry; the error is the names that no standard module has. -/
def install (host : Host) (view : View σ SignalTable) (names : List String) (r : Registry σ) :
    Except (List String) (Registry σ) :=
  match unknown names with
  | [] => .ok (add host view names r)
  | others => .error others

/-- The registry of all standard modules. -/
def registry (host : Host) (view : View σ SignalTable) : Registry σ := chosen host view names

end Scriptlet.Standard
