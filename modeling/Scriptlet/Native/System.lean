import Scriptlet.Native.Registry
import Scriptlet.Text.PathText

/-!
# The system

`Host` is what a program can learn about the machine it runs on. The native module `os` reads it and
changes nothing.
-/

namespace Scriptlet

/-- The surroundings of a program. `workingDir` is an error text if the directory cannot be had. -/
structure Host where
  env : Assoc String := []
  argv : List String := ["apex"]
  tempDir : String := "/tmp"
  workingDir : Except String String := .ok "/"
  pid : Nat := 1
  pointerWidth : Nat := 64

namespace System

variable {σ : Type}

/-- The name of the module. -/
def moduleName : String := "os"

/-- A native function that reads the host. -/
def native (symbol doc : String) (body : String → List Value → Native.Answer) :
    String × Native σ :=
  let function := Node.pathText moduleName symbol
  (symbol, { name := function, run := fun args s => (body function args, s), doc })

/-- A function without arguments. -/
def plain (result : String → Native.Answer) (function : String) (args : List Value) :
    Native.Answer :=
  match Native.expectCount function 0 args with
  | .ok () => result function
  | .error cause => .failure (.ofCause cause)

/-- The kind of error of a host that does not give its working directory. -/
def errorKind : String := "OSError"

/-- The working directory. -/
def workingDir (host : Host) (function : String) : Native.Answer :=
  match host.workingDir with
  | .ok path => .value (.str path)
  | .error text =>
    .failure (.ofCause (.nativeFailure function ("failed to fetch current directory: " ++ text)
      (some errorKind)))

/-- The absolute path of the directory for temporary files. The working directory is asked for only if
the path is relative, and an error of the host then escapes. -/
def tempDir (host : Host) : Native.Answer :=
  if PathText.isRooted host.tempDir then .value (.str (PathText.absolute "/" host.tempDir))
  else
    match host.workingDir with
    | .ok base => .value (.str (PathText.absolute base host.tempDir))
    | .error text => .escaped errorKind text

/-- A variable of the environment: whether it is set, and its text. -/
def variableOf (host : Host) (name : String) : Value :=
  match host.env.get? name with
  | some text => .tuple [.bool true, .str text]
  | none => .tuple [.bool false, .str ""]

/-- The native module for a host. -/
def module (host : Host) : NativeModule σ :=
  [native "cwd" "" (plain (workingDir host)),
   native "temp_dir" "" (plain fun _ => tempDir host),
   native "env_var" "A missing variable is reported through the flag, not as an error."
    fun function args => .ofResult do
      Native.expectCount function 1 args
      let name ← Native.expectText function 0 args
      return variableOf host name,
   native "pointer_width" "" (plain fun _ => .value (.int host.pointerWidth)),
   native "pid" "" (plain fun _ => .value (.int host.pid)),
   native "args" "" (plain fun _ => .value (.tuple (host.argv.map .str)))]

end System

end Scriptlet
