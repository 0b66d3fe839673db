import Scriptlet.Config.Basic
import Scriptlet.Text.PathText
import Scriptlet.Yaml.Tree

/-!
# Settings from files

Settings are read from the file that is named, or else from the file that a variable of the
environment names, or else they are the defaults. An empty document gives the defaults too. What a text
stands for is left to a reader of documents.
-/

namespace Scriptlet

/-- What a file holds. -/
inductive FileContent where
  | text (s : String)
  | undecodable
  deriving DecidableEq, Inhabited, Repr

/-- The files that can be read, by path. -/
abbrev Files := String → Option FileContent

namespace Config

/-- The variable of the environment that names a file. -/
def variableName : String := "APEXLANG_CONFIG"

/-- Reads settings from the text of the file at a path. -/
def ofText (reader : Yaml.Reader) (path text : String) : Except Obstacle Config :=
  match reader text with
  | .error (.malformed message) => .error (.problem (.malformedFile (PathText.tidy path) message))
  | .error (.raised kind message) => .error (.raised kind message)
  | .ok .null => .ok standard
  | .ok d => ofDatum d

/-- Reads settings from the file at a path. -/
def load (reader : Yaml.Reader) (files : Files) (path : String) : Except Obstacle Config :=
  match files path with
  | none => .error (.problem (.missingFile (PathText.tidy path)))
  | some .undecodable => .error .undecodable
  | some (.text s) => ofText reader path s

/-- Reads settings from the file that the environment names, if it names one. -/
def ofEnvironment (reader : Yaml.Reader) (files : Files) (env : Assoc String) :
    Except Obstacle Config :=
  match env.get? variableName with
  | none => .ok standard
  | some path => if path = "" then .ok standard else load reader files path

end Config

end Scriptlet
