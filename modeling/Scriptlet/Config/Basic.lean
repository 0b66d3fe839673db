import Scriptlet.Native.Standard
import Scriptlet.Text.Upper
import Scriptlet.Value.Datum

/-!
# Settings

`Config` holds the settings of an interpreter, all of them valid: `ofSettings` checks their ranges,
and `ofDatum` reads them from plain data, whose keys and types it checks first.
-/

namespace Scriptlet

/-- How much is logged. -/
inductive LogLevel where
  | debug
  | info
  | warning
  | error
  | critical
  deriving DecidableEq, Inhabited, Repr

namespace LogLevel

/-- The name of a level. -/
def name : LogLevel → String
  | .debug => "DEBUG"
  | .info => "INFO"
  | .warning => "WARNING"
  | .error => "ERROR"
  | .critical => "CRITICAL"

/-- How severe a record of a level is. -/
def severity : LogLevel → Nat
  | .debug => 10
  | .info => 20
  | .warning => 30
  | .error => 40
  | .critical => 50

/-- All levels, from the most to the least that is logged. -/
def all : List LogLevel := [.debug, .info, .warning, .error, .critical]

/-- The level of a name. -/
def ofName? (s : String) : Option LogLevel := all.find? (·.name == s)

end LogLevel

/-- Settings that can be used. -/
structure Config where
  modules : List String
  maxDepth : Nat
  logLevel : LogLevel
  modules_standard : Standard.unknown modules = []
  maxDepth_pos : 1 ≤ maxDepth
  deriving DecidableEq

namespace Config

/-- The settings that hold where none are made. -/
def standard : Config :=
  ⟨Standard.names, 256, .warning, Standard.unknown_names, Nat.succ_le_succ (Nat.zero_le 255)⟩

instance : Inhabited Config := ⟨standard⟩

/-- Why settings cannot be used. -/
inductive Problem where
  | notAMapping (typeName : String)
  | unknownKeys (keys : List String)
  | modulesNotNames
  | depthNotAnInteger (shown : String)
  | levelNotAText (shown : String)
  | unknownModules (names : List String)
  | depthNotPositive (shown : String)
  | unknownLevel (name : String)
  | missingFile (path : String)
  | malformedFile (path text : String)
  deriving DecidableEq, Inhabited, Repr

/-- The message of a problem. -/
def Problem.message : Problem → String
  | .notAMapping typeName => "expected mapping at root, got " ++ typeName
  | .unknownKeys keys => "unknown config key(s): " ++ ", ".intercalate keys
  | .modulesNotNames => "modules must be a list of module names"
  | .depthNotAnInteger shown => "max_depth must be an integer, got " ++ shown
  | .levelNotAText shown => "log_level must be a string, got " ++ shown
  | .unknownModules names =>
    "unknown module(s) " ++ ", ".intercalate names ++ "; available: " ++
      ", ".intercalate Standard.names
  | .depthNotPositive shown => "max_depth must be positive, got " ++ shown
  | .unknownLevel name =>
    "log_level must be one of " ++ ", ".intercalate (LogLevel.all.map (·.name)) ++ ", got " ++ name
  | .missingFile path => "config file not found: " ++ path
  | .malformedFile path text => "YAML parse error in " ++ path ++ ": " ++ text

/-- What keeps settings from being read: a problem with them, two keys whose types have no common order,
a number too long to be shown, a file that is no text, or an exception of the class `kind` that the reader
of documents let escape. -/
inductive Obstacle where
  | problem (p : Problem)
  | mixedKeys (later earlier : String)
  | longNumber
  | undecodable
  | raised (kind text : String)
  deriving DecidableEq, Inhabited, Repr

/-! ## Ranges -/

/-- Settings that have the right types. -/
structure Settings where
  modules : List String := standard.modules
  maxDepth : Int := standard.maxDepth
  logLevel : String := standard.logLevel.name
  deriving DecidableEq, Inhabited, Repr

/-- The first problem with settings counts: modules, then the depth, then the level. -/
def ofSettings (s : Settings) : Except Obstacle Config :=
  if hm : Standard.unknown s.modules = [] then
    if hd : 1 ≤ s.maxDepth.toNat then
      match LogLevel.ofName? (Text.upper s.logLevel) with
      | some level => .ok ⟨s.modules, s.maxDepth.toNat, level, hm, hd⟩
      | none => .error (.problem (.unknownLevel (Text.upper s.logLevel)))
    else
      match Decimal.ofInt? s.maxDepth with
      | some shown => .error (.problem (.depthNotPositive shown))
      | none => .error .longNumber
  else .error (.problem (.unknownModules (Standard.unknown s.modules)))

/-! ## Keys and types -/

/-- The keys that settings may have. -/
def knownKeys : List String := ["modules", "max_depth", "log_level"]

/-- Is a key that of a setting? -/
def isKnown : Datum → Bool
  | .str s => s ∈ knownKeys
  | _ => false

/-- Does one key come before another or equal it? Texts are ordered by code points and numbers by
value; other keys have no order. -/
def keyLe? (a b : Datum) : Option Bool :=
  match a, b with
  | .str s, .str t => some (decide (s ≤ t))
  | a, b =>
    match a.quantity?, b.quantity? with
    | some q, some r => some (!r.less q)
    | _, _ => none

/-- The first two neighbours that have no order, the later one first. -/
def clash? : List Datum → Option (Datum × Datum)
  | a :: b :: keys => if (keyLe? a b).isSome then clash? (b :: keys) else some (b, a)
  | _ => none

/-- Keys that have an order, in order. -/
def sortKeys (keys : List Datum) : List Datum := keys.mergeSort fun a b => (keyLe? a b).getD true

/-- How a key is shown. -/
def keyText? : Datum → Option String
  | .str s => some s
  | other => other.show?

/-- Refuses data for a problem that shows a text, if the text can be shown. -/
def refuse {α : Type} (shown : Option String) (problem : String → Problem) : Except Obstacle α :=
  match shown with
  | some s => .error (.problem (problem s))
  | none => .error .longNumber

/-- Accepts known keys only. -/
def checkKeys (keys : List Datum) : Except Obstacle Unit :=
  match keys.filter (!isKnown ·) with
  | [] => .ok ()
  | extra =>
    match clash? extra with
    | some (later, earlier) => .error (.mixedKeys later.typeName earlier.typeName)
    | none =>
      match (sortKeys extra).mapM keyText? with
      | some texts => .error (.problem (.unknownKeys texts))
      | none => .error .longNumber

/-- The texts of a list, if all of its items are texts. -/
def texts? : List Datum → Option (List String)
  | [] => some []
  | .str s :: ds => (texts? ds).map (s :: ·)
  | _ :: _ => none

/-- Takes the modules from a field, if it is there. -/
def takeModules (field : Option Datum) (s : Settings) : Except Obstacle Settings :=
  match field with
  | none => .ok s
  | some (.list items) =>
    match texts? items with
    | some modules => .ok { s with modules }
    | none => .error (.problem .modulesNotNames)
  | some _ => .error (.problem .modulesNotNames)

/-- Takes the depth from a field, if it is there. -/
def takeDepth (field : Option Datum) (s : Settings) : Except Obstacle Settings :=
  match field with
  | none => .ok s
  | some (.int maxDepth) => .ok { s with maxDepth }
  | some other => refuse other.show? .depthNotAnInteger

/-- Takes the level from a field, if it is there. -/
def takeLevel (field : Option Datum) (s : Settings) : Except Obstacle Settings :=
  match field with
  | none => .ok s
  | some (.str logLevel) => .ok { s with logLevel }
  | some other => refuse other.show? .levelNotAText

/-- The value at a key of a mapping. -/
def field? (name : String) : List Datum → List Datum → Option Datum
  | .str s :: keys, v :: values => if s = name then some v else field? name keys values
  | _ :: keys, _ :: values => field? name keys values
  | _, _ => none

/-- Reads settings from plain data. -/
def ofDatum : Datum → Except Obstacle Config
  | .mapping keys values => do
    checkKeys keys
    let s ← takeModules (field? "modules" keys values) {}
    let s ← takeDepth (field? "max_depth" keys values) s
    let s ← takeLevel (field? "log_level" keys values) s
    ofSettings s
  | other => .error (.problem (.notAMapping other.typeName))

/-! ## Use -/

/-- The standard registry with the chosen modules only. -/
def registry {σ : Type} (c : Config) (host : Host) (view : View σ SignalTable) : Registry σ :=
  Standard.chosen host view c.modules

/-- Settings as a document. -/
def text (c : Config) : String :=
  (if c.modules.isEmpty then "modules: []\n"
    else "modules:\n" ++ String.join (c.modules.map fun m => "- " ++ m ++ "\n")) ++
  "max_depth: " ++ Decimal.ofInt c.maxDepth ++ "\n" ++
  "log_level: " ++ c.logLevel.name ++ "\n"

end Config

end Scriptlet
