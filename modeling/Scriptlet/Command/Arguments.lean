import Scriptlet.Text.Digit

/-!
# Command line arguments

Options come before the action and the argument of the action after it. A long option may be cut
short as long as it stays unique, a value may follow its option after `=`, short flags may be
joined, and `--` ends the options.
-/

namespace Scriptlet.Command

/-- What to do. -/
inductive Action where
  | run (file : String)
  | eval (source : String)
  | tokens (file : String)
  | ast (file : String)
  | dot (file : String)
  | modules
  deriving DecidableEq, Inhabited, Repr

/-- A command line that was understood. -/
structure Invocation where
  config : Option String
  verbose : Bool
  action : Action
  deriving DecidableEq, Inhabited, Repr

/-- Why there is nothing to do: help was asked for, or the command line was not understood. -/
inductive Usage where
  | help
  | misuse
  deriving DecidableEq, Inhabited, Repr

/-- The exit status that goes with the text on usage. -/
def Usage.status : Usage → Nat
  | .help => 0
  | .misuse => 2

/-! ## Options -/

/-- The options that there are. -/
inductive Flag where
  | help
  | verbose
  | config
  deriving DecidableEq, Inhabited, Repr

/-- The spellings of options. -/
abbrev Spellings := List (String × Flag)

/-- The options before an action. -/
def outerSpellings : Spellings :=
  [("-h", .help), ("--help", .help), ("--config", .config), ("-v", .verbose),
   ("--verbose", .verbose)]

/-- The options after an action. -/
def innerSpellings : Spellings := [("-h", .help), ("--help", .help)]

/-- What an argument looks like: no option, an option with the text joined to it, directly or after
`=`, or an option that does not exist. -/
inductive Shape where
  | plain
  | option (flag : Flag) (long : Bool) (joined : Option (List Char))
  | unknown
  deriving DecidableEq, Inhabited, Repr

/-- The text before the first `=` and, if there is one, the text after it. -/
def splitEquals (cs : List Char) : List Char × Option (List Char) :=
  match cs.dropWhile (· != '=') with
  | [] => (cs, none)
  | _ :: value => (cs.takeWhile (· != '='), some value)

/-- Is this a run of digits, with or without a line break at its end? -/
def isDigitRun (cs : List Char) : Bool :=
  let digits := if cs.getLast? = some '\n' then cs.dropLast else cs
  !digits.isEmpty && digits.all Text.isPlaceDigit

/-- Is this a negative number, whole or with decimal places? -/
def isNegativeNumber (cs : List Char) : Bool :=
  match cs with
  | '-' :: number =>
    isDigitRun number ||
      match number.dropWhile Text.isPlaceDigit with
      | '.' :: places => isDigitRun places
      | _ => false
  | _ => false

/-- The options that an argument may mean, by their full names, by short ones, or by the beginnings
of long ones. -/
def candidates (spellings : Spellings) (cs : List Char) : List Shape :=
  match cs with
  | '-' :: '-' :: _ =>
    let (start, value) := splitEquals cs
    spellings.filterMap fun (name, flag) =>
      if start.isPrefixOf name.toList then some (.option flag true value) else none
  | '-' :: c :: joined =>
    spellings.filterMap fun (name, flag) =>
      if name.toList = ['-', c] then some (.option flag false (some joined)) else none
  | _ => []

/-- What an argument looks like; an error if it may mean several options. -/
def shape (spellings : Spellings) (arg : String) : Except Usage Shape :=
  let cs := arg.toList
  let named? (name : List Char) : Option Flag := spellings.lookup (String.ofList name)
  let isLong (name : List Char) : Bool := name.take 2 == ['-', '-']
  match cs with
  | '-' :: _ :: _ =>
    match named? cs with
    | some flag => .ok (.option flag (isLong cs) none)
    | none =>
      let (name, value) := splitEquals cs
      match value.bind fun _ => named? name with
      | some flag => .ok (.option flag (isLong name) value)
      | none =>
        match candidates spellings cs with
        | [found] => .ok found
        | _ :: _ :: _ => .error .misuse
        | [] => .ok (if isNegativeNumber cs || cs.contains ' ' then .plain else .unknown)
  | _ => .ok .plain

/-- The flags that an option without a value sets. Each character of a text that is joined to a short
flag is one more short flag; a long one takes no text. -/
def flagsOf (spellings : Spellings) (flag : Flag) (long : Bool) (joined : Option (List Char)) :
    Except Usage (List Flag) :=
  match joined with
  | none => .ok [flag]
  | some text =>
    if long || text.isEmpty then .error .misuse
    else
      match text.mapM fun c => spellings.lookup (String.ofList ['-', c]) with
      | some flags => .ok (flag :: flags)
      | none => .error .misuse

/-! ## After the action -/

/-- The argument of an action, if it takes one: the one that was found, and whether something is left
over. -/
def innerArguments (takes : Bool) (found : Option String) (surplus : Bool) :
    List String → Except Usage (Option String × Bool)
  | [] => if takes && found.isNone then .error .misuse else .ok (found, surplus)
  | "--" :: rest =>
    match takes, found, rest with
    | true, none, value :: more => .ok (some value, surplus || !more.isEmpty)
    | true, none, [] => .error .misuse
    | true, some value, _ => .ok (some value, surplus || !rest.isEmpty)
    | false, _, _ => .ok (none, true)
  | arg :: rest => do
    match ← shape innerSpellings arg with
    | .plain =>
      if takes && found.isNone then innerArguments takes (some arg) surplus rest
      else innerArguments takes found true rest
    | .unknown => innerArguments takes found true rest
    | .option flag long joined =>
      let _ ← flagsOf innerSpellings flag long joined
      .error .help

/-- The action of a name and its arguments, and whether something is left over. -/
def action (name : String) (args : List String) : Except Usage (Action × Bool) :=
  let taking (make : String → Action) : Except Usage (Action × Bool) := do
    let (value, surplus) ← innerArguments true none false args
    return (make (value.getD ""), surplus)
  match name with
  | "run" => taking .run
  | "eval" => taking .eval
  | "tokens" => taking .tokens
  | "ast" => taking .ast
  | "dot" => taking .dot
  | "modules" => do
    let (_, surplus) ← innerArguments false none false args
    return (.modules, surplus)
  | _ => .error .misuse

/-! ## The whole line -/

/-- The file that a joined value names; the mark that ends the options names none. -/
def namedFile (value : List Char) : Option String :=
  if value = ['-', '-'] then none else some (String.ofList value)

/-- Reads options up to the action, and then the action. -/
def outerArguments (config : Option String) (verbose surplus : Bool) :
    List String → Except Usage Invocation
  | [] => .error .misuse
  | "--" :: _ => .error .misuse
  | arg :: rest => do
    match ← shape outerSpellings arg with
    | .plain =>
      let (found, more) ← action arg rest
      if surplus || more then .error .misuse else .ok ⟨config, verbose, found⟩
    | .unknown => outerArguments config verbose true rest
    | .option .config _ (some value) =>
      outerArguments (namedFile value) verbose surplus rest
    | .option .config _ none =>
      match rest with
      | [] => .error .misuse
      | value :: others =>
        if value ≠ "--" && (← shape outerSpellings value) = .plain then
          outerArguments (some value) verbose surplus others
        else .error .misuse
    | .option flag long joined =>
      let flags ← flagsOf outerSpellings flag long joined
      if .help ∈ flags then .error .help else outerArguments config true surplus rest

/-- Understands a command line. An argument that may mean several options is refused before any
option counts. -/
def ofArguments (args : List String) : Except Usage Invocation := do
  let _ ← (args.takeWhile (· ≠ "--")).mapM (shape outerSpellings)
  outerArguments none false false args

end Scriptlet.Command
