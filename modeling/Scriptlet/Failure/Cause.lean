import Scriptlet.Failure.Expected
import Scriptlet.Text.Decimal

/-!
# Causes of failure

Everything that can go wrong with a program, from its characters to the host functions it calls, is a
`Cause`; host code may add causes of its own. The wording of messages, their codes and hints, and the
attributes by which a host can tell failures apart are functions of the cause.
-/

namespace Scriptlet

/-- The base in which a number literal is written. -/
inductive Radix where
  | decimal
  | hexadecimal
  | binary
  deriving DecidableEq, Inhabited, Repr

/-- The stage of a run to which a cause belongs, or the name of a class that the host made up. -/
inductive Cause.Family where
  | lexical
  | syntactic
  | resolution
  | evaluation
  | dispatch
  | argument
  | resource
  | other (name : String)
  deriving DecidableEq, Inhabited, Repr

/-- A fact about a failure that a host can branch on. -/
inductive Cause.Attribute where
  | text (s : String)
  | number (n : Nat)
  | absent
  deriving DecidableEq, Inhabited, Repr

/-- Why a program failed. The last cause is for failures that host code makes up: it says all of itself. -/
inductive Cause where
  | unexpectedCharacter (c : Char)
  | unterminatedString
  | unterminatedComment
  | invalidEscape (sequence : String)
  | invalidNumber (radix : Radix) (text : String)
  | unexpectedToken (expected : Expected) (found : String)
  | unexpectedEnd (expected : Expected)
  | invalidCallee
  | nestingTooDeep
  | undefinedName (name : String)
  | operandMismatch (operator : String) (expected : Operands) (found : List Value.Kind)
  | divisionByZero (operator : String)
  | indexOutOfRange (index : String) (length : Nat)
  | notCallable (name : String) (kind : Value.Kind)
  | notAValue (name function : String)
  | unknownModule (module symbol : String)
  | unknownSymbol (module symbol : String)
  | wrongArity (function : String) (expected actual : Nat)
  | missingArgument (function : String) (index : Nat) (expected : Value.Kind)
  | wrongArgument (function : String) (index : Nat) (expected actual : Value.Kind)
  | nativeFailure (function detail : String) (origin : Option String)
  | lockPoisoned (resource : String)
  | depthExceeded (limit : Nat)
  | custom (family : Cause.Family) (code message : String) (hints : List String)
      (attributes : List (String × Cause.Attribute))
  deriving DecidableEq, Inhabited

namespace Cause

/-- The family of a cause. -/
def family : Cause → Family
  | .unexpectedCharacter _ | .unterminatedString | .unterminatedComment | .invalidEscape _
  | .invalidNumber _ _ => .lexical
  | .unexpectedToken _ _ | .unexpectedEnd _ | .invalidCallee | .nestingTooDeep => .syntactic
  | .undefinedName _ => .resolution
  | .operandMismatch _ _ _ | .divisionByZero _ | .indexOutOfRange _ _ | .notCallable _ _
  | .notAValue _ _ => .evaluation
  | .unknownModule _ _ | .unknownSymbol _ _ => .dispatch
  | .wrongArity _ _ _ | .missingArgument _ _ _ | .wrongArgument _ _ _ _ => .argument
  | .nativeFailure _ _ _ | .lockPoisoned _ | .depthExceeded _ => .resource
  | .custom family _ _ _ _ => family

/-- The code of a cause; its first digit tells the stage, unless host code made it up. -/
def code : Cause → String
  | .unexpectedCharacter _ => "E001"
  | .unterminatedString => "E002"
  | .unterminatedComment => "E004"
  | .invalidEscape _ => "E005"
  | .invalidNumber .decimal _ => "E006"
  | .invalidNumber .hexadecimal _ => "E007"
  | .invalidNumber .binary _ => "E008"
  | .unexpectedToken _ _ => "E101"
  | .unexpectedEnd _ => "E102"
  | .invalidCallee => "E104"
  | .nestingTooDeep => "E105"
  | .undefinedName _ => "E201"
  | .operandMismatch _ _ _ => "E301"
  | .divisionByZero _ => "E302"
  | .indexOutOfRange _ _ => "E303"
  | .notCallable _ _ => "E304"
  | .notAValue _ _ => "E305"
  | .unknownModule _ _ => "E401"
  | .unknownSymbol _ _ => "E402"
  | .wrongArity _ _ _ => "E403"
  | .missingArgument _ _ _ => "E403"
  | .wrongArgument _ _ _ _ => "E404"
  | .nativeFailure _ _ _ => "E501"
  | .lockPoisoned _ => "E502"
  | .depthExceeded _ => "E503"
  | .custom _ code _ _ _ => code

/-- The kinds that were found, as one phrase. -/
def foundText (kinds : List Value.Kind) : String := " and ".intercalate (kinds.map (·.name))

/-- The message of a cause. -/
def message : Cause → String
  | .unexpectedCharacter c => "unexpected character '" ++ String.singleton c ++ "'"
  | .unterminatedString => "unterminated string literal"
  | .unterminatedComment => "unterminated multi-line comment (expected closing */)"
  | .invalidEscape sequence => "invalid escape sequence '\\" ++ sequence ++ "'"
  | .invalidNumber .decimal text => "invalid number literal '" ++ text ++ "'"
  | .invalidNumber .hexadecimal text => "invalid hexadecimal literal '" ++ text ++ "'"
  | .invalidNumber .binary text => "invalid binary literal '" ++ text ++ "'"
  | .unexpectedToken expected found => "expected " ++ expected.text ++ ", found " ++ found
  | .unexpectedEnd expected => "unexpected end of input, expected " ++ expected.text
  | .invalidCallee => "only 'module::symbol' or a plain name can be called"
  | .nestingTooDeep => "expression nesting is too deep to parse"
  | .undefinedName name => "undefined identifier '" ++ name ++ "'"
  | .operandMismatch operator expected found =>
    "operator '" ++ operator ++ "' expects " ++ expected.text ++ ", found " ++ foundText found
  | .divisionByZero operator => (if operator = "%" then "modulo" else "division") ++ " by zero"
  | .indexOutOfRange index length =>
    "tuple index " ++ Decimal.abbreviate index ++ " out of range for tuple of length " ++
      toString length
  | .notCallable name kind =>
    "'" ++ name ++ "' is bound to a " ++ kind.name ++ " value and is not callable"
  | .notAValue name function =>
    "'" ++ name ++ "' names the native function " ++ function ++ " and cannot be used as a value"
  | .unknownModule module symbol =>
    "unknown native module '" ++ module ++ "' (calling '" ++ module ++ "::" ++ symbol ++ "')"
  | .unknownSymbol module symbol =>
    "native module '" ++ module ++ "' has no symbol '" ++ symbol ++ "'"
  | .wrongArity function expected actual =>
    function ++ " expects " ++ toString expected ++ " argument" ++
      (if expected = 1 then "" else "s") ++ ", received " ++ toString actual
  | .missingArgument function index expected =>
    function ++ " expects " ++ expected.phrase ++ " argument at position " ++
      toString (index + 1) ++ ", but none was given"
  | .wrongArgument function index expected actual =>
    function ++ " expects " ++ expected.phrase ++ " argument at position " ++
      toString (index + 1) ++ ", found " ++ actual.name
  | .nativeFailure function detail _ => function ++ " failed: " ++ detail
  | .lockPoisoned resource => resource ++ " lock poisoned"
  | .depthExceeded limit => "evaluation depth limit of " ++ toString limit ++ " exceeded"
  | .custom _ _ message _ _ => message

/-- Advice that goes with a cause. -/
def hints : Cause → List String
  | .unterminatedString => ["string literals must be closed with '\"' on the same line"]
  | .invalidEscape _ =>
    ["valid escape sequences: \\n, \\t, \\r, \\0, \\\\, \\\", \\', \\x##, \\u\x7b#...\x7d"]
  | .invalidNumber .decimal _ =>
    ["integer literals contain only digits, optionally separated by '_'"]
  | .invalidNumber .hexadecimal _ =>
    ["hex literals must contain at least one hex digit: 0x1, 0xFF, etc."]
  | .invalidNumber .binary _ =>
    ["binary literals must contain only 0 and 1: 0b101, 0b1111, etc."]
  | .notCallable name _ =>
    ["bring a native function into scope with 'use module::symbol as " ++ name ++ ";'"]
  | .notAValue name _ => ["call it instead: " ++ name ++ "(...)"]
  | .lockPoisoned _ =>
    ["an earlier operation failed while holding the lock; the registry state is unreliable"]
  | .custom _ _ _ hints _ => hints
  | _ => []

/-- A text, absent if it is empty. -/
def Attribute.ofPart (s : String) : Attribute := if s = "" then .absent else .text s

/-- The parts of a function's name before and after its first `::`. -/
def pathParts : List Char → List Char × List Char
  | [] => ([], [])
  | ':' :: ':' :: cs => ([], cs)
  | c :: cs => let (module, symbol) := pathParts cs; (c :: module, symbol)

/-- The attributes of a failure about the arguments of `function`. -/
def argumentAttributes (function : String) (index expected actual : Attribute) :
    List (String × Attribute) :=
  let (module, symbol) := pathParts function.toList
  [("module", .ofPart (String.ofList module)), ("symbol", .ofPart (String.ofList symbol)),
   ("function", .text function), ("index", index), ("expected", expected), ("actual", actual)]

/-- The attributes of a failure of evaluation. -/
def evaluationAttributes (operator expected actual : Attribute) : List (String × Attribute) :=
  [("operator", operator), ("expected", expected), ("actual", actual)]

/-- The attributes of a cause. -/
def attributes : Cause → List (String × Attribute)
  | .unexpectedCharacter _ | .unterminatedString | .unterminatedComment | .invalidEscape _
  | .invalidNumber _ _ => []
  | .unexpectedToken expected found => [("expected", .text expected.text), ("found", .text found)]
  | .unexpectedEnd expected =>
    [("expected", .text expected.text), ("found", .text "end of input")]
  | .invalidCallee => [("expected", .text "callable name"), ("found", .absent)]
  | .nestingTooDeep => [("expected", .absent), ("found", .absent)]
  | .undefinedName name => [("name", .text name)]
  | .operandMismatch operator expected found =>
    evaluationAttributes (.text operator) (.text expected.text) (.text (foundText found))
  | .divisionByZero operator => evaluationAttributes (.text operator) .absent .absent
  | .indexOutOfRange index length =>
    evaluationAttributes (.text "[]")
      (.text (if length = 0 then "nothing" else "0.." ++ toString (length - 1)))
      (.text (Decimal.abbreviate index))
  | .notCallable _ kind =>
    evaluationAttributes (.text "call") (.text "native function") (.text kind.name)
  | .notAValue _ _ => evaluationAttributes .absent (.text "value") (.text "native function")
  | .unknownModule module symbol | .unknownSymbol module symbol =>
    [("module", .text module), ("symbol", .text symbol)]
  | .wrongArity function expected actual =>
    argumentAttributes function .absent (.text (toString expected)) (.text (toString actual))
  | .missingArgument function index expected =>
    argumentAttributes function (.number index) (.text expected.phrase) (.text "nothing")
  | .wrongArgument function index expected actual =>
    argumentAttributes function (.number index) (.text expected.phrase) (.text actual.name)
  | .nativeFailure function _ _ => [("resource", .text function)]
  | .lockPoisoned resource => [("resource", .text resource)]
  | .depthExceeded _ => [("resource", .text "evaluation depth")]
  | .custom _ _ _ _ attributes => attributes

end Cause

end Scriptlet
