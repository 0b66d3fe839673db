import Scriptlet.Syntax.Reader
import Scriptlet.Token.Scanner

/-!
# Programs from tokens and from source text

`Program.read` takes the tokens up to the first end of input. `ofTokens` asks for a list that ends
with one, and `ofSource` scans a source text, whose tokens always do. How deep a program may be nested
is up to the host: the functions named `Within` take the limit, the others use `Reader.nestingLimit`.
-/

namespace Scriptlet.Program

/-- The program of a list of tokens, up to its first end of input. -/
def read (limit : Nat) (tokens : List Token) : Except Fault Program :=
  match tokens with
  | [] => .ok ⟨none, []⟩
  | first :: _ =>
    match (Reader.initial first.span).run limit tokens with
    | .error fault => .error fault
    | .ok r => .ok ⟨some ⟨first.span.start, r.last.stop⟩, r.done.reverse⟩

/-- Why a list of tokens is no program. -/
inductive ReadError where
  | unended
  | failure (f : Failure)

/-- The message for a list of tokens that does not end with the end of input. -/
def unendedMessage : String := "token stream must end with an EOF token"

/-- Does a list of tokens end with the end of input? -/
def isEnded (tokens : List Token) : Bool :=
  match tokens.getLast? with
  | some t => t.kind = .eof
  | none => false

/-- The program of a list of tokens that ends with the end of input, nested within `limit`. Failures
quote the given lines of source text, if there are any. -/
def ofTokensWithin (limit : Nat) (lines : List String) (tokens : List Token) :
    Except ReadError Program :=
  if isEnded tokens then
    match read limit tokens with
    | .ok p => .ok p
    | .error fault => .error (.failure (fault.quote lines))
  else .error .unended

/-- The program of a list of tokens that ends with the end of input. -/
def ofTokens (lines : List String) (tokens : List Token) : Except ReadError Program :=
  ofTokensWithin Reader.nestingLimit lines tokens

/-- The program that a source text writes, nested within `limit`. -/
def ofSourceWithin (limit : Nat) (source : String) : Except Failure Program :=
  match Token.ofSource source with
  | .error failure => .error failure
  | .ok tokens =>
    match read limit tokens with
    | .ok p => .ok p
    | .error fault => .error (fault.quote (Text.lines source))

/-- The program that a source text writes. -/
def ofSource (source : String) : Except Failure Program :=
  ofSourceWithin Reader.nestingLimit source

end Scriptlet.Program
