import Scriptlet.Failure.Basic
import Scriptlet.Syntax.Node
import Scriptlet.Syntax.Operator
import Scriptlet.Token.Basic

/-!
# Reading programs

A `Reader` is a machine that takes one token at a time. What it has read but not finished is its
state: the blocks that are open, the brackets that are open inside the current statement, and the
operators that wait for an operand. So each token is looked at once, and a token that cannot come next
is refused at once.

`Reader.advance` is what one token does, `Reader.run` what a list of them does.
-/

namespace Scriptlet

namespace Reader

/-! ## Unfinished phrases -/

/-- An operator that waits for the operand on its right. -/
inductive Pending where
  | unary (place : Span) (operator : Symbol)
  | binary (left : Node) (operator : BinaryOperator)

namespace Pending

/-- How tightly an operator holds on to the operand on its right. -/
def strength : Pending → Nat
  | .unary _ _ => 6
  | .binary _ operator => operator.precedence

/-- The operator applied to its operand. -/
def close : Pending → Node → Node
  | .unary place operator, e => .unary (Span.between (some place) e.span) operator.text e
  | .binary left operator, e => .binary (Span.between left.span e.span) left operator.text e

/-- Does the operator stand before its only operand? -/
def isUnary : Pending → Bool
  | .unary _ _ => true
  | .binary _ _ => false

end Pending

/-- Gives an operand to the waiting operators that hold it at least as tightly as `bound`, innermost
first. -/
def reduce (bound : Nat) : List Pending → Node → List Pending × Node
  | [], e => ([], e)
  | w :: ws, e => if bound ≤ w.strength then reduce bound ws (w.close e) else (w :: ws, e)

/-- A bracket that is open, with what was read inside it, newest first. -/
inductive Bracket where
  | group (start : Span)
  | tuple (start : Span) (items : List Node)
  | call (callee : Node) (arguments : List Node)
  | index (object : Node)

/-- The statement that an expression will end. -/
inductive Head where
  | expression (start : Span)
  | binding (start : Span) (name : String)

namespace Head

/-- The first token of the statement. -/
def start : Head → Span
  | .expression start => start
  | .binding start _ => start

/-- The statement with its expression. -/
def close : Head → Node → Option Span → Node
  | .expression _, e, span => .expression span e
  | .binding _ name, e, span => .binding span name e

end Head

/-- An unfinished expression: the operators that wait in the innermost bracket, the open brackets
with the operators that wait around them, innermost first, and the statement around all of them. -/
structure Phrase where
  pending : List Pending
  brackets : List (Bracket × List Pending)
  head : Head

namespace Phrase

/-- How deep the brackets and prefix operators of a phrase are nested. -/
def levels (p : Phrase) : Nat :=
  p.pending.countP Pending.isUnary +
    p.brackets.foldr (fun b n => 1 + b.2.countP Pending.isUnary + n) 0

/-- The phrase inside one more bracket. -/
def enter (p : Phrase) (b : Bracket) : Phrase := ⟨[], (b, p.pending) :: p.brackets, p.head⟩

end Phrase

/-! ## States -/

/-- What the reader is in the middle of. -/
inductive Mode where
  | statement
  | leadingName (place : Span) (name : String)
  | letName (start : Span)
  | letEquals (start : Span) (name : String)
  | useModule (start : Span)
  | useColons (start : Span) (module : String)
  | useSymbol (start : Span) (module : String)
  | useTail (start : Span) (module symbol : String)
  | useAlias (start : Span) (module symbol : String)
  | useDone (start : Span) (module symbol newName : String)
  | operand (phrase : Phrase)
  | name (phrase : Phrase) (place : Span) (name : String)
  | pathSymbol (phrase : Phrase) (place : Span) (module : String)
  | pathCall (phrase : Phrase) (place : Span) (module symbol : String)
  | complete (phrase : Phrase) (e : Node)

/-- An open block: its brace, and the statements before it, newest first. -/
structure OpenBlock where
  start : Span
  before : List Node

end Reader

/-- A program that is being read: the last token taken, the statements of the innermost open block,
newest first, the open blocks, innermost first, and what comes next. -/
structure Reader where
  last : Span
  done : List Node
  blocks : List Reader.OpenBlock
  mode : Reader.Mode

namespace Reader

/-- How deep blocks, brackets and prefix operators may be nested. -/
def nestingLimit : Nat := 1000

/-- The reader before the first token. -/
def initial (first : Span) : Reader := ⟨first, [], [], .statement⟩

/-- Refuses a token where something else was expected. -/
def reject {α : Type} (t : Token) (expected : Expected) : Except Fault α :=
  match t.kind with
  | .eof => .error ⟨.unexpectedEnd expected, t.span, none⟩
  | _ => .error ⟨.unexpectedToken expected t.describe, t.span, some t.span.start.line⟩

/-- Goes on in another mode. -/
def goto (r : Reader) (mode : Mode) : Reader := { r with mode }

/-- Adds a whole statement. -/
def add (r : Reader) (s : Node) : Reader := { r with done := s :: r.done, mode := .statement }

/-- Goes one level deeper, unless that is one too many. -/
def deepen (limit : Nat) (t : Token) (levels : Nat) (r : Reader) : Except Fault Reader :=
  if levels ≤ limit then .ok r else .error ⟨.nestingTooDeep, t.span, none⟩

/-! ## What a token does -/

/-- An operand is due. A closing parenthesis is taken where a list may end. -/
def operand (limit : Nat) (r : Reader) (p : Phrase) (t : Token) : Except Fault Reader :=
  match t.kind with
  | .int n => .ok (r.goto (.complete p (.literal (some t.span) (.int n))))
  | .str s => .ok (r.goto (.complete p (.literal (some t.span) (.str s))))
  | .bool b => .ok (r.goto (.complete p (.literal (some t.span) (.bool b))))
  | .ident name => .ok (r.goto (.name p t.span name))
  | .symbol .openParen =>
    let inner := p.enter (.group t.span)
    deepen limit t (r.blocks.length + inner.levels) (r.goto (.operand inner))
  | .symbol .closeParen =>
    match p.pending, p.brackets with
    | [], (.group start, outer) :: rest =>
      .ok (r.goto (.complete ⟨outer, rest, p.head⟩
        (.tuple (Span.between (some start) (some t.span)) [])))
    | [], (.tuple start items, outer) :: rest =>
      .ok (r.goto (.complete ⟨outer, rest, p.head⟩
        (.tuple (Span.between (some start) (some t.span)) items.reverse)))
    | [], (.call callee arguments, outer) :: rest =>
      .ok (r.goto (.complete ⟨outer, rest, p.head⟩
        (.call (Span.between callee.span (some t.span)) callee arguments.reverse)))
    | _, _ => reject t .expression
  | .symbol s =>
    if s.isUnary then
      let inner : Phrase := { p with pending := .unary t.span s :: p.pending }
      deepen limit t (r.blocks.length + inner.levels) (r.goto (.operand inner))
    else reject t .expression
  | _ => reject t .expression

/-- A statement is due, or the end of what is open. -/
def statement (limit : Nat) (r : Reader) (t : Token) : Except Fault Reader :=
  match t.kind with
  | .symbol .semicolon => .ok (r.goto .statement)
  | .symbol .openBrace =>
    deepen limit t (r.blocks.length + 1)
      { r with done := [], blocks := ⟨t.span, r.done⟩ :: r.blocks, mode := .statement }
  | .symbol .closeBrace =>
    match r.blocks with
    | [] => reject t .expression
    | b :: bs =>
      let block := Node.block (Span.between (some b.start) (some t.span)) r.done.reverse
      .ok { r with done := block :: b.before, blocks := bs, mode := .statement }
  | .keyword .useWord => .ok (r.goto (.useModule t.span))
  | .keyword .letWord => .ok (r.goto (.letName t.span))
  | .ident name => .ok (r.goto (.leadingName t.span name))
  | .eof => if r.blocks.isEmpty then .ok (r.goto .statement) else reject t .closeBrace
  | _ => r.operand limit ⟨[], [], .expression t.span⟩ t

/-- The end of a statement is due: a semicolon, which belongs to it, or the end of what is open. -/
def terminate (limit : Nat) (r : Reader) (start : Span) (make : Option Span → Node) (t : Token) :
    Except Fault Reader :=
  match t.kind with
  | .symbol .semicolon => .ok (r.add (make (Span.between (some start) (some t.span))))
  | .symbol .closeBrace | .eof =>
    (r.add (make (Span.between (some start) (some r.last)))).statement limit t
  | _ => reject t .terminator

/-- The token after an expression that goes no further: it ends the innermost bracket or one of its
parts, or else the statement. -/
def settle (limit : Nat) (r : Reader) (p : Phrase) (e : Node) (t : Token) : Except Fault Reader :=
  match p.brackets with
  | [] => r.terminate limit p.head.start (p.head.close e) t
  | (.group start, outer) :: rest =>
    match t.kind with
    | .symbol .closeParen => .ok (r.goto (.complete ⟨outer, rest, p.head⟩ e))
    | .symbol .comma => .ok (r.goto (.operand ⟨[], (.tuple start [e], outer) :: rest, p.head⟩))
    | _ => reject t .tupleEnd
  | (.tuple start items, outer) :: rest =>
    match t.kind with
    | .symbol .closeParen =>
      .ok (r.goto (.complete ⟨outer, rest, p.head⟩
        (.tuple (Span.between (some start) (some t.span)) (e :: items).reverse)))
    | .symbol .comma =>
      .ok (r.goto (.operand ⟨[], (.tuple start (e :: items), outer) :: rest, p.head⟩))
    | _ => reject t .tupleEnd
  | (.call callee arguments, outer) :: rest =>
    match t.kind with
    | .symbol .closeParen =>
      .ok (r.goto (.complete ⟨outer, rest, p.head⟩
        (.call (Span.between callee.span (some t.span)) callee (e :: arguments).reverse)))
    | .symbol .comma =>
      .ok (r.goto (.operand ⟨[], (.call callee (e :: arguments), outer) :: rest, p.head⟩))
    | _ => reject t .argumentEnd
  | (.index object, outer) :: rest =>
    match t.kind with
    | .symbol .closeBracket =>
      .ok (r.goto (.complete ⟨outer, rest, p.head⟩
        (.index (Span.between object.span (some t.span)) object e)))
    | _ => reject t .closeBracket

/-- May the node be called? -/
def isCallable : Node → Bool
  | .name _ _ | .path _ _ _ => true
  | _ => false

/-- The token after an operand: a call or an index applies to the operand alone, a binary operator
takes all that holds on to the operand at least as tightly. -/
def complete (limit : Nat) (r : Reader) (p : Phrase) (e : Node) (t : Token) :
    Except Fault Reader :=
  let settled := r.settle limit p (reduce 0 p.pending e).2 t
  match t.kind with
  | .symbol .openParen =>
    if isCallable e then
      let inner := p.enter (.call e [])
      deepen limit t (r.blocks.length + inner.levels) (r.goto (.operand inner))
    else
      .error ⟨.invalidCallee, (Span.between e.span (some t.span)).getD t.span,
        some t.span.start.line⟩
  | .symbol .openBracket =>
    let inner := p.enter (.index e)
    deepen limit t (r.blocks.length + inner.levels) (r.goto (.operand inner))
  | .symbol s =>
    match s.binary? with
    | some operator =>
      let (waiting, left) := reduce operator.precedence p.pending e
      .ok (r.goto (.operand { p with pending := .binary left operator :: waiting }))
    | none => settled
  | _ => settled

/-- The token after a name: it may go on to a path. -/
def afterName (limit : Nat) (r : Reader) (p : Phrase) (place : Span) (name : String) (t : Token) :
    Except Fault Reader :=
  match t.kind with
  | .symbol .doubleColon => .ok (r.goto (.pathSymbol p place name))
  | _ => r.complete limit p (.name (some place) name) t

/-- What a token does in the mode that the reader is in. -/
def take (limit : Nat) (r : Reader) (t : Token) : Except Fault Reader :=
  match r.mode with
  | .statement => r.statement limit t
  | .leadingName place name =>
    match t.kind with
    | .symbol .assign => .ok (r.goto (.operand ⟨[], [], .binding place name⟩))
    | _ => r.afterName limit ⟨[], [], .expression place⟩ place name t
  | .letName start =>
    match t.kind with
    | .ident name => .ok (r.goto (.letEquals start name))
    | _ => reject t .variableName
  | .letEquals start name =>
    match t.kind with
    | .symbol .assign => .ok (r.goto (.operand ⟨[], [], .binding start name⟩))
    | _ => reject t .equals
  | .useModule start =>
    match t.kind with
    | .ident module => .ok (r.goto (.useColons start module))
    | _ => reject t .moduleName
  | .useColons start module =>
    match t.kind with
    | .symbol .doubleColon => .ok (r.goto (.useSymbol start module))
    | _ => reject t .colons
  | .useSymbol start module =>
    match t.kind with
    | .ident symbol => .ok (r.goto (.useTail start module symbol))
    | _ => reject t .symbolName
  | .useTail start module symbol =>
    match t.kind with
    | .keyword .asWord => .ok (r.goto (.useAlias start module symbol))
    | _ => r.terminate limit start (.use · module symbol none) t
  | .useAlias start module symbol =>
    match t.kind with
    | .ident newName => .ok (r.goto (.useDone start module symbol newName))
    | _ => reject t .aliasName
  | .useDone start module symbol newName =>
    r.terminate limit start (.use · module symbol (some newName)) t
  | .operand p => r.operand limit p t
  | .name p place name => r.afterName limit p place name t
  | .pathSymbol p place module =>
    match t.kind with
    | .ident symbol => .ok (r.goto (.pathCall p ⟨place.start, t.span.stop⟩ module symbol))
    | _ => reject t .pathSymbol
  | .pathCall p place module symbol =>
    match t.kind with
    | .symbol .openParen => r.complete limit p (.path (some place) module symbol) t
    | _ => reject t (.callOf module symbol)
  | .complete p e => r.complete limit p e t

/-- What one token does. The end of input is looked at and not taken. -/
def advance (limit : Nat) (r : Reader) (t : Token) : Except Fault Reader :=
  match t.kind with
  | .eof => r.take limit t
  | _ => do return { ← r.take limit t with last := t.span }

/-- Takes tokens up to the first end of input. -/
def run (limit : Nat) (r : Reader) : List Token → Except Fault Reader
  | [] => .ok r
  | t :: ts =>
    match r.advance limit t with
    | .error fault => .error fault
    | .ok next => if t.kind = .eof then .ok next else next.run limit ts

end Reader

end Scriptlet
