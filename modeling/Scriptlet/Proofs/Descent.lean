import Scriptlet.Proofs.Precedence

/-!
# Reading by descent

A second reader of programs, with a function for each kind of phrase. The functions call each other, some of
them before they take a token, and nothing in their definitions says that this comes to an end: a recursion
that does not end has no outcome. Nor does anything keep them from looking too far: to look or to step past
the first end of input is an outcome of its own, `Halt.astray`.

* `Descent.binary`, `Descent.unary`, `Descent.primary`: expressions, by how tightly their parts hold.
* `Descent.statement`, `Descent.program`: statements and programs.
* `Descent.Ends answer x i Q`: the reading `x`, begun at `i`, ends in bounds, with a result for which `Q`
  holds or with the fault that is the `answer`. There is a rule for each step of a reading.
-/

namespace Scriptlet

/-- A second reader: the tokens that it reads, and how deep blocks, brackets and prefix operators may be
nested. -/
structure Descent where
  limit : Nat
  tokens : List Token

namespace Descent

/-- Why a reading ends without a result: the text has a fault, or the reading went past the first end of
input. -/
inductive Halt where
  | fault (f : Fault)
  | astray (index : Nat)

/-- A reading: it begins at an index and ends at another one, or ends early, or does not end. -/
abbrev Reading (α : Type) := StateT Nat (ExceptT Halt Option) α

open Scriptlet.Token (Kind)

/-! ## Single tokens -/

/-- Is the token an end of input? -/
def isEnd (t : Token) : Bool := t.kind = .eof

/-- The index of the first end of input. -/
def firstEnd (tokens : List Token) : Nat := tokens.findIdx isEnd

section

variable (tokens : List Token)

/-- The token at an index, up to the first end of input. -/
def tokenAt (i : Nat) : Reading Token :=
  match tokens[i]? with
  | some t => if i ≤ firstEnd tokens then pure t else throw (.astray i)
  | none => throw (.astray i)

/-- The token that comes next. -/
def current : Reading Token := do tokenAt tokens (← get)

/-- The token after the one that comes next. -/
def following : Reading Token := do tokenAt tokens ((← get) + 1)

/-- The token that was taken last; the first one, if none was taken. -/
def previous : Reading Token := do tokenAt tokens ((← get) - 1)

/-- Takes a token. The end of input stays where it is. -/
def advance : Reading Unit := do
  let t ← current tokens
  if t.kind = .eof then return ()
  else
    let _ ← following tokens
    modify (· + 1)

/-- The fault of a token that is not what was expected. -/
def refusal (t : Token) (expected : Expected) : Fault :=
  if t.kind = .eof then ⟨.unexpectedEnd expected, t.span, none⟩
  else ⟨.unexpectedToken expected t.describe, t.span, some t.span.start.line⟩

/-- Refuses the token that comes next. -/
def refuse {α : Type} (expected : Expected) : Reading α := do
  let t ← current tokens
  throw (.fault (refusal t expected))

/-- Takes a token of the given kind, if one comes next. -/
def accept (k : Kind) : Reading Bool := do
  let t ← current tokens
  if t.kind = k then
    advance tokens
    return true
  else return false

/-- Takes a token of the given kind, which has to come next. -/
def expect (k : Kind) (expected : Expected) : Reading Unit := do
  let t ← current tokens
  if t.kind = k then advance tokens else refuse tokens expected

/-- Takes a name, which has to come next. -/
def expectName (expected : Expected) : Reading String := do
  let t ← current tokens
  match t.kind with
  | .ident name =>
    advance tokens
    return name
  | _ => refuse tokens expected

/-- Takes a token that opens a level below `depth` others. -/
def descend (limit depth : Nat) : Reading Unit := do
  let t ← current tokens
  if depth + 1 ≤ limit then advance tokens
  else throw (.fault ⟨.nestingTooDeep, t.span, none⟩)

/-- The range from a start to the token that was taken last. -/
def spanFrom (start : Option Span) : Reading (Option Span) := do
  let t ← previous tokens
  return Span.between start (some t.span)

end

/-! ## Expressions -/

/-- The sign that a token of this kind writes. -/
def sign? : Kind → Option Symbol
  | .symbol s => if s.isUnary then some s else none
  | _ => none

/-- The value that a token of this kind writes. -/
def literal? : Kind → Option Value
  | .int n => some (.int n)
  | .str s => some (.str s)
  | .bool b => some (.bool b)
  | _ => none

/-- What a name begins, after its token: a path, if two colons follow, which has to be called. -/
def nameOrPath (tokens : List Token) (place : Span) (name : String) : Reading Node := do
  if ← accept tokens (.symbol .doubleColon) then
    let symbol ← expectName tokens .pathSymbol
    let t ← current tokens
    if t.kind = .symbol .openParen then
      let span ← spanFrom tokens (some place)
      return .path span name symbol
    else refuse tokens (.callOf name symbol)
  else return .name (some place) name

mutual

/-- An expression whose binary operators bind at least as tightly as `min`. -/
def binary (d : Descent) (min depth : Nat) : Reading Node := do
  let left ← d |>.unary depth
  d |>.operations min depth left
partial_fixpoint

/-- Goes on with an expression while operators follow that bind at least as tightly as `min`. -/
def operations (d : Descent) (min depth : Nat) (left : Node) : Reading Node := do
  let t ← current d.tokens
  match t.kind.binary? with
  | some op =>
    if min ≤ op.precedence then
      advance d.tokens
      let right ← d |>.binary (op.precedence + 1) depth
      d |>.operations min depth (.binary (Span.between left.span right.span) left op.text right)
    else return left
  | none => return left
partial_fixpoint

/-- An operand with its signs and suffixes. -/
def unary (d : Descent) (depth : Nat) : Reading Node := do
  let t ← current d.tokens
  match sign? t.kind with
  | some s =>
    descend d.tokens d.limit depth
    let e ← d |>.unary (depth + 1)
    return .unary (Span.between (some t.span) e.span) s.text e
  | none =>
    let e ← d |>.primary depth
    d |>.suffixes depth e
partial_fixpoint

/-- Goes on with an operand while calls and indices follow. -/
def suffixes (d : Descent) (depth : Nat) (e : Node) : Reading Node := do
  let t ← current d.tokens
  match t.kind with
  | .symbol .openParen =>
    if Reader.isCallable e then
      descend d.tokens d.limit depth
      let es ← d |>.elements .argumentEnd (depth + 1)
      let span ← spanFrom d.tokens e.span
      d |>.suffixes depth (.call span e es)
    else
      throw (.fault ⟨.invalidCallee, (Span.between e.span (some t.span)).getD t.span,
        some t.span.start.line⟩)
  | .symbol .openBracket =>
    descend d.tokens d.limit depth
    let position ← d |>.binary 1 (depth + 1)
    expect d.tokens (.symbol .closeBracket) .closeBracket
    let span ← spanFrom d.tokens e.span
    d |>.suffixes depth (.index span e position)
  | _ => return e
partial_fixpoint

/-- Expressions with commas between them, and the parenthesis that closes them. -/
def elements (d : Descent) (expected : Expected) (depth : Nat) : Reading (List Node) := do
  if ← accept d.tokens (.symbol .closeParen) then return []
  else
    let e ← d |>.binary 1 depth
    if ← accept d.tokens (.symbol .comma) then
      let es ← d |>.elements expected depth
      return e :: es
    else
      expect d.tokens (.symbol .closeParen) expected
      return [e]
partial_fixpoint

/-- An operand without signs and suffixes. -/
def primary (d : Descent) (depth : Nat) : Reading Node := do
  let t ← current d.tokens
  match literal? t.kind with
  | some v =>
    advance d.tokens
    return .literal (some t.span) v
  | none =>
    match t.kind with
    | .ident name =>
      advance d.tokens
      nameOrPath d.tokens t.span name
    | .symbol .openParen =>
      descend d.tokens d.limit depth
      d |>.group (depth + 1) t.span
    | _ => refuse d.tokens .expression
partial_fixpoint

/-- An expression in parentheses, or a tuple, after the parenthesis that opens it. -/
def group (d : Descent) (depth : Nat) (start : Span) : Reading Node := do
  if ← accept d.tokens (.symbol .closeParen) then
    let span ← spanFrom d.tokens (some start)
    return .tuple span []
  else
    let e ← d |>.binary 1 depth
    if ← accept d.tokens (.symbol .closeParen) then return e
    else
      expect d.tokens (.symbol .comma) .tupleEnd
      let es ← d |>.elements .tupleEnd depth
      let span ← spanFrom d.tokens (some start)
      return .tuple span (e :: es)
partial_fixpoint

end

/-! ## Statements -/

/-- The end of a statement: a semicolon, or nothing before the end of what is open. -/
def terminator (tokens : List Token) : Reading Unit := do
  if ← accept tokens (.symbol .semicolon) then return ()
  else
    let t ← current tokens
    if t.kind = .symbol .closeBrace ∨ t.kind = .eof then return ()
    else refuse tokens .terminator

/-- A statement that lacks only its end. -/
def ending (tokens : List Token) (start : Span) (make : Option Span → Node) : Reading Node := do
  terminator tokens
  let span ← spanFrom tokens (some start)
  return make span

/-- A `use` statement, from its module on. -/
def useStatement (tokens : List Token) (start : Span) : Reading Node := do
  let module ← expectName tokens .moduleName
  expect tokens (.symbol .doubleColon) .colons
  let symbol ← expectName tokens .symbolName
  if ← accept tokens (.keyword .asWord) then
    let newName ← expectName tokens .aliasName
    ending tokens start (.use · module symbol (some newName))
  else ending tokens start (.use · module symbol none)

/-- An expression as a statement. -/
def expressionStatement (d : Descent) (depth : Nat) (start : Span) : Reading Node := do
  let e ← d.binary 1 depth
  ending d.tokens start (.expression · e)

/-- A binding, from its name on. -/
def binding (d : Descent) (depth : Nat) (start : Span) : Reading Node := do
  let name ← expectName d.tokens .variableName
  expect d.tokens (.symbol .assign) .equals
  let e ← d.binary 1 depth
  ending d.tokens start (.binding · name e)

mutual

/-- A statement. -/
def statement (d : Descent) (depth : Nat) : Reading Node := do
  let t ← current d.tokens
  match t.kind with
  | .symbol .openBrace =>
    descend d.tokens d.limit depth
    d |>.block (depth + 1) t.span
  | .keyword .useWord =>
    advance d.tokens
    useStatement d.tokens t.span
  | .keyword .letWord =>
    advance d.tokens
    d.binding depth t.span
  | .ident _ =>
    let u ← following d.tokens
    if u.kind = .symbol .assign then d.binding depth t.span
    else d.expressionStatement depth t.span
  | _ => d.expressionStatement depth t.span
partial_fixpoint

/-- A block, after the brace that opens it. -/
def block (d : Descent) (depth : Nat) (start : Span) : Reading Node := do
  let ss ← d |>.statements true depth
  expect d.tokens (.symbol .closeBrace) .closeBrace
  let span ← spanFrom d.tokens (some start)
  let _ ← accept d.tokens (.symbol .semicolon)
  return .block span ss
partial_fixpoint

/-- Statements and stray semicolons, up to the end of input or, in a block, to a closing brace. -/
def statements (d : Descent) (inBlock : Bool) (depth : Nat) : Reading (List Node) := do
  let t ← current d.tokens
  if t.kind = .eof ∨ (inBlock ∧ t.kind = .symbol .closeBrace) then return []
  else if t.kind = .symbol .semicolon then
    advance d.tokens
    d |>.statements inBlock depth
  else
    let s ← d |>.statement depth
    let ss ← d |>.statements inBlock depth
    return s :: ss
partial_fixpoint

end

/-- A program. -/
def program (d : Descent) : Reading Program := do
  let first ← current d.tokens
  let ss ← d.statements false 0
  let span ← spanFrom d.tokens (some first.span)
  return ⟨span, ss⟩

/-! ## Readings that end -/

/-- A reading that begins at `i` ends in bounds, with a result for which `Q` holds or with the fault that
is the answer. -/
def Ends {α : Type} (tokens : List Token) (answer : Except Fault Reader) (x : Reading α) (i : Nat)
    (Q : α → Nat → Prop) : Prop :=
  (∃ a j, x i = some (.ok (a, j)) ∧ i ≤ j ∧ j ≤ firstEnd tokens ∧ Q a j) ∨
    ∃ f, x i = some (.error (.fault f)) ∧ answer = .error f

section

variable {α β : Type} {x : Reading α} {f : α → Reading β} {a : α} {i j : Nat}

theorem bind_of_ok (h : x i = some (.ok (a, j))) : (x >>= f) i = f a j := by
  show (x i >>= fun p => f p.1 p.2 : ExceptT Halt Option (β × Nat)) = f a j
  rw [h]
  rfl

theorem bind_of_error {halt : Halt} (h : x i = some (.error halt)) :
    (x >>= f) i = some (.error halt) := by
  show (x i >>= fun p => f p.1 p.2 : ExceptT Halt Option (β × Nat)) = _
  rw [h]
  rfl

variable {tokens : List Token} {answer : Except Fault Reader} {Q Q' : α → Nat → Prop}
  {R : β → Nat → Prop}

theorem Ends.mono (h : Ends tokens answer x i Q)
    (hQ : ∀ a j, i ≤ j → j ≤ firstEnd tokens → Q a j → Q' a j) : Ends tokens answer x i Q' := by
  obtain ⟨a, j, hx, hij, hj, ha⟩ | hfault := h
  · exact .inl ⟨a, j, hx, hij, hj, hQ a j hij hj ha⟩
  · exact .inr hfault

/-- From a later place on, a reading ends past the earlier one. -/
theorem Ends.past (h : Ends tokens answer x j Q) (hij : i < j) :
    Ends tokens answer x j fun a k => i < k ∧ Q a k :=
  h.mono fun _ _ hjk _ ha => ⟨Nat.lt_of_lt_of_le hij hjk, ha⟩

theorem Ends.since (h : Ends tokens answer x j fun a k => j < k ∧ Q a k) (hij : i ≤ j) :
    Ends tokens answer x j fun a k => i < k ∧ Q a k :=
  h.mono fun _ _ _ _ ha => ⟨Nat.lt_of_le_of_lt hij ha.1, ha.2⟩

/-- A first step with a known result. -/
theorem Ends.after (hx : x i = some (.ok (a, j))) (hij : i ≤ j)
    (h : Ends tokens answer (f a) j R) : Ends tokens answer (x >>= f) i R := by
  unfold Ends
  rw [bind_of_ok hx]
  obtain ⟨b, k, hb, hjk, hk, hR⟩ | hfault := h
  · exact .inl ⟨b, k, hb, Nat.le_trans hij hjk, hk, hR⟩
  · exact .inr hfault

/-- Readings one after another. -/
theorem Ends.bind (hx : Ends tokens answer x i Q)
    (hf : ∀ a j, i ≤ j → j ≤ firstEnd tokens → Q a j → Ends tokens answer (f a) j R) :
    Ends tokens answer (x >>= f) i R := by
  obtain ⟨a, j, hout, hij, hj, ha⟩ | ⟨fault, hout, hanswer⟩ := hx
  · exact .after hout hij (hf a j hij hj ha)
  · exact .inr ⟨fault, bind_of_error hout, hanswer⟩

theorem ends_pure (hi : i ≤ firstEnd tokens) (ha : Q a i) :
    Ends tokens answer (pure a : Reading α) i Q :=
  .inl ⟨a, i, rfl, Nat.le_refl i, hi, ha⟩

theorem ends_throw {fault : Fault} (h : answer = .error fault) :
    Ends tokens answer (throw (.fault fault) : Reading α) i Q :=
  .inr ⟨fault, rfl, h⟩

end

/-! ### Places -/

/-- In bounds, the token `t` comes next at `i`. -/
structure At (tokens : List Token) (i : Nat) (t : Token) : Prop where
  token : tokens[i]? = some t
  bound : i ≤ firstEnd tokens

/-- The token before a place; the first one at the beginning. -/
def lastAt (tokens : List Token) (i : Nat) : Span := (tokens[i - 1]?.getD default).span

section

variable {tokens : List Token} {i : Nat} {t : Token}

theorem At.lastAt_succ (h : At tokens i t) : lastAt tokens (i + 1) = t.span := by
  unfold lastAt
  rw [Nat.add_sub_cancel, h.token, Option.getD_some]

variable (hends : firstEnd tokens < tokens.length)

include hends

theorem exists_at (hi : i ≤ firstEnd tokens) : ∃ t, At tokens i t :=
  ⟨tokens[i], List.getElem?_eq_getElem _, hi⟩

/-- Only the end of input comes at its index. -/
theorem At.lt_firstEnd (h : At tokens i t) (ht : t.kind ≠ .eof) : i < firstEnd tokens := by
  refine Nat.lt_of_le_of_ne h.bound ?_
  rintro rfl
  have hfound : isEnd tokens[firstEnd tokens] = true := List.findIdx_getElem (w := hends)
  obtain ⟨_, htoken⟩ := List.getElem?_eq_some_iff.1 h.token
  rw [htoken] at hfound
  exact ht (of_decide_eq_true hfound)

theorem At.next (h : At tokens i t) (ht : t.kind ≠ .eof) : ∃ u, At tokens (i + 1) u :=
  exists_at hends (h.lt_firstEnd hends ht)

end

/-- Up to the first end of input there is no other one. -/
theorem At.eq_firstEnd {tokens : List Token} {i : Nat} {t : Token} (h : At tokens i t)
    (ht : t.kind = .eof) : i = firstEnd tokens := by
  refine Nat.le_antisymm h.bound (Nat.le_of_not_lt fun hi => ?_)
  have hnot := List.not_of_lt_findIdx hi
  obtain ⟨_, htoken⟩ := List.getElem?_eq_some_iff.1 h.token
  rw [htoken] at hnot
  exact of_decide_eq_false hnot ht

/-! ### Steps -/

section

variable {α : Type} {tokens : List Token} {answer : Except Fault Reader} {i : Nat} {t : Token}
  {k : Kind} {Q : α → Nat → Prop}

theorem At.tokenAt_eq (h : At tokens i t) (j : Nat) : tokenAt tokens i j = some (.ok (t, j)) := by
  unfold tokenAt
  rw [h.token]
  dsimp only
  rw [if_pos h.bound]
  rfl

theorem At.current_eq (h : At tokens i t) : current tokens i = some (.ok (t, i)) := h.tokenAt_eq i

theorem At.refuse_eq (h : At tokens i t) (expected : Expected) :
    (refuse tokens expected : Reading α) i = some (.error (.fault (refusal t expected))) :=
  bind_of_ok h.current_eq

theorem ends_current {f : Token → Reading α} (h : At tokens i t)
    (hf : Ends tokens answer (f t) i Q) : Ends tokens answer (current tokens >>= f) i Q :=
  .after h.current_eq (Nat.le_refl i) hf

theorem ends_refuse {expected : Expected} (h : At tokens i t)
    (hanswer : answer = .error (refusal t expected)) :
    Ends tokens answer (refuse tokens expected : Reading α) i Q :=
  .inr ⟨_, h.refuse_eq expected, hanswer⟩

theorem ends_spanFrom {start : Option Span} {f : Option Span → Reading α}
    (hends : firstEnd tokens < tokens.length) (hi : i ≤ firstEnd tokens)
    (hf : Ends tokens answer (f (Span.between start (some (lastAt tokens i)))) i Q) :
    Ends tokens answer (spanFrom tokens start >>= f) i Q := by
  obtain ⟨t, ht⟩ := exists_at hends (i := i - 1) (by omega)
  have hlast : lastAt tokens i = t.span := by
    unfold lastAt
    rw [ht.token, Option.getD_some]
  rw [hlast] at hf
  refine .after ?_ (Nat.le_refl i) hf
  exact bind_of_ok (x := previous tokens) (ht.tokenAt_eq i)

variable (hends : firstEnd tokens < tokens.length)

include hends

theorem At.advance_eq (h : At tokens i t) (ht : t.kind ≠ .eof) :
    advance tokens i = some (.ok ((), i + 1)) := by
  obtain ⟨u, hu⟩ := h.next hends ht
  unfold advance
  rw [bind_of_ok h.current_eq, if_neg ht, bind_of_ok (x := following tokens) (hu.tokenAt_eq i)]
  rfl

theorem ends_following {f : Token → Reading α} (h : At tokens i t) (ht : t.kind ≠ .eof)
    (hf : ∀ u, At tokens (i + 1) u → Ends tokens answer (f u) i Q) :
    Ends tokens answer (following tokens >>= f) i Q := by
  obtain ⟨u, hu⟩ := h.next hends ht
  exact .after (x := following tokens) (hu.tokenAt_eq i) (Nat.le_refl i) (hf u hu)

theorem ends_advance {f : Unit → Reading α} (h : At tokens i t) (ht : t.kind ≠ .eof)
    (hf : ∀ u, At tokens (i + 1) u → Ends tokens answer (f ()) (i + 1) Q) :
    Ends tokens answer (advance tokens >>= f) i Q := by
  obtain ⟨u, hu⟩ := h.next hends ht
  exact .after (h.advance_eq hends ht) (Nat.le_succ i) (hf u hu)

theorem ends_accept {f : Bool → Reading α} (h : At tokens i t) (hk : k ≠ .eof)
    (hyes : t.kind = k → ∀ u, At tokens (i + 1) u → Ends tokens answer (f true) (i + 1) Q)
    (hno : t.kind ≠ k → Ends tokens answer (f false) i Q) :
    Ends tokens answer (accept tokens k >>= f) i Q := by
  by_cases ht : t.kind = k
  · have hkind : t.kind ≠ .eof := ht ▸ hk
    obtain ⟨u, hu⟩ := h.next hends hkind
    refine .after ?_ (Nat.le_succ i) (hyes ht u hu)
    unfold accept
    rw [bind_of_ok h.current_eq, if_pos ht, bind_of_ok (h.advance_eq hends hkind)]
    rfl
  · refine .after ?_ (Nat.le_refl i) (hno ht)
    unfold accept
    rw [bind_of_ok h.current_eq, if_neg ht]
    rfl

theorem ends_expect {expected : Expected} {f : Unit → Reading α} (h : At tokens i t)
    (hk : k ≠ .eof)
    (hyes : t.kind = k → ∀ u, At tokens (i + 1) u → Ends tokens answer (f ()) (i + 1) Q)
    (hno : t.kind ≠ k → answer = .error (refusal t expected)) :
    Ends tokens answer (expect tokens k expected >>= f) i Q := by
  by_cases ht : t.kind = k
  · have hkind : t.kind ≠ .eof := ht ▸ hk
    obtain ⟨u, hu⟩ := h.next hends hkind
    refine .after ?_ (Nat.le_succ i) (hyes ht u hu)
    unfold expect
    rw [bind_of_ok h.current_eq, if_pos ht]
    exact h.advance_eq hends hkind
  · refine .inr ⟨refusal t expected, bind_of_error ?_, hno ht⟩
    unfold expect
    rw [bind_of_ok h.current_eq, if_neg ht]
    exact h.refuse_eq expected

theorem ends_expectName {expected : Expected} {f : String → Reading α} (h : At tokens i t)
    (hyes : ∀ name, t.kind = .ident name → ∀ u, At tokens (i + 1) u →
      Ends tokens answer (f name) (i + 1) Q)
    (hno : (∀ name, t.kind ≠ .ident name) → answer = .error (refusal t expected)) :
    Ends tokens answer (expectName tokens expected >>= f) i Q := by
  cases hk : t.kind with
  | ident name =>
    have hkind : t.kind ≠ .eof := by simp [hk]
    obtain ⟨u, hu⟩ := h.next hends hkind
    refine .after ?_ (Nat.le_succ i) (hyes name hk u hu)
    unfold expectName
    rw [bind_of_ok h.current_eq, hk]
    exact bind_of_ok (h.advance_eq hends hkind)
  | _ =>
    refine .inr ⟨refusal t expected, bind_of_error ?_, hno (by simp [hk])⟩
    unfold expectName
    rw [bind_of_ok h.current_eq, hk]
    exact h.refuse_eq expected

theorem ends_descend {limit depth : Nat} {f : Unit → Reading α} (h : At tokens i t)
    (ht : t.kind ≠ .eof)
    (hyes : depth + 1 ≤ limit → ∀ u, At tokens (i + 1) u → Ends tokens answer (f ()) (i + 1) Q)
    (hno : ¬ depth + 1 ≤ limit → answer = .error ⟨.nestingTooDeep, t.span, none⟩) :
    Ends tokens answer (descend tokens limit depth >>= f) i Q := by
  by_cases hdepth : depth + 1 ≤ limit
  · obtain ⟨u, hu⟩ := h.next hends ht
    refine .after ?_ (Nat.le_succ i) (hyes hdepth u hu)
    unfold descend
    rw [bind_of_ok h.current_eq, if_pos hdepth]
    exact h.advance_eq hends ht
  · refine .inr ⟨_, bind_of_error ?_, hno hdepth⟩
    unfold descend
    rw [bind_of_ok h.current_eq, if_neg hdepth]
    rfl

end

end Descent

end Scriptlet
