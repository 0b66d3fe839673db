import Mathlib.Tactic.Abel
import Scriptlet.Proofs.GrammarEquations
import Scriptlet.Syntax.Reader

/-!
# The languages of the reader's states

Each state of the reader stands for a language: the texts that may still come, from the point of view of
the grammar. What is open is part of the state, so the language is put together from the innermost
bracket outwards, and from the innermost block outwards.

* `Reader.residual`: the language of a state.
* `quotient_atOperand_literal` and its siblings: what becomes of the language where an operand is due.
* `quotient_afterOperand_of_ends` and its siblings: the same after an operand.
-/

namespace Scriptlet.Reader

open Scriptlet.Grammar
open Scriptlet.Token (Kind)

/-! ## The languages of states -/

/-- What may come after an operand, where `close` may come after the whole expression. The flag of
`close` says whether the expression is a name that may be called once it is in parentheses; `alone` says
that no operator waits for the operand. -/
def afterOperand (callable alone : Bool) (close : Bool → Texts) : Texts :=
  close (callable && alone) + tails callable * close false

/-- What may come after an expression inside of the given brackets, where `ends` may come after the
outermost expression. -/
def closing (ends : Texts) : List (Bracket × List Pending) → Bool → Texts
  | [], _ => ends
  | (.index _, outer) :: bs, _ =>
    word (.symbol .closeBracket) * afterOperand false outer.isEmpty (closing ends bs)
  | (.group _, outer) :: bs, bare =>
    word (.symbol .closeParen) * afterOperand bare outer.isEmpty (closing ends bs) +
      word (.symbol .comma) * listed (afterOperand false outer.isEmpty (closing ends bs))
  | (.tuple _ _, outer) :: bs, _ | (.call _ _, outer) :: bs, _ =>
    word (.symbol .closeParen) * afterOperand false outer.isEmpty (closing ends bs) +
      word (.symbol .comma) * listed (afterOperand false outer.isEmpty (closing ends bs))

/-- What may come where an operand is due and none comes: the end of a list. -/
def closingEmpty (ends : Texts) : List (Bracket × List Pending) → Texts
  | [] | (.index _, _) :: _ => 0
  | (.group _, outer) :: bs | (.tuple _ _, outer) :: bs | (.call _ _, outer) :: bs =>
    word (.symbol .closeParen) * afterOperand false outer.isEmpty (closing ends bs)

/-- What may come where an operand is due. -/
def atOperand (ends : Texts) (alone : Bool) (bs : List (Bracket × List Pending)) : Texts :=
  expressions * closing ends bs false +
    if alone then bareNames * closing ends bs true + closingEmpty ends bs else 0

/-- What may come after a name. -/
def afterNameTexts (ends : Texts) (alone : Bool) (bs : List (Bracket × List Pending)) : Texts :=
  afterOperand true alone (closing ends bs) +
    calledPath (afterOperand false alone (closing ends bs))

/-- What may come in a mode, with `n` open blocks. -/
def Mode.residual (n : Nat) : Mode → Texts
  | .statement => programs n
  | .leadingName _ _ => assigned n + afterNameTexts (endings n) true []
  | .letName _ => names * assigned n
  | .letEquals _ _ => assigned n
  | .useModule _ => names * (word (.symbol .doubleColon) * (names * useTails n))
  | .useColons _ _ => word (.symbol .doubleColon) * (names * useTails n)
  | .useSymbol _ _ => names * useTails n
  | .useTail _ _ _ => useTails n
  | .useAlias _ _ _ => names * endings n
  | .useDone _ _ _ _ => endings n
  | .operand p => atOperand (endings n) p.pending.isEmpty p.brackets
  | .name p _ _ => afterNameTexts (endings n) p.pending.isEmpty p.brackets
  | .pathSymbol p _ _ => names * (word (.symbol .openParen) *
      listed (afterOperand false p.pending.isEmpty (closing (endings n) p.brackets)))
  | .pathCall p _ _ _ => word (.symbol .openParen) *
      listed (afterOperand false p.pending.isEmpty (closing (endings n) p.brackets))
  | .complete p e => afterOperand (isCallable e) p.pending.isEmpty (closing (endings n) p.brackets)

/-- What may come in a state. -/
def residual (r : Reader) : Texts := r.mode.residual r.blocks.length

/-! ### Laws -/

theorem afterOperand_false (alone : Bool) (close : Bool → Texts) :
    afterOperand false alone close = tails false * close false := by
  unfold afterOperand
  rw [Bool.false_and]
  exact (Language.le_iff _ _).1 (le_mul_of_nil_mem (nil_mem_tails false) _)

theorem afterOperand_not_alone (callable : Bool) (close : Bool → Texts) :
    afterOperand callable false close = tails callable * close false := by
  unfold afterOperand
  rw [Bool.and_false]
  exact (Language.le_iff _ _).1 (le_mul_of_nil_mem (nil_mem_tails callable) _)

theorem afterOperand_mono (alone : Bool) (close : Bool → Texts) :
    afterOperand false alone close ≤ afterOperand true alone close := by
  have htails : tails false * close false ≤ tails true * close false := by
    gcongr
    exact tails_false_le
  rw [afterOperand_false]
  exact htails.trans le_add_self

/-- A name in grouping parentheses may be followed by all that may follow another expression there. -/
theorem closing_mono (ends : Texts) (bs : List (Bracket × List Pending)) :
    closing ends bs false ≤ closing ends bs true := by
  match bs with
  | [] | (.index _, _) :: _ | (.tuple _ _, _) :: _ | (.call _ _, _) :: _ => exact le_refl _
  | (.group _, outer) :: bs =>
    have hafter := afterOperand_mono outer.isEmpty (closing ends bs)
    unfold closing
    gcongr

theorem quotient_afterOperand (k : Kind) (callable alone : Bool) {close : Bool → Texts}
    (h : close false ≤ close true) :
    quotient k (afterOperand callable alone close) =
      quotient k (close (callable && alone)) + quotient k (tails callable) * close false := by
  have hle : quotient k (close false) ≤ quotient k (close (callable && alone)) := by
    cases callable && alone with
    | false => exact le_refl _
    | true => exact quotient_mono k h
  unfold afterOperand
  rw [quotient_add, quotient_mul_of_nil_mem (nil_mem_tails callable), ← add_assoc]
  rw [add_comm (quotient k (close (callable && alone))), (Language.le_iff _ _).1 hle]

/-- Where a name cannot be told from another expression, it is one. -/
theorem atOperand_of_eq {ends : Texts} {bs : List (Bracket × List Pending)}
    (h : closing ends bs true = closing ends bs false) :
    atOperand ends true bs = expressions * closing ends bs false + closingEmpty ends bs := by
  have hnames : bareNames * closing ends bs false ≤ expressions * closing ends bs false := by
    gcongr
    exact bareNames_le
  unfold atOperand
  rw [if_pos rfl, h, ← add_assoc, add_comm (expressions * _), (Language.le_iff _ _).1 hnames]

/-- Inside of a list, its elements and its parenthesis may come. -/
theorem atOperand_list (ends : Texts) {b : Bracket} (outer : List Pending)
    (bs : List (Bracket × List Pending))
    (hb : (∃ start items, b = .tuple start items) ∨ ∃ callee arguments, b = .call callee arguments) :
    atOperand ends true ((b, outer) :: bs) =
      listed (afterOperand false outer.isEmpty (closing ends bs)) := by
  have hlisted (l : Texts) : listed l = expressions * (word (.symbol .closeParen) * l +
      word (.symbol .comma) * listed l) + word (.symbol .closeParen) * l := by
    conv_lhs => rw [listed, elements_eq]
    rw [add_mul, add_mul, one_mul, mul_add, listed]
    simp only [mul_assoc]
    abel
  rcases hb with ⟨start, items, rfl⟩ | ⟨callee, arguments, rfl⟩
  · rw [atOperand_of_eq rfl, hlisted]
    rfl
  · rw [atOperand_of_eq rfl, hlisted]
    rfl

theorem atOperand_index (ends : Texts) (object : Node) (outer : List Pending)
    (bs : List (Bracket × List Pending)) :
    atOperand ends true ((.index object, outer) :: bs) =
      expressions * (word (.symbol .closeBracket) *
        afterOperand false outer.isEmpty (closing ends bs)) := by
  rw [atOperand_of_eq rfl]
  exact add_zero _

theorem atOperand_nil (ends : Texts) : atOperand ends true [] = expressions * ends := by
  rw [atOperand_of_eq rfl]
  exact add_zero _

/-- Inside of a parenthesis that may still become anything. -/
theorem atOperand_group (ends : Texts) (start : Span) (outer : List Pending)
    (bs : List (Bracket × List Pending)) :
    atOperand ends true ((.group start, outer) :: bs) =
      parenthesized * closing ends bs false +
        if outer.isEmpty = true then
          bareNames * (word (.symbol .closeParen) * closing ends bs true) else 0 := by
  have hcomma (l : Texts) : bareNames * (word (.symbol .comma) * l) +
      expressions * (word (.symbol .comma) * l) = expressions * (word (.symbol .comma) * l) := by
    rw [← add_mul, (Language.le_iff _ _).1 bareNames_le]
  have hclosed : parenthesized * closing ends bs false =
      word (.symbol .closeParen) * afterOperand false outer.isEmpty (closing ends bs) +
        expressions * (word (.symbol .closeParen) *
          afterOperand false outer.isEmpty (closing ends bs)) +
        expressions * (word (.symbol .comma) *
          listed (afterOperand false outer.isEmpty (closing ends bs))) +
        bareNames * (word (.symbol .closeParen) * (tails true * closing ends bs false)) := by
    rw [parenthesized, afterOperand_false]
    simp only [add_mul, mul_assoc, listed_mul]
  have hname : bareNames * (word (.symbol .closeParen) *
        afterOperand true outer.isEmpty (closing ends bs)) =
      bareNames * (word (.symbol .closeParen) * (tails true * closing ends bs false)) +
        if outer.isEmpty = true then
          bareNames * (word (.symbol .closeParen) * closing ends bs true) else 0 := by
    cases outer.isEmpty with
    | true => rw [afterOperand, Bool.and_self, mul_add, mul_add, if_pos rfl, add_comm]
    | false => rw [afterOperand_not_alone, if_neg Bool.false_ne_true, add_zero]
  rw [atOperand, if_pos rfl, hclosed, ← hcomma]
  simp only [closing, closingEmpty]
  rw [mul_add, mul_add, hname]
  abel

/-! ### Quotients -/

/-- The kinds of the tokens that end an expression. -/
def closes : Kind → Bool
  | .symbol .closeParen | .symbol .comma | .symbol .closeBracket | .symbol .semicolon
  | .symbol .closeBrace | .eof => true
  | _ => false

theorem quotient_paren_or_comma (k : Kind) (l m : Texts) :
    quotient k (word (.symbol .closeParen) * l + word (.symbol .comma) * m) =
      if k = .symbol .closeParen then l else if k = .symbol .comma then m else 0 := by
  rw [quotient_add, quotient_word_mul, quotient_word_mul]
  split_ifs with hparen hcomma hcomma
  · rw [hparen] at hcomma
    cases hcomma
  · exact add_zero l
  · exact zero_add m
  · exact add_zero 0

theorem quotient_closing_eq_zero {k : Kind} (hk : closes k = false) (n : Nat)
    (bs : List (Bracket × List Pending)) (bare : Bool) :
    quotient k (closing (endings n) bs bare) = 0 := by
  have hne {s : Kind} (hs : closes s = true) : k ≠ s := by
    rintro rfl
    rw [hk] at hs
    cases hs
  match bs with
  | [] => exact quotient_endings_eq_zero (hne rfl) (hne rfl) (hne rfl) n
  | (.index _, _) :: _ =>
    have hbracket : k ≠ .symbol .closeBracket := hne rfl
    rw [closing, quotient_word_mul, if_neg hbracket]
  | (.group _, _) :: _ | (.tuple _ _, _) :: _ | (.call _ _, _) :: _ =>
    have hparen : k ≠ .symbol .closeParen := hne rfl
    have hcomma : k ≠ .symbol .comma := hne rfl
    rw [closing, quotient_paren_or_comma, if_neg hparen, if_neg hcomma]

theorem quotient_closingEmpty {k : Kind} (hk : k ≠ .symbol .closeParen) (ends : Texts)
    (bs : List (Bracket × List Pending)) : quotient k (closingEmpty ends bs) = 0 := by
  match bs with
  | [] | (.index _, _) :: _ => rfl
  | (.group _, _) :: _ | (.tuple _ _, _) :: _ | (.call _ _, _) :: _ =>
    rw [closingEmpty, quotient_word_mul, if_neg hk]

theorem quotient_closingEmpty_closeParen {b : Bracket} (hb : ∀ object, b ≠ .index object)
    (ends : Texts) (outer : List Pending) (bs : List (Bracket × List Pending)) :
    quotient (.symbol .closeParen) (closingEmpty ends ((b, outer) :: bs)) =
      afterOperand false outer.isEmpty (closing ends bs) := by
  cases b with
  | index object => exact absurd rfl (hb object)
  | group | tuple | call => rw [closingEmpty, quotient_word_mul, if_pos rfl]

theorem quotient_atOperand (k : Kind) (ends : Texts) (alone : Bool)
    (bs : List (Bracket × List Pending)) :
    quotient k (atOperand ends alone bs) = quotient k expressions * closing ends bs false +
      if alone = true then quotient k bareNames * closing ends bs true +
        quotient k (closingEmpty ends bs) else 0 := by
  unfold atOperand
  rw [quotient_add, quotient_mul nil_notMem_expressions]
  cases alone with
  | true =>
    rw [if_pos rfl, if_pos rfl, quotient_add, quotient_mul nil_notMem_bareNames]
  | false => rfl

/-- Where an operand is due, a token that starts none leads nowhere. -/
theorem quotient_atOperand_eq_zero {k : Kind} (hsign : isSign k = false)
    (hliteral : isLiteral k = false) (hname : isName k = false) (hopen : k ≠ .symbol .openParen)
    {alone : Bool} (hclose : alone = true → k ≠ .symbol .closeParen) (ends : Texts)
    (bs : List (Bracket × List Pending)) : quotient k (atOperand ends alone bs) = 0 := by
  have hempty : alone = true → quotient k (closingEmpty ends bs) = 0 := fun h =>
    quotient_closingEmpty (hclose h) ends bs
  rw [quotient_atOperand, quotient_expressions_eq_zero hsign hliteral hname hopen, zero_mul, zero_add]
  split_ifs with halone
  · rw [quotient_bareNames, hname, if_neg hopen, hempty halone]
    simp only [Bool.false_eq_true, if_false, zero_mul, add_zero]
  · rfl

theorem quotient_atOperand_literal {k : Kind} (hk : isLiteral k = true) (ends : Texts) (alone : Bool)
    (bs : List (Bracket × List Pending)) :
    quotient k (atOperand ends alone bs) = afterOperand false alone (closing ends bs) := by
  rw [quotient_atOperand, quotient_expressions, quotient_bareNames, afterOperand_false]
  cases k with
  | int | str | bool =>
    simp [isSign, isLiteral, isName, quotient_closingEmpty]
  | ident | keyword | symbol | eof => cases hk

theorem quotient_atOperand_name (n : String) (ends : Texts) (alone : Bool)
    (bs : List (Bracket × List Pending)) :
    quotient (.ident n) (atOperand ends alone bs) = afterNameTexts ends alone bs := by
  have hexpressions : quotient (.ident n) expressions = tails true + calledPath (tails false) := by
    simp [quotient_expressions, isSign, isLiteral, isName]
  have hnames : quotient (.ident n) bareNames = 1 := by
    simp [quotient_bareNames, isName]
  rw [quotient_atOperand, hexpressions, hnames, quotient_closingEmpty (by simp), afterNameTexts,
    afterOperand_false, add_mul, calledPath_mul, one_mul, add_zero]
  cases alone with
  | true =>
    rw [if_pos rfl, afterOperand, Bool.and_self]
    abel
  | false => rw [if_neg Bool.false_ne_true, afterOperand_not_alone, add_zero]

theorem quotient_atOperand_sign {s : Symbol} (hs : s.isUnary = true) (ends : Texts) (alone : Bool)
    (bs : List (Bracket × List Pending)) :
    quotient (.symbol s) (atOperand ends alone bs) = atOperand ends false bs := by
  have hopen : s ≠ .openParen := by
    rintro rfl
    cases hs
  have hclose : s ≠ .closeParen := by
    rintro rfl
    cases hs
  rw [quotient_atOperand, quotient_expressions, quotient_bareNames, atOperand]
  simp [isSign, isLiteral, isName, hs, hopen, quotient_closingEmpty, hclose]

theorem quotient_atOperand_openParen (ends : Texts) (start : Span) (outer : List Pending)
    (bs : List (Bracket × List Pending)) :
    quotient (.symbol .openParen) (atOperand ends outer.isEmpty bs) =
      atOperand ends true ((.group start, outer) :: bs) := by
  rw [quotient_atOperand, quotient_expressions, quotient_bareNames, atOperand_group]
  simp [isSign, isLiteral, isName, Symbol.isUnary, quotient_closingEmpty, mul_assoc]

theorem quotient_atOperand_closeParen (ends : Texts) (alone : Bool)
    (bs : List (Bracket × List Pending)) :
    quotient (.symbol .closeParen) (atOperand ends alone bs) =
      if alone = true then quotient (.symbol .closeParen) (closingEmpty ends bs) else 0 := by
  rw [quotient_atOperand, quotient_expressions, quotient_bareNames]
  simp [isSign, isLiteral, isName, Symbol.isUnary]

/-- After an operand, a token that goes on with neither suffix nor operator ends the expression. -/
theorem quotient_afterOperand_of_ends {k : Kind} (hoperator : isOperator k = false)
    (hopen : k ≠ .symbol .openParen) (hbracket : k ≠ .symbol .openBracket) (callable alone : Bool)
    (ends : Texts) (bs : List (Bracket × List Pending)) :
    quotient k (afterOperand callable alone (closing ends bs)) =
      quotient k (closing ends bs (callable && alone)) := by
  rw [quotient_afterOperand k callable alone (closing_mono ends bs), quotient_tails]
  simp [hoperator, hopen, hbracket]

theorem quotient_afterOperand_operator {s : Symbol} (hs : s.binary?.isSome = true)
    (callable alone : Bool) (n : Nat) (bs : List (Bracket × List Pending)) :
    quotient (.symbol s) (afterOperand callable alone (closing (endings n) bs)) =
      atOperand (endings n) false bs := by
  have hcloses : closes (.symbol s) = false := by
    revert hs
    cases s <;> decide
  have hopen : s ≠ .openParen := by
    rintro rfl
    cases hs
  have hbracket : s ≠ .openBracket := by
    rintro rfl
    cases hs
  rw [quotient_afterOperand _ callable alone (closing_mono _ bs), quotient_tails,
    quotient_closing_eq_zero hcloses, atOperand]
  simp [isOperator, hs, hopen, hbracket]

theorem quotient_afterOperand_openBracket (object : Node) (callable : Bool) (outer : List Pending)
    (n : Nat) (bs : List (Bracket × List Pending)) :
    quotient (.symbol .openBracket) (afterOperand callable outer.isEmpty (closing (endings n) bs)) =
      atOperand (endings n) true ((.index object, outer) :: bs) := by
  rw [quotient_afterOperand _ callable _ (closing_mono _ bs), quotient_tails,
    quotient_closing_eq_zero rfl, atOperand_index, afterOperand_false]
  simp [isOperator, Symbol.binary?, mul_assoc]

theorem quotient_afterOperand_openParen (callable alone : Bool) (n : Nat)
    (bs : List (Bracket × List Pending)) :
    quotient (.symbol .openParen) (afterOperand callable alone (closing (endings n) bs)) =
      if callable = true then listed (afterOperand false alone (closing (endings n) bs)) else 0 := by
  rw [quotient_afterOperand _ callable _ (closing_mono _ bs), quotient_tails,
    quotient_closing_eq_zero rfl, afterOperand_false, ← listed_mul]
  cases callable <;> simp [isOperator, Symbol.binary?]

end Scriptlet.Reader
