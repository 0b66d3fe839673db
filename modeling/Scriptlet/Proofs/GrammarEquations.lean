import Mathlib.Computability.Language
import Mathlib.Order.CompletePartialOrder
import Mathlib.Tactic.Common
import Scriptlet.Proofs.Grammar

/-!
# The grammar as a system of equations

The parts of the grammar as languages. They satisfy equations in the algebra of languages, where a sum
is a choice and a product is a sequence, and from the equations follows what a text can go on with
once its first token is known: the quotient of the language by that token. The quotient of a part of
the grammar is again put together from parts of the grammar, which is why a program can be read
without looking ahead.

* `quotient k l`: what may follow `k` in the texts of `l`.
* `expressions_eq`, `tails_eq`, `elements_eq`: the equations for expressions, for what may follow a
  primary expression, and for lists.
* `quotient_expressions`, `quotient_tails`: their quotients by any token.
-/

namespace Scriptlet.Grammar

open Scriptlet.Token (Kind)

/-- Sets of texts, where a text is the list of the kinds of its tokens. -/
abbrev Texts := Language Kind

/-! ## Quotients -/

/-- What may follow the token `k` in the texts of `l`. -/
def quotient (k : Kind) (l : Texts) : Texts := {w | k :: w ∈ l}

/-- The texts of one token of a class. -/
def single (p : Kind → Bool) : Texts := {w | ∃ k, p k = true ∧ w = [k]}

/-- The text of one given token. -/
def word (k : Kind) : Texts := single (· == k)

theorem mem_quotient {k : Kind} {l : Texts} {w : List Kind} : w ∈ quotient k l ↔ k :: w ∈ l :=
  Iff.rfl

theorem mem_single {p : Kind → Bool} {w : List Kind} : w ∈ single p ↔ ∃ k, p k = true ∧ w = [k] :=
  Iff.rfl

theorem mem_single_mul {p : Kind → Bool} {l : Texts} {w : List Kind} :
    w ∈ single p * l ↔ ∃ k v, p k = true ∧ v ∈ l ∧ w = k :: v := by
  rw [Language.mem_mul]
  constructor
  · rintro ⟨a, ⟨k, hk, rfl⟩, v, hv, rfl⟩
    exact ⟨k, v, hk, hv, rfl⟩
  · rintro ⟨k, v, hk, hv, rfl⟩
    exact ⟨[k], ⟨k, hk, rfl⟩, v, hv, rfl⟩

theorem mem_word {k : Kind} {w : List Kind} : w ∈ word k ↔ w = [k] := by
  unfold word
  rw [mem_single]
  constructor
  · rintro ⟨k', hk, rfl⟩
    rw [beq_iff_eq.1 hk]
  · rintro rfl
    exact ⟨k, beq_self_eq_true k, rfl⟩

theorem mem_word_mul {k : Kind} {l : Texts} {w : List Kind} :
    w ∈ word k * l ↔ ∃ v ∈ l, w = k :: v := by
  unfold word
  rw [mem_single_mul]
  constructor
  · rintro ⟨k', v, hk, hv, rfl⟩
    exact ⟨v, hv, by rw [beq_iff_eq.1 hk]⟩
  · rintro ⟨v, hv, rfl⟩
    exact ⟨k, v, beq_self_eq_true k, hv, rfl⟩

theorem quotient_add (k : Kind) (l m : Texts) :
    quotient k (l + m) = quotient k l + quotient k m := rfl

theorem quotient_zero (k : Kind) : quotient k 0 = 0 := rfl

theorem quotient_one (k : Kind) : quotient k 1 = 0 := by
  ext w
  rw [mem_quotient, Language.mem_one]
  exact ⟨fun h => absurd h (List.cons_ne_nil _ _), fun h => absurd h (Language.notMem_zero w)⟩

theorem quotient_single_mul (k : Kind) (p : Kind → Bool) (l : Texts) :
    quotient k (single p * l) = if p k = true then l else 0 := by
  ext w
  rw [mem_quotient, mem_single_mul]
  split_ifs with h
  · constructor
    · rintro ⟨k', v, -, hv, heq⟩
      cases heq
      exact hv
    · exact fun hw => ⟨k, w, h, hw, rfl⟩
  · constructor
    · rintro ⟨k', v, hk, -, heq⟩
      cases heq
      exact absurd hk h
    · exact fun hw => absurd hw (Language.notMem_zero w)

theorem quotient_word_mul (k k' : Kind) (l : Texts) :
    quotient k (word k' * l) = if k = k' then l else 0 := by
  unfold word
  rw [quotient_single_mul]
  simp only [beq_iff_eq]

theorem quotient_word (k k' : Kind) : quotient k (word k') = if k = k' then 1 else 0 := by
  rw [← mul_one (word k'), quotient_word_mul]

theorem quotient_word_mul_self (k : Kind) (l : Texts) : quotient k (word k * l) = l :=
  (quotient_word_mul k k l).trans (if_pos rfl)

theorem quotient_word_mul_of_ne {k k' : Kind} (h : k ≠ k') (l : Texts) :
    quotient k (word k' * l) = 0 :=
  (quotient_word_mul k k' l).trans (if_neg h)

/-- The first token of a product belongs to its first factor, unless that may be empty. -/
theorem quotient_mul {l : Texts} (h : [] ∉ l) (k : Kind) (m : Texts) :
    quotient k (l * m) = quotient k l * m := by
  ext w
  rw [mem_quotient, Language.mem_mul, Language.mem_mul]
  constructor
  · rintro ⟨a, ha, b, hb, heq⟩
    cases a with
    | nil => exact absurd ha h
    | cons c a =>
      cases heq
      exact ⟨a, ha, b, hb, rfl⟩
  · rintro ⟨a, ha, b, hb, rfl⟩
    exact ⟨k :: a, ha, b, hb, rfl⟩

/-- A factor that may be empty lets the other factor come first. -/
theorem quotient_mul_of_nil_mem {l : Texts} (h : [] ∈ l) (k : Kind) (m : Texts) :
    quotient k (l * m) = quotient k m + quotient k l * m := by
  ext w
  rw [mem_quotient, Language.mem_add, Language.mem_mul, Language.mem_mul, mem_quotient]
  constructor
  · rintro ⟨a, ha, b, hb, heq⟩
    cases a with
    | nil =>
      rw [List.nil_append] at heq
      exact .inl (heq ▸ hb)
    | cons c a =>
      cases heq
      exact .inr ⟨a, ha, b, hb, rfl⟩
  · rintro (hw | ⟨a, ha, b, hb, rfl⟩)
    · exact ⟨[], h, k :: w, hw, rfl⟩
    · exact ⟨k :: a, ha, b, hb, rfl⟩

theorem le_mul_of_nil_mem {l : Texts} (h : [] ∈ l) (m : Texts) : m ≤ l * m :=
  fun w hw => Language.mem_mul.2 ⟨[], h, w, hw, rfl⟩

theorem quotient_mono (k : Kind) {l m : Texts} (h : l ≤ m) : quotient k l ≤ quotient k m :=
  fun _ hw => h hw

/-! ## Parts of the grammar -/

/-- Is a token of this kind a literal? -/
def isLiteral : Kind → Bool
  | .int _ | .str _ | .bool _ => true
  | _ => false

/-- Is a token of this kind a name? -/
def isName : Kind → Bool
  | .ident _ => true
  | _ => false

/-- May a token of this kind stand before an operand? -/
def isSign : Kind → Bool
  | .symbol s => s.isUnary
  | _ => false

/-- May a token of this kind stand between two operands? -/
def isOperator : Kind → Bool
  | .symbol s => s.binary?.isSome
  | _ => false

def names : Texts := single isName

def bareNames : Texts := {w | Name w}

def expressions : Texts := {w | Expression w}

def operations : Texts := {w | Operations w}

def unaries : Texts := {w | Unary w}

def operands : Texts := {w | Operand w}

def suffixes (callable : Bool) : Texts := {w | Suffixes callable w}

def primaries : Texts := {w | Primary w}

def elements : Texts := {w | Elements w}

/-- The elements of a list, the parenthesis after them, and a text of `l`. -/
def listed (l : Texts) : Texts := elements * (word (.symbol .closeParen) * l)

/-- What may follow a primary expression inside of an expression. -/
def tails (callable : Bool) : Texts := suffixes callable * operations

/-- A path from its colons on, the list of its arguments, and a text of `l`. -/
def calledPath (l : Texts) : Texts :=
  word (.symbol .doubleColon) * (names * (word (.symbol .openParen) * listed l))

/-! ## The equations -/

theorem bareNames_eq : bareNames =
    names + word (.symbol .openParen) * (bareNames * word (.symbol .closeParen)) := by
  ext w
  rw [Language.mem_add, mem_word_mul]
  constructor
  · intro h
    cases h with
    | ident n => exact .inl ⟨_, rfl, rfl⟩
    | @group n h =>
      exact .inr ⟨_, Language.append_mem_mul h (mem_word.2 rfl), rfl⟩
  · rintro (⟨k, hk, rfl⟩ | ⟨v, hv, rfl⟩)
    · cases k with
      | ident n => exact .ident n
      | int | str | bool | keyword | symbol | eof => cases hk
    · obtain ⟨n, hn, c, hc, rfl⟩ := Language.mem_mul.1 hv
      rw [mem_word.1 hc]
      exact .group hn

theorem unaries_eq : unaries = single isSign * unaries + operands := by
  ext w
  rw [Language.mem_add, mem_single_mul]
  constructor
  · intro h
    cases h with
    | @sign s u hs hu => exact .inl ⟨.symbol s, u, hs, hu, rfl⟩
    | operand h => exact .inr h
  · rintro (⟨k, u, hk, hu, rfl⟩ | h)
    · cases k with
      | symbol s => exact .sign hk hu
      | int | str | bool | ident | keyword | eof => cases hk
    · exact .operand h

theorem expressions_eq_mul : expressions = unaries * operations := by
  ext w
  rw [Language.mem_mul]
  constructor
  · rintro ⟨hu, hops⟩
    exact ⟨_, hu, _, hops, rfl⟩
  · rintro ⟨u, hu, ops, hops, rfl⟩
    exact .chain hu hops

theorem operations_eq : operations = 1 + single isOperator * expressions := by
  ext w
  rw [Language.mem_add, mem_single_mul, Language.mem_one]
  constructor
  · intro h
    cases h with
    | nil => exact .inl rfl
    | @cons s u ops hs hu hops =>
      exact .inr ⟨.symbol s, u ++ ops, hs, Expression.chain hu hops, rfl⟩
  · rintro (rfl | ⟨k, v, hk, ⟨hu, hops⟩, rfl⟩)
    · exact .nil
    · cases k with
      | symbol s => exact .cons hk hu hops
      | int | str | bool | ident | keyword | eof => cases hk

theorem suffixes_eq (callable : Bool) : suffixes callable =
    1 + word (.symbol .openBracket) * (expressions * (word (.symbol .closeBracket) * suffixes false))
      + if callable then word (.symbol .openParen) * listed (suffixes false) else 0 := by
  ext w
  rw [Language.mem_add, Language.mem_add, mem_word_mul, Language.mem_one]
  constructor
  · intro h
    cases h with
    | nil => exact .inl (.inl rfl)
    | @index _ e ss he hss =>
      exact .inl (.inr ⟨_, Language.append_mem_mul he (mem_word_mul.2 ⟨_, hss, rfl⟩), rfl⟩)
    | @call es ss hes hss =>
      refine .inr (mem_word_mul.2 ⟨_, ?_, rfl⟩)
      exact Language.append_mem_mul hes (mem_word_mul.2 ⟨_, hss, rfl⟩)
  · rintro ((rfl | ⟨v, hv, rfl⟩) | h)
    · exact .nil
    · obtain ⟨e, he, u, hu, rfl⟩ := Language.mem_mul.1 hv
      obtain ⟨ss, hss, rfl⟩ := mem_word_mul.1 hu
      exact .index he hss
    · split_ifs at h with hc
      · obtain ⟨v, hv, rfl⟩ := mem_word_mul.1 h
        obtain ⟨es, hes, u, hu, rfl⟩ := Language.mem_mul.1 hv
        obtain ⟨ss, hss, rfl⟩ := mem_word_mul.1 hu
        rw [hc]
        exact .call hes hss
      · exact absurd h (Language.notMem_zero w)

theorem operands_eq : operands =
    primaries * suffixes false + bareNames * suffixes true + names * calledPath (suffixes false) := by
  ext w
  rw [Language.mem_add, Language.mem_add]
  constructor
  · intro h
    cases h with
    | plain hp hss => exact .inl (.inl (Language.append_mem_mul hp hss))
    | named hn hss => exact .inl (.inr (Language.append_mem_mul hn hss))
    | @path m f es ss hes hss =>
      refine .inr (mem_single_mul.2 ⟨.ident m, _, rfl, mem_word_mul.2 ⟨_, ?_, rfl⟩, rfl⟩)
      refine mem_single_mul.2 ⟨.ident f, _, rfl, mem_word_mul.2 ⟨_, ?_, rfl⟩, rfl⟩
      exact Language.append_mem_mul hes (mem_word_mul.2 ⟨_, hss, rfl⟩)
  · rintro ((h | h) | h)
    · obtain ⟨p, hp, ss, hss, rfl⟩ := Language.mem_mul.1 h
      exact .plain hp hss
    · obtain ⟨n, hn, ss, hss, rfl⟩ := Language.mem_mul.1 h
      exact .named hn hss
    · obtain ⟨m, _, hm, hcolons, rfl⟩ := mem_single_mul.1 h
      obtain ⟨_, hsymbol, rfl⟩ := mem_word_mul.1 hcolons
      obtain ⟨f, _, hf, hopen, rfl⟩ := mem_single_mul.1 hsymbol
      obtain ⟨_, hlisted, rfl⟩ := mem_word_mul.1 hopen
      obtain ⟨es, hes, _, hclose, rfl⟩ := Language.mem_mul.1 hlisted
      obtain ⟨ss, hss, rfl⟩ := mem_word_mul.1 hclose
      cases m with
      | ident m =>
        cases f with
        | ident f => exact .path hes hss
        | int | str | bool | keyword | symbol | eof => cases hf
      | int | str | bool | keyword | symbol | eof => cases hm

theorem primaries_eq : primaries = single isLiteral + names +
    word (.symbol .openParen) * (word (.symbol .closeParen) +
      expressions * word (.symbol .closeParen) +
      expressions * (word (.symbol .comma) * (elements * word (.symbol .closeParen)))) := by
  ext w
  rw [Language.mem_add, Language.mem_add, mem_word_mul]
  constructor
  · intro h
    cases h with
    | int n => exact .inl (.inl ⟨_, rfl, rfl⟩)
    | str s => exact .inl (.inl ⟨_, rfl, rfl⟩)
    | bool b => exact .inl (.inl ⟨_, rfl, rfl⟩)
    | name n => exact .inl (.inr ⟨_, rfl, rfl⟩)
    | unit => exact .inr ⟨_, .inl (.inl (mem_word.2 rfl)), rfl⟩
    | group he => exact .inr ⟨_, .inl (.inr (Language.append_mem_mul he (mem_word.2 rfl))), rfl⟩
    | @tuple e es he hes =>
      refine .inr ⟨e ++ .symbol .comma :: (es ++ [.symbol .closeParen]), .inr ?_, ?_⟩
      · refine Language.append_mem_mul he (mem_word_mul.2 ⟨_, ?_, rfl⟩)
        exact Language.append_mem_mul hes (mem_word.2 rfl)
      · simp only [List.cons_append, List.append_assoc]
  · rintro ((⟨k, hk, rfl⟩ | ⟨k, hk, rfl⟩) | ⟨v, (h | h) | h, rfl⟩)
    · cases k with
      | int n => exact .int n
      | str s => exact .str s
      | bool b => exact .bool b
      | ident | keyword | symbol | eof => cases hk
    · cases k with
      | ident n => exact .name n
      | int | str | bool | keyword | symbol | eof => cases hk
    · rw [mem_word.1 h]
      exact .unit
    · obtain ⟨e, he, c, hc, rfl⟩ := Language.mem_mul.1 h
      rw [mem_word.1 hc]
      exact .group he
    · obtain ⟨e, he, _, hcomma, rfl⟩ := Language.mem_mul.1 h
      obtain ⟨_, hclose, rfl⟩ := mem_word_mul.1 hcomma
      obtain ⟨es, hes, c, hc, rfl⟩ := Language.mem_mul.1 hclose
      have htuple := Primary.tuple he hes
      simp only [List.cons_append, List.append_assoc] at htuple
      rw [mem_word.1 hc]
      exact htuple

theorem elements_eq :
    elements = 1 + expressions + expressions * (word (.symbol .comma) * elements) := by
  ext w
  rw [Language.mem_add, Language.mem_add, Language.mem_one]
  constructor
  · intro h
    cases h with
    | nil => exact .inl (.inl rfl)
    | last he => exact .inl (.inr he)
    | cons he hes => exact .inr (Language.append_mem_mul he (mem_word_mul.2 ⟨_, hes, rfl⟩))
  · rintro ((rfl | h) | h)
    · exact .nil
    · exact .last h
    · obtain ⟨e, he, _, hcomma, rfl⟩ := Language.mem_mul.1 h
      obtain ⟨es, hes, rfl⟩ := mem_word_mul.1 hcomma
      exact .cons he hes

/-! ### Expressions and tails -/

theorem listed_mul (l m : Texts) : listed l * m = listed (l * m) := by
  unfold listed
  rw [mul_assoc, mul_assoc]

theorem calledPath_mul (l m : Texts) : calledPath l * m = calledPath (l * m) := by
  unfold calledPath
  rw [mul_assoc, mul_assoc, mul_assoc, listed_mul]

theorem expressions_eq : expressions = single isSign * expressions + primaries * tails false +
    bareNames * tails true + names * calledPath (tails false) := by
  calc expressions = (single isSign * unaries + operands) * operations := by
        rw [← unaries_eq, expressions_eq_mul]
    _ = single isSign * (unaries * operations) + operands * operations := by
        rw [add_mul, mul_assoc]
    _ = _ := by
        rw [← expressions_eq_mul, operands_eq, add_mul, add_mul, mul_assoc, mul_assoc, mul_assoc,
          calledPath_mul]
        unfold tails
        simp only [add_assoc]

theorem tails_eq (callable : Bool) : tails callable =
    1 + single isOperator * expressions +
      word (.symbol .openBracket) * (expressions * (word (.symbol .closeBracket) * tails false)) +
      if callable then word (.symbol .openParen) * listed (tails false) else 0 := by
  calc tails callable = operations +
        word (.symbol .openBracket) * (expressions * (word (.symbol .closeBracket) * tails false)) +
        (if callable then word (.symbol .openParen) * listed (suffixes false) else 0) *
          operations := by
        unfold tails
        rw [suffixes_eq callable, add_mul, add_mul, one_mul]
        simp only [mul_assoc]
    _ = _ := by
        rw [ite_mul, zero_mul, mul_assoc, listed_mul, ← tails]
        nth_rewrite 1 [operations_eq]
        rfl

theorem nil_mem_tails (callable : Bool) : [] ∈ tails callable := by
  rw [tails_eq]
  exact .inl (.inl (.inl rfl))

/-! ## Inclusions -/

/-- A name is an expression. -/
theorem bareNames_le : bareNames ≤ expressions := by
  intro w h
  have he := Expression.chain (.operand (.named h .nil)) .nil
  rwa [List.append_nil, List.append_nil] at he

/-- Where a call may come next, anything else may come too. -/
theorem tails_false_le : tails false ≤ tails true := by
  have hfalse := tails_eq false
  rw [if_neg Bool.false_ne_true, add_zero] at hfalse
  rw [tails_eq true, ← hfalse]
  exact le_self_add

theorem nil_notMem_bareNames : [] ∉ bareNames := by
  rw [bareNames_eq, Language.mem_add, mem_word_mul]
  rintro (⟨k, -, heq⟩ | ⟨v, -, heq⟩) <;> cases heq

theorem nil_notMem_primaries : [] ∉ primaries := by
  rw [primaries_eq, Language.mem_add, Language.mem_add, mem_word_mul]
  rintro ((⟨k, -, heq⟩ | ⟨k, -, heq⟩) | ⟨v, -, heq⟩) <;> cases heq

theorem nil_notMem_mul {l : Texts} (h : [] ∉ l) (m : Texts) : [] ∉ l * m := by
  rw [Language.mem_mul]
  rintro ⟨a, ha, b, -, heq⟩
  rw [(List.append_eq_nil_iff.1 heq).1] at ha
  exact h ha

theorem nil_notMem_single (p : Kind → Bool) : [] ∉ single p := by
  rintro ⟨k, -, heq⟩
  cases heq

theorem nil_notMem_expressions : [] ∉ expressions := by
  rw [expressions_eq, Language.mem_add, Language.mem_add, Language.mem_add]
  rintro (((h | h) | h) | h)
  · exact nil_notMem_mul (nil_notMem_single _) _ h
  · exact nil_notMem_mul nil_notMem_primaries _ h
  · exact nil_notMem_mul nil_notMem_bareNames _ h
  · exact nil_notMem_mul (nil_notMem_single _) _ h

/-! ## Quotients of the parts -/

/-- What may follow an opening parenthesis inside of an expression. -/
def parenthesized : Texts :=
  word (.symbol .closeParen) * tails false +
    expressions * (word (.symbol .closeParen) * tails false) +
    expressions * (word (.symbol .comma) * listed (tails false)) +
    bareNames * (word (.symbol .closeParen) * tails true)

theorem quotient_single (k : Kind) (p : Kind → Bool) :
    quotient k (single p) = if p k = true then 1 else 0 := by
  rw [← mul_one (single p), quotient_single_mul]

theorem quotient_bareNames (k : Kind) : quotient k bareNames =
    (if isName k = true then 1 else 0) +
      if k = .symbol .openParen then bareNames * word (.symbol .closeParen) else 0 := by
  conv_lhs => rw [bareNames_eq]
  rw [quotient_add, names, quotient_single, quotient_word_mul]

theorem quotient_primaries (k : Kind) : quotient k primaries =
    (if isLiteral k = true then 1 else 0) + (if isName k = true then 1 else 0) +
      if k = .symbol .openParen then word (.symbol .closeParen) +
        expressions * word (.symbol .closeParen) +
        expressions * (word (.symbol .comma) * (elements * word (.symbol .closeParen))) else 0 := by
  conv_lhs => rw [primaries_eq]
  rw [quotient_add, quotient_add, names, quotient_single, quotient_single, quotient_word_mul]

theorem quotient_expressions (k : Kind) : quotient k expressions =
    (if isSign k = true then expressions else 0) +
      (if isLiteral k = true then tails false else 0) +
      (if isName k = true then tails true + calledPath (tails false) else 0) +
      if k = .symbol .openParen then parenthesized else 0 := by
  conv_lhs => rw [expressions_eq]
  rw [quotient_add, quotient_add, quotient_add, names, quotient_single_mul, quotient_single_mul,
    quotient_mul nil_notMem_primaries, quotient_mul nil_notMem_bareNames, quotient_primaries,
    quotient_bareNames]
  have hcalls : tails false + tails true = tails true := (Language.le_iff _ _).1 tails_false_le
  cases k with
  | int | str | bool | keyword | eof => simp [isSign, isLiteral, isName]
  | ident n => simp [isSign, isLiteral, isName, hcalls]
  | symbol s =>
    by_cases hs : s = .openParen
    · subst hs
      simp [isSign, isLiteral, isName, Symbol.isUnary, parenthesized, listed, add_mul, mul_assoc]
    · simp [isSign, isLiteral, isName, hs]

theorem quotient_expressions_eq_zero {k : Kind} (hsign : isSign k = false)
    (hliteral : isLiteral k = false) (hname : isName k = false) (hopen : k ≠ .symbol .openParen) :
    quotient k expressions = 0 := by
  rw [quotient_expressions, hsign, hliteral, hname, if_neg hopen]
  simp only [Bool.false_eq_true, if_false, add_zero]

theorem quotient_ident_names_mul (n : String) (l : Texts) :
    quotient (.ident n) (names * l) = l :=
  (quotient_single_mul (.ident n) isName l).trans (if_pos rfl)

theorem quotient_names_mul_eq_zero {k : Kind} (h : ∀ n, k = .ident n → False) (l : Texts) :
    quotient k (names * l) = 0 := by
  have hname : isName k = false := by
    cases k with
    | ident n => exact (h n rfl).elim
    | int | str | bool | keyword | symbol | eof => rfl
  rw [names, quotient_single_mul, hname, if_neg Bool.false_ne_true]

theorem quotient_calledPath (k : Kind) (l : Texts) : quotient k (calledPath l) =
    if k = .symbol .doubleColon then names * (word (.symbol .openParen) * listed l) else 0 := by
  rw [calledPath, quotient_word_mul]

/-- What follows a primary expression starts with an operator or a bracket. -/
theorem quotient_tails (k : Kind) (callable : Bool) : quotient k (tails callable) =
    (if isOperator k = true then expressions else 0) +
      (if k = .symbol .openBracket then
        expressions * (word (.symbol .closeBracket) * tails false) else 0) +
      if k = .symbol .openParen ∧ callable = true then listed (tails false) else 0 := by
  conv_lhs => rw [tails_eq]
  cases callable with
  | false =>
    simp only [quotient_add, quotient_one, quotient_single_mul, quotient_word_mul, quotient_zero,
      Bool.false_eq_true, if_false, and_false, zero_add]
  | true =>
    simp only [quotient_add, quotient_one, quotient_single_mul, quotient_word_mul, if_true, and_true,
      zero_add]

/-! ## Statements -/

/-- Statements and then a text of `close`. -/
def inBlock (close : Texts) : Texts :=
  {w | ∃ ss rest, w = ss ++ rest ∧ Statements ss rest ∧ rest ∈ close}

/-- What may come where a statement is due and `n` blocks are open. -/
def programs : Nat → Texts
  | 0 => inBlock (word .eof)
  | n + 1 => inBlock (word (.symbol .closeBrace) * programs n)

/-- The end of what is open: of the innermost block, or of the program. -/
def closers : Nat → Texts
  | 0 => word .eof
  | n + 1 => word (.symbol .closeBrace) * programs n

/-- What may come where the end of a statement is due and `n` blocks are open. -/
def endings (n : Nat) : Texts :=
  {w | ∃ ending rest, w = ending ++ rest ∧ Ending ending rest ∧ rest ∈ programs n}

/-- What may come after the name of a binding. -/
def assigned (n : Nat) : Texts := word (.symbol .assign) * (expressions * endings n)

/-- What may come after the path of a `use` statement. -/
def useTails (n : Nat) : Texts := word (.keyword .asWord) * (names * endings n) + endings n

theorem programs_eq_inBlock (n : Nat) : programs n = inBlock (closers n) := by
  cases n <;> rfl

theorem mem_inBlock {close : Texts} {w : List Kind} : w ∈ inBlock close ↔
    w ∈ close ∨ (∃ v ∈ inBlock close, w = .symbol .semicolon :: v) ∨
      ∃ s rest, w = s ++ rest ∧ Statement s rest ∧ rest ∈ inBlock close := by
  constructor
  · rintro ⟨ss, rest, rfl, hss, hrest⟩
    cases hss with
    | nil => exact .inl hrest
    | @semicolon ss _ hss => exact .inr (.inl ⟨_, ⟨ss, rest, rfl, hss, hrest⟩, rfl⟩)
    | @cons s ss _ hs hss =>
      exact .inr (.inr ⟨s, ss ++ rest, List.append_assoc _ _ _, hs, ss, rest, rfl, hss, hrest⟩)
  · rintro (h | ⟨_, ⟨ss, rest, rfl, hss, hrest⟩, rfl⟩ | ⟨s, _, rfl, hs, ss, rest, rfl, hss, hrest⟩)
    · exact ⟨[], w, rfl, .nil, h⟩
    · exact ⟨.symbol .semicolon :: ss, rest, rfl, .semicolon hss, hrest⟩
    · exact ⟨s ++ ss, rest, (List.append_assoc _ _ _).symm, .cons hs hss, hrest⟩

theorem mem_programs_semicolon {n : Nat} {w : List Kind} (hw : w ∈ programs n) :
    .symbol .semicolon :: w ∈ programs n := by
  rw [programs_eq_inBlock] at hw ⊢
  exact mem_inBlock.2 (.inr (.inl ⟨w, hw, rfl⟩))

theorem append_mem_endings {n : Nat} {ending rest : List Kind} (h : Ending ending rest)
    (hrest : rest ∈ programs n) : ending ++ rest ∈ endings n :=
  ⟨ending, rest, rfl, h, hrest⟩

/-- A statement where `n` blocks are open, and what may come after it. -/
def statements (n : Nat) : Texts :=
  word (.symbol .openBrace) * programs (n + 1) +
    word (.keyword .useWord) * (names * (word (.symbol .doubleColon) * (names * useTails n))) +
    word (.keyword .letWord) * (names * assigned n) + names * assigned n + expressions * endings n

/-- Each statement, followed by what may come after it, is one of the sums' texts. -/
theorem append_mem_statements {n : Nat} {s rest : List Kind} (hs : Statement s rest)
    (hrest : rest ∈ programs n) : s ++ rest ∈ statements n := by
  have hassigned {e ending : List Kind} (he : Expression e) (hending : Ending ending rest) :
      .symbol .assign :: (e ++ ending ++ rest) ∈ assigned n := by
    refine mem_word_mul.2 ⟨_, ?_, rfl⟩
    rw [List.append_assoc]
    exact Language.append_mem_mul he (append_mem_endings hending hrest)
  have huse {m f : String} {tail : List Kind} (htail : tail ∈ useTails n) :
      .keyword .useWord :: .ident m :: .symbol .doubleColon :: .ident f :: tail ∈
        word (.keyword .useWord) * (names * (word (.symbol .doubleColon) * (names * useTails n))) := by
    refine mem_word_mul.2 ⟨_, mem_single_mul.2 ⟨_, _, rfl, ?_, rfl⟩, rfl⟩
    exact mem_word_mul.2 ⟨_, mem_single_mul.2 ⟨_, _, rfl, htail, rfl⟩, rfl⟩
  cases hs with
  | @block ss semicolon _ hsemicolon hss =>
    have hafter : semicolon ++ rest ∈ programs n := by
      rcases hsemicolon with rfl | rfl
      · exact hrest
      · exact mem_programs_semicolon hrest
    refine .inl (.inl (.inl (.inl (mem_word_mul.2 ⟨ss ++ .symbol .closeBrace :: (semicolon ++ rest),
      ⟨ss, _, rfl, hss, mem_word_mul.2 ⟨_, hafter, rfl⟩⟩, ?_⟩))))
    simp only [List.cons_append, List.append_assoc]
  | use hending => exact .inl (.inl (.inl (.inr (huse (.inr (append_mem_endings hending hrest))))))
  | useAs hending =>
    have htail := append_mem_endings hending hrest
    exact .inl (.inl (.inl (.inr (huse
      (.inl (mem_word_mul.2 ⟨_, mem_single_mul.2 ⟨_, _, rfl, htail, rfl⟩, rfl⟩))))))
  | binding he hending => exact .inl (.inr (mem_single_mul.2 ⟨_, _, rfl, hassigned he hending, rfl⟩))
  | letBinding he hending =>
    refine .inl (.inl (.inr (mem_word_mul.2 ⟨_, ?_, rfl⟩)))
    exact mem_single_mul.2 ⟨_, _, rfl, hassigned he hending, rfl⟩
  | expression he hending =>
    rw [List.append_assoc]
    exact .inr (Language.append_mem_mul he (append_mem_endings hending hrest))

theorem exists_of_mem_names_mul {l : Texts} {w : List Kind} (h : w ∈ names * l) :
    ∃ n, ∃ v ∈ l, w = .ident n :: v := by
  obtain ⟨k, v, hk, hv, rfl⟩ := mem_single_mul.1 h
  cases k with
  | ident n => exact ⟨n, v, hv, rfl⟩
  | int | str | bool | keyword | symbol | eof => cases hk

theorem exists_of_mem_assigned {n : Nat} {w : List Kind} (h : w ∈ assigned n) :
    ∃ e ending rest, w = .symbol .assign :: (e ++ ending ++ rest) ∧ Expression e ∧
      Ending ending rest ∧ rest ∈ programs n := by
  obtain ⟨_, hvalue, rfl⟩ := mem_word_mul.1 h
  obtain ⟨e, he, _, ⟨ending, rest, rfl, hending, hrest⟩, rfl⟩ := Language.mem_mul.1 hvalue
  exact ⟨e, ending, rest, by rw [List.append_assoc], he, hending, hrest⟩

/-- And each such text starts with a statement. -/
theorem exists_statement_of_mem {n : Nat} {w : List Kind} (h : w ∈ statements n) :
    ∃ s rest, w = s ++ rest ∧ Statement s rest ∧ rest ∈ programs n := by
  rcases h with (((h | h) | h) | h) | h
  · obtain ⟨_, ⟨ss, _, rfl, hss, hclose⟩, rfl⟩ := mem_word_mul.1 h
    obtain ⟨rest, hrest, rfl⟩ := mem_word_mul.1 hclose
    refine ⟨.symbol .openBrace :: ss ++ [.symbol .closeBrace], rest, ?_, .block (.inl rfl) hss, hrest⟩
    simp only [List.cons_append, List.append_assoc, List.nil_append]
  · obtain ⟨_, hmodule, rfl⟩ := mem_word_mul.1 h
    obtain ⟨m, _, hcolons, rfl⟩ := exists_of_mem_names_mul hmodule
    obtain ⟨_, hsymbol, rfl⟩ := mem_word_mul.1 hcolons
    obtain ⟨f, _, htail | ⟨ending, rest, rfl, hending, hrest⟩, rfl⟩ := exists_of_mem_names_mul hsymbol
    · obtain ⟨_, hname, rfl⟩ := mem_word_mul.1 htail
      obtain ⟨a, _, ⟨ending, rest, rfl, hending, hrest⟩, rfl⟩ := exists_of_mem_names_mul hname
      exact ⟨_, rest, rfl, .useAs hending, hrest⟩
    · exact ⟨_, rest, rfl, .use hending, hrest⟩
  · obtain ⟨_, hname, rfl⟩ := mem_word_mul.1 h
    obtain ⟨a, _, hassign, rfl⟩ := exists_of_mem_names_mul hname
    obtain ⟨e, ending, rest, rfl, he, hending, hrest⟩ := exists_of_mem_assigned hassign
    exact ⟨_, rest, rfl, .letBinding he hending, hrest⟩
  · obtain ⟨a, _, hassign, rfl⟩ := exists_of_mem_names_mul h
    obtain ⟨e, ending, rest, rfl, he, hending, hrest⟩ := exists_of_mem_assigned hassign
    exact ⟨_, rest, rfl, .binding he hending, hrest⟩
  · obtain ⟨e, he, _, ⟨ending, rest, rfl, hending, hrest⟩, rfl⟩ := Language.mem_mul.1 h
    exact ⟨e ++ ending, rest, (List.append_assoc _ _ _).symm, .expression he hending, hrest⟩

/-- Where a statement is due, the end of what is open, a semicolon or a statement may come. -/
theorem programs_eq (n : Nat) :
    programs n = closers n + word (.symbol .semicolon) * programs n + statements n := by
  ext w
  rw [Language.mem_add, Language.mem_add, mem_word_mul]
  nth_rewrite 1 [programs_eq_inBlock]
  rw [mem_inBlock, ← programs_eq_inBlock, or_assoc]
  constructor
  · rintro (h | h | ⟨s, rest, rfl, hs, hrest⟩)
    · exact .inl h
    · exact .inr (.inl h)
    · exact .inr (.inr (append_mem_statements hs hrest))
  · rintro (h | h | h)
    · exact .inl h
    · exact .inr (.inl h)
    · exact .inr (.inr (exists_statement_of_mem h))

/-! ### Quotients -/

theorem quotient_endings_semicolon (n : Nat) :
    quotient (.symbol .semicolon) (endings n) = programs n := by
  ext w
  rw [mem_quotient]
  constructor
  · rintro ⟨ending, rest, heq, hending, hrest⟩
    cases hending <;> cases heq
    exact hrest
  · exact fun hw => ⟨[.symbol .semicolon], w, rfl, .semicolon, hw⟩

theorem quotient_endings_of_closes {k : Kind} (hk : k = .symbol .closeBrace ∨ k = .eof) (n : Nat) :
    quotient k (endings n) = quotient k (programs n) := by
  ext w
  rw [mem_quotient, mem_quotient]
  constructor
  · rintro ⟨ending, rest, heq, hending, hrest⟩
    cases hending with
    | semicolon =>
      cases heq
      rcases hk with hk | hk <;> cases hk
    | brace => exact heq ▸ hrest
    | eof => exact heq ▸ hrest
  · intro hw
    rcases hk with rfl | rfl
    · exact ⟨[], _, rfl, .brace, hw⟩
    · exact ⟨[], _, rfl, .eof, hw⟩

theorem quotient_endings_eq_zero {k : Kind} (hsemicolon : k ≠ .symbol .semicolon)
    (hbrace : k ≠ .symbol .closeBrace) (heof : k ≠ .eof) (n : Nat) : quotient k (endings n) = 0 := by
  ext w
  rw [mem_quotient]
  constructor
  · rintro ⟨ending, rest, heq, hending, -⟩
    cases hending <;> cases heq <;> contradiction
  · exact fun hw => absurd hw (Language.notMem_zero w)

theorem quotient_closers_eq_zero {k : Kind} (hbrace : k ≠ .symbol .closeBrace) (heof : k ≠ .eof)
    (n : Nat) : quotient k (closers n) = 0 := by
  cases n with
  | zero => rw [closers, quotient_word, if_neg heof]
  | succ n => rw [closers, quotient_word_mul, if_neg hbrace]

theorem quotient_programs (k : Kind) (n : Nat) : quotient k (programs n) =
    quotient k (closers n) + (if k = .symbol .semicolon then programs n else 0) +
      ((if k = .symbol .openBrace then programs (n + 1) else 0) +
        (if k = .keyword .useWord then
          names * (word (.symbol .doubleColon) * (names * useTails n)) else 0) +
        (if k = .keyword .letWord then names * assigned n else 0) +
        (if isName k = true then assigned n else 0) + quotient k (expressions * endings n)) := by
  conv_lhs => rw [programs_eq]
  rw [statements, names]
  simp only [quotient_add, quotient_word_mul, quotient_single_mul]

/-- The closing brace and the end of input only end what is open. -/
theorem quotient_programs_of_closes {k : Kind} (hk : k = .symbol .closeBrace ∨ k = .eof) (n : Nat) :
    quotient k (programs n) = quotient k (closers n) := by
  have hexpression : quotient k expressions = 0 := by
    rcases hk with rfl | rfl <;> exact quotient_expressions_eq_zero rfl rfl rfl (by nofun)
  rw [quotient_programs, quotient_mul nil_notMem_expressions, hexpression]
  rcases hk with rfl | rfl <;> simp [isName]

/-- A token that starts no expression and ends nothing is a semicolon or starts another statement. -/
theorem quotient_programs_of_opens {k : Kind} (hbrace : k ≠ .symbol .closeBrace) (heof : k ≠ .eof)
    (hname : isName k = false) (hexpression : quotient k expressions = 0) (n : Nat) :
    quotient k (programs n) = (if k = .symbol .semicolon then programs n else 0) +
      ((if k = .symbol .openBrace then programs (n + 1) else 0) +
        (if k = .keyword .useWord then
          names * (word (.symbol .doubleColon) * (names * useTails n)) else 0) +
        (if k = .keyword .letWord then names * assigned n else 0)) := by
  rw [quotient_programs, quotient_closers_eq_zero hbrace heof, quotient_mul nil_notMem_expressions,
    hexpression, hname, if_neg Bool.false_ne_true, zero_mul, add_zero, add_zero, zero_add]

/-- A token of no other use starts an expression. -/
theorem quotient_programs_of_other {k : Kind} (hsemicolon : k ≠ .symbol .semicolon)
    (hopen : k ≠ .symbol .openBrace) (hbrace : k ≠ .symbol .closeBrace)
    (huse : k ≠ .keyword .useWord) (hlet : k ≠ .keyword .letWord) (hname : isName k = false)
    (heof : k ≠ .eof) (n : Nat) :
    quotient k (programs n) = quotient k (expressions * endings n) := by
  rw [quotient_programs, quotient_closers_eq_zero hbrace heof, if_neg hsemicolon, if_neg hopen,
    if_neg huse, if_neg hlet, hname, if_neg Bool.false_ne_true]
  simp only [zero_add]

theorem quotient_programs_ident (a : String) (n : Nat) : quotient (.ident a) (programs n) =
    assigned n + quotient (.ident a) (expressions * endings n) := by
  have hclosers : quotient (.ident a) (closers n) = 0 :=
    quotient_closers_eq_zero (by nofun) (by nofun) n
  rw [quotient_programs, hclosers]
  simp [isName]

end Scriptlet.Grammar
