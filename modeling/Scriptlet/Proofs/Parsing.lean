import Scriptlet.Proofs.Reading
import Scriptlet.Proofs.StateLanguages

/-!
# The reader follows the grammar

A token that the reader takes leads to the state of the quotient of the language by the token, and a
token that it refuses has an empty quotient. So a list of tokens is read to its end if it is in the
language of the first state, which is the language of all programs.

* `Follows l k x`: `x` is what the reader should do with a token of kind `k` where the texts of `l` may
  come. There is one lemma for each function of the reader, up to `take_follows`.
* `run_decides`: a run ends well if the text is in the language of the state, too deep nesting aside.
* `run_not_tooDeep`: a text is nested at most as deep as it is long.
* `ofTokensWithin_isOk_iff`: the lists of tokens that are read are the programs.
-/

namespace Scriptlet

namespace Reader

open Scriptlet.Grammar
open Scriptlet.Token (Kind)

/-! ## Steps -/

/-- Where the texts of `l` may come, `x` is the right answer to a token of kind `k`. After the end of
input nothing may come. -/
def Follows (l : Texts) (k : Kind) : Except Fault Reader → Prop
  | .ok r => quotient k l = if k = .eof then 1 else r.residual
  | .error fault => fault.cause = .nestingTooDeep ∨ quotient k l = 0

theorem Follows.congr {l l' : Texts} {k : Kind} {x : Except Fault Reader}
    (h : quotient k l = quotient k l') (hx : Follows l' k x) : Follows l k x := by
  cases x with
  | ok r => exact h.trans hx
  | error fault => exact hx.imp_right h.trans

theorem follows_goto {l : Texts} {k : Kind} {r : Reader} {mode : Mode} (hk : k ≠ .eof)
    (h : quotient k l = mode.residual r.blocks.length) : Follows l k (.ok (r.goto mode)) :=
  h.trans (if_neg hk).symm

theorem follows_deepen {l : Texts} {k : Kind} {r : Reader} (limit levels : Nat) (t : Token)
    (h : Follows l k (.ok r)) : Follows l k (deepen limit t levels r) := by
  unfold deepen
  split_ifs
  · exact h
  · exact .inl rfl

theorem follows_reject {l : Texts} {k : Kind} (t : Token) (expected : Expected)
    (h : quotient k l = 0) : Follows l k (reject t expected) := by
  unfold reject
  split
  · exact .inr h
  · exact .inr h

/-! ### Operands -/

theorem operand_follows (limit : Nat) (r : Reader) (p : Phrase) (t : Token) :
    Follows (atOperand (endings r.blocks.length) p.pending.isEmpty p.brackets) t.kind
      (r.operand limit p t) := by
  unfold operand
  split
  · next n hk =>
    rw [hk]
    exact follows_goto nofun (quotient_atOperand_literal rfl _ _ _)
  · next s hk =>
    rw [hk]
    exact follows_goto nofun (quotient_atOperand_literal rfl _ _ _)
  · next b hk =>
    rw [hk]
    exact follows_goto nofun (quotient_atOperand_literal rfl _ _ _)
  · next n hk =>
    rw [hk]
    exact follows_goto nofun (quotient_atOperand_name n _ _ _)
  · next hk =>
    rw [hk]
    exact follows_deepen _ _ t (follows_goto nofun (quotient_atOperand_openParen _ _ _ _))
  · next hk =>
    rw [hk]
    have hquotient := quotient_atOperand_closeParen (endings r.blocks.length) p.pending.isEmpty
      p.brackets
    split
    · next start outer rest hpending hbrackets =>
      rw [hpending, hbrackets] at hquotient ⊢
      exact follows_goto nofun (hquotient.trans (quotient_closingEmpty_closeParen (by nofun) _ _ _))
    · next start items outer rest hpending hbrackets =>
      rw [hpending, hbrackets] at hquotient ⊢
      exact follows_goto nofun (hquotient.trans (quotient_closingEmpty_closeParen (by nofun) _ _ _))
    · next callee arguments outer rest hpending hbrackets =>
      rw [hpending, hbrackets] at hquotient ⊢
      exact follows_goto nofun (hquotient.trans (quotient_closingEmpty_closeParen (by nofun) _ _ _))
    · next hgroup htuple hcall =>
      -- an operator waits, or the bracket is none of a list
      refine follows_reject t _ (hquotient.trans ?_)
      split_ifs with halone
      · have hpending : p.pending = [] := List.isEmpty_iff.1 halone
        match hbrackets : p.brackets with
        | [] | (.index _, _) :: _ => rfl
        | (.group start, outer) :: rest => exact (hgroup start outer rest hpending hbrackets).elim
        | (.tuple start items, outer) :: rest =>
          exact (htuple start items outer rest hpending hbrackets).elim
        | (.call callee arguments, outer) :: rest =>
          exact (hcall callee arguments outer rest hpending hbrackets).elim
      · rfl
  · next s hopen hclose hk =>
    rw [hk]
    split_ifs with hs
    · exact follows_deepen _ _ t (follows_goto nofun (quotient_atOperand_sign hs _ _ _))
    · have hsign : isSign (.symbol s) = false := Bool.eq_false_iff.2 hs
      refine follows_reject t _ (quotient_atOperand_eq_zero hsign rfl rfl ?_ ?_ _ _)
      · rintro ⟨⟩
        exact hopen rfl
      · rintro - ⟨⟩
        exact hclose rfl
  · next hint hstr hbool hident hopen hclose hsymbol =>
    cases hk : t.kind with
    | int n => exact (hint n hk).elim
    | str s => exact (hstr s hk).elim
    | bool b => exact (hbool b hk).elim
    | ident n => exact (hident n hk).elim
    | symbol s => exact (hsymbol s hk).elim
    | keyword w =>
      exact follows_reject t _ (quotient_atOperand_eq_zero rfl rfl rfl (by nofun) (by nofun) _ _)
    | eof =>
      exact follows_reject t _ (quotient_atOperand_eq_zero rfl rfl rfl (by nofun) (by nofun) _ _)

/-! ### Statements -/

theorem statement_follows (limit : Nat) (r : Reader) (t : Token) :
    Follows (programs r.blocks.length) t.kind (r.statement limit t) := by
  have hopens {k : Kind} := quotient_programs_of_opens (k := k)
  unfold statement
  split
  · next hk =>
    rw [hk]
    refine follows_goto (by decide) ((hopens (by decide) (by decide) rfl ?_ _).trans ?_)
    · exact quotient_expressions_eq_zero rfl rfl rfl (by decide)
    · simp [Mode.residual]
  · next hk =>
    rw [hk]
    refine follows_deepen _ _ t ((hopens (by decide) (by decide) rfl ?_ _).trans ?_)
    · exact quotient_expressions_eq_zero rfl rfl rfl (by decide)
    · simp [residual, Mode.residual]
  · next hk =>
    rw [hk]
    have hquotient := quotient_programs_of_closes (.inl rfl) r.blocks.length
    split
    · next hblocks =>
      rw [hblocks] at hquotient ⊢
      refine follows_reject t _ (hquotient.trans ?_)
      rw [List.length_nil, closers, quotient_word, if_neg (by decide)]
    · next b bs hblocks =>
      rw [hblocks] at hquotient ⊢
      refine hquotient.trans ?_
      rw [List.length_cons, closers, quotient_word_mul, if_pos rfl]
      rfl
  · next hk =>
    rw [hk]
    refine follows_goto (by decide) ((hopens (by decide) (by decide) rfl ?_ _).trans ?_)
    · exact quotient_expressions_eq_zero rfl rfl rfl (by decide)
    · simp [Mode.residual]
  · next hk =>
    rw [hk]
    refine follows_goto (by decide) ((hopens (by decide) (by decide) rfl ?_ _).trans ?_)
    · exact quotient_expressions_eq_zero rfl rfl rfl (by decide)
    · simp [Mode.residual]
  · next n hk =>
    rw [hk]
    refine follows_goto (by simp) ?_
    rw [quotient_programs_ident, ← atOperand_nil, quotient_atOperand_name]
    rfl
  · next hk =>
    rw [hk]
    have hquotient := quotient_programs_of_closes (.inr rfl) r.blocks.length
    cases hblocks : r.blocks with
    | nil =>
      rw [hblocks, List.length_nil, closers, quotient_word, if_pos rfl] at hquotient
      exact hquotient
    | cons b bs =>
      rw [hblocks, List.length_cons, closers, quotient_word_mul, if_neg (by decide)] at hquotient
      exact follows_reject t _ hquotient
  · next hsemicolon hopen hclose huse hlet hident heof =>
    have hname : isName t.kind = false := by
      cases hk : t.kind with
      | ident n => exact (hident n hk).elim
      | int | str | bool | keyword | symbol | eof => rfl
    refine Follows.congr ?_ (operand_follows limit r ⟨[], [], .expression t.span⟩ t)
    rw [quotient_programs_of_other hsemicolon hopen hclose huse hlet hname heof, ← atOperand_nil]
    rfl

theorem terminate_follows (limit : Nat) (r : Reader) (start : Span) (make : Option Span → Node)
    (t : Token) : Follows (endings r.blocks.length) t.kind (r.terminate limit start make t) := by
  unfold terminate
  split
  · next hk =>
    rw [hk]
    exact (quotient_endings_semicolon _).trans (if_neg nofun).symm
  · next hk =>
    exact Follows.congr (quotient_endings_of_closes (.inl hk) _) (statement_follows limit _ t)
  · next hk =>
    exact Follows.congr (quotient_endings_of_closes (.inr hk) _) (statement_follows limit _ t)
  · next hsemicolon hbrace heof =>
    exact follows_reject t _ (quotient_endings_eq_zero hsemicolon hbrace heof _)

/-! ### Ends of expressions -/

/-- Only a name without operators around it is a name. -/
theorem isCallable_reduce (ws : List Pending) (e : Node) :
    isCallable (reduce 0 ws e).2 = (isCallable e && ws.isEmpty) := by
  induction ws generalizing e with
  | nil => rw [reduce, List.isEmpty_nil, Bool.and_true]
  | cons w ws ih =>
    have hclose : isCallable (w.close e) = false := by
      cases w <;> rfl
    rw [reduce, if_pos (Nat.zero_le _), ih, hclose, List.isEmpty_cons, Bool.false_and, Bool.and_false]

/-- After an expression in parentheses, a parenthesis or a comma is due. -/
theorem follows_paren_or_comma {r : Reader} {closed next : Mode} {l m : Texts}
    (hclosed : l = closed.residual r.blocks.length) (hnext : m = next.residual r.blocks.length)
    (t : Token) (expected : Expected) :
    Follows (word (.symbol .closeParen) * l + word (.symbol .comma) * m) t.kind
      (match t.kind with
        | .symbol .closeParen => .ok (r.goto closed)
        | .symbol .comma => .ok (r.goto next)
        | _ => reject t expected) := by
  split
  · next hk =>
    rw [hk]
    refine follows_goto nofun ?_
    rw [quotient_paren_or_comma, if_pos rfl, hclosed]
  · next hk =>
    rw [hk]
    refine follows_goto nofun ?_
    rw [quotient_paren_or_comma, if_neg nofun, if_pos rfl, hnext]
  · next hclose hcomma =>
    refine follows_reject t _ ?_
    rw [quotient_paren_or_comma, if_neg hclose, if_neg hcomma]

theorem settle_follows (limit : Nat) (r : Reader) (p : Phrase) (e : Node) (t : Token) :
    Follows (closing (endings r.blocks.length) p.brackets (isCallable e)) t.kind
      (r.settle limit p e t) := by
  unfold settle
  split
  · next hbrackets =>
    rw [hbrackets]
    exact terminate_follows limit r _ _ t
  · next start outer rest hbrackets =>
    rw [hbrackets]
    exact follows_paren_or_comma rfl (atOperand_list _ _ _ (.inl ⟨_, _, rfl⟩)).symm t _
  · next start items outer rest hbrackets =>
    rw [hbrackets]
    exact follows_paren_or_comma rfl (atOperand_list _ _ _ (.inl ⟨_, _, rfl⟩)).symm t _
  · next callee arguments outer rest hbrackets =>
    rw [hbrackets]
    exact follows_paren_or_comma rfl (atOperand_list _ _ _ (.inr ⟨_, _, rfl⟩)).symm t _
  · next object outer rest hbrackets =>
    rw [hbrackets, closing]
    split
    · next hk =>
      rw [hk]
      exact follows_goto (by decide) (quotient_word_mul_self _ _)
    · next hclose => exact follows_reject t _ (quotient_word_mul_of_ne hclose _)

theorem complete_follows (limit : Nat) (r : Reader) (p : Phrase) (e : Node) (t : Token) :
    Follows (afterOperand (isCallable e) p.pending.isEmpty
        (closing (endings r.blocks.length) p.brackets)) t.kind (r.complete limit p e t) := by
  have hsettle (hoperator : isOperator t.kind = false) (hopen : t.kind ≠ .symbol .openParen)
      (hbracket : t.kind ≠ .symbol .openBracket) :
      Follows (afterOperand (isCallable e) p.pending.isEmpty
        (closing (endings r.blocks.length) p.brackets)) t.kind
        (r.settle limit p (reduce 0 p.pending e).2 t) := by
    refine Follows.congr ?_ (settle_follows limit r p _ t)
    rw [isCallable_reduce, quotient_afterOperand_of_ends hoperator hopen hbracket]
  unfold complete
  dsimp only
  split
  · next hk =>
    rw [hk]
    have hquotient := quotient_afterOperand_openParen (isCallable e) p.pending.isEmpty
      r.blocks.length p.brackets
    split_ifs at hquotient ⊢ with hcallable
    · refine follows_deepen _ _ t (follows_goto nofun (hquotient.trans ?_))
      exact (atOperand_list _ _ _ (.inr ⟨_, _, rfl⟩)).symm
    · exact .inr hquotient
  · next hk =>
    rw [hk]
    exact follows_deepen _ _ t
      (follows_goto nofun (quotient_afterOperand_openBracket e _ _ _ _))
  · next s hopen hbracket hk =>
    split
    · next operator hoperator =>
      rw [hk]
      have hs : s.binary?.isSome = true := by rw [hoperator]; rfl
      exact follows_goto nofun (quotient_afterOperand_operator hs _ _ _ _)
    · next hnone =>
      rw [hk] at hsettle ⊢
      refine hsettle ?_ ?_ ?_
      · rw [isOperator, hnone]
        rfl
      · rintro ⟨⟩
        exact hopen rfl
      · rintro ⟨⟩
        exact hbracket rfl
  · next hopen hbracket hsymbol =>
    refine hsettle ?_ hopen hbracket
    cases hk : t.kind with
    | symbol s => exact (hsymbol s hk).elim
    | int | str | bool | ident | keyword | eof => rfl

theorem afterName_follows (limit : Nat) (r : Reader) (p : Phrase) (place : Span) (name : String)
    (t : Token) :
    Follows (afterNameTexts (endings r.blocks.length) p.pending.isEmpty p.brackets) t.kind
      (r.afterName limit p place name t) := by
  unfold afterName
  split
  · next hk =>
    rw [hk]
    refine follows_goto (by decide) ?_
    rw [afterNameTexts, quotient_add, quotient_calledPath, if_pos rfl,
      quotient_afterOperand_of_ends rfl (by decide) (by decide), quotient_closing_eq_zero rfl, zero_add]
    rfl
  · next hcolons =>
    refine Follows.congr ?_ (complete_follows limit r p (.name (some place) name) t)
    rw [afterNameTexts, quotient_add, quotient_calledPath, if_neg hcolons, add_zero]
    rfl

/-! ### All tokens -/

/-- A name at the start of a statement is bound if an equals sign follows. -/
theorem leadingName_follows (limit : Nat) (r : Reader) (place : Span) (name : String) (t : Token) :
    Follows (Mode.residual r.blocks.length (.leadingName place name)) t.kind
      (match t.kind with
        | .symbol .assign => .ok (r.goto (.operand ⟨[], [], .binding place name⟩))
        | _ => r.afterName limit ⟨[], [], .expression place⟩ place name t) := by
  split
  · next hk =>
    rw [hk]
    refine follows_goto (by decide) ?_
    rw [Mode.residual, afterNameTexts, quotient_add, quotient_add, quotient_calledPath,
      quotient_afterOperand_of_ends rfl (by decide) (by decide), quotient_closing_eq_zero rfl,
      if_neg (by decide), assigned, quotient_word_mul_self, add_zero, add_zero]
    exact (atOperand_nil _).symm
  · next hassign =>
    refine Follows.congr ?_ (afterName_follows limit r _ place name t)
    rw [Mode.residual, quotient_add, assigned, quotient_word_mul_of_ne hassign, zero_add]
    rfl

/-- What the reader does with a token is what the grammar asks for. -/
theorem take_follows (limit : Nat) (r : Reader) (t : Token) :
    Follows r.residual t.kind (r.take limit t) := by
  unfold take residual
  cases r.mode with
  | statement => exact statement_follows limit r t
  | leadingName place name => exact leadingName_follows limit r place name t
  | operand p => exact operand_follows limit r p t
  | name p place name => exact afterName_follows limit r p place name t
  | complete p e => exact complete_follows limit r p e t
  | useDone start module symbol newName => exact terminate_follows limit r start _ t
  | letName | useModule | useSymbol | useAlias | pathSymbol =>
    -- a name is due
    dsimp only
    split
    · next hk =>
      rw [hk]
      exact follows_goto nofun (quotient_ident_names_mul _ _)
    · next hident => exact follows_reject t _ (quotient_names_mul_eq_zero hident _)
  | letEquals start name =>
    dsimp only
    split
    · next hk =>
      rw [hk]
      exact follows_goto nofun ((quotient_word_mul_self _ _).trans (atOperand_nil _).symm)
    · next hassign => exact follows_reject t _ (quotient_word_mul_of_ne hassign _)
  | useColons start module =>
    dsimp only
    split
    · next hk =>
      rw [hk]
      exact follows_goto nofun (quotient_word_mul_self _ _)
    · next hcolons => exact follows_reject t _ (quotient_word_mul_of_ne hcolons _)
  | useTail start module symbol =>
    dsimp only
    split
    · next hk =>
      rw [hk]
      refine follows_goto nofun ?_
      rw [Mode.residual, useTails, quotient_add, quotient_word_mul_self,
        quotient_endings_eq_zero (by nofun) (by nofun) (by nofun), add_zero]
      rfl
    · next has =>
      refine Follows.congr ?_ (terminate_follows limit r start _ t)
      rw [Mode.residual, useTails, quotient_add, quotient_word_mul_of_ne has, zero_add]
  | pathCall p place module symbol =>
    dsimp only
    split
    · next hk =>
      refine Follows.congr ?_ (complete_follows limit r p (.path (some place) module symbol) t)
      rw [hk, Mode.residual, quotient_word_mul_self, quotient_afterOperand_openParen]
      rfl
    · next hopen => exact follows_reject t _ (quotient_word_mul_of_ne hopen _)

/-! ## Runs -/

/-- A result that is good if and only if `accepted`, too deep nesting aside. -/
def Decides (accepted : Prop) {α : Type} : Except Fault α → Prop
  | .ok _ => accepted
  | .error fault => fault.cause = .nestingTooDeep ∨ ¬ accepted

/-- A run ends well if the text is in the language of the state it starts from. -/
theorem run_decides (limit : Nat) {ks : List Kind} (heof : .eof ∉ ks) (r : Reader)
    {ts : List Token} (hts : ts.map (·.kind) = ks ++ [.eof]) :
    Decides (ks ++ [.eof] ∈ r.residual) (r.run limit ts) := by
  induction ks generalizing r ts with
  | nil =>
    obtain ⟨t, rfl, ht⟩ := List.map_eq_singleton_iff.1 hts
    have hfollows := take_follows limit r t
    rw [ht] at hfollows
    rw [run, advance, ht]
    cases htake : r.take limit t with
    | ok r' =>
      rw [htake] at hfollows
      have hone : quotient .eof r.residual = 1 := hfollows.trans (if_pos rfl)
      have hmem : [] ∈ quotient .eof r.residual := by rw [hone]; exact Language.nil_mem_one
      exact hmem
    | error fault =>
      rw [htake] at hfollows
      refine hfollows.imp_right fun hzero hmem => ?_
      have hnil : [] ∈ quotient .eof r.residual := hmem
      rw [hzero] at hnil
      exact Language.notMem_zero _ hnil
  | cons k ks ih =>
    obtain ⟨t, ts, rfl, rfl, htail⟩ := List.map_eq_cons_iff.1 hts
    have hne : t.kind ≠ .eof := fun h => heof (h ▸ List.mem_cons_self)
    have hfollows := take_follows limit r t
    cases htake : r.take limit t with
    | ok r' =>
      rw [htake] at hfollows
      have hquotient : quotient t.kind r.residual = r'.residual := hfollows.trans (if_neg hne)
      have hrest := ih (fun h => heof (List.mem_cons_of_mem _ h)) { r' with last := t.span } htail
      have hiff : t.kind :: ks ++ [.eof] ∈ r.residual ↔ ks ++ [.eof] ∈ r'.residual := by
        rw [← hquotient, mem_quotient, List.cons_append]
      rw [run, advance_of_ne_eof hne htake, hiff]
      simp only [hne, if_false]
      exact hrest
    | error fault =>
      rw [htake] at hfollows
      rw [run, advance_error htake]
      refine hfollows.imp_right fun hzero hmem => ?_
      have hrest : ks ++ [.eof] ∈ quotient t.kind r.residual := hmem
      rw [hzero] at hrest
      exact Language.notMem_zero _ hrest

/-! ## Nesting -/

/-- How deep the phrase of a mode is nested. -/
def Mode.levels : Mode → Nat
  | .operand p | .name p _ _ | .pathSymbol p _ _ | .pathCall p _ _ _ | .complete p _ => p.levels
  | .statement | .leadingName _ _ | .letName _ | .letEquals _ _ | .useModule _ | .useColons _ _
  | .useSymbol _ _ | .useTail _ _ _ | .useAlias _ _ _ | .useDone _ _ _ _ => 0

/-- How deep the reader is inside of blocks, brackets and signs. -/
def nesting (r : Reader) : Nat := r.blocks.length + r.mode.levels

/-- A step to a nesting of at most `bound`, which is too deep only beyond the limit. -/
def Deepens (limit bound : Nat) : Except Fault Reader → Prop
  | .ok r => r.nesting ≤ bound
  | .error fault => fault.cause = .nestingTooDeep → limit < bound

theorem Deepens.mono {limit bound bound' : Nat} {x : Except Fault Reader} (h : Deepens limit bound x)
    (hbound : bound ≤ bound') : Deepens limit bound' x := by
  cases x with
  | ok r => exact Nat.le_trans h hbound
  | error fault => exact fun hdeep => Nat.lt_of_lt_of_le (h hdeep) hbound

theorem deepens_goto {limit levels : Nat} {r : Reader} {mode : Mode} (h : mode.levels ≤ levels) :
    Deepens limit (r.blocks.length + levels + 1) (.ok (r.goto mode)) :=
  Nat.le_succ_of_le (Nat.add_le_add_left h _)

theorem deepens_deepen {limit bound levels : Nat} {r : Reader} (t : Token) (hlevels : levels ≤ bound)
    (hr : r.nesting ≤ bound) : Deepens limit bound (deepen limit t levels r) := by
  unfold deepen
  split_ifs with h
  · exact hr
  · intro _
    omega

theorem deepens_reject {limit bound : Nat} (t : Token) (expected : Expected) :
    Deepens limit bound (reject t expected) := by
  unfold reject
  split
  · exact nofun
  · exact nofun

/-- A bracket that is closed gives back its level. -/
theorem levels_of_brackets {p : Phrase} {b : Bracket} {outer : List Pending}
    {rest : List (Bracket × List Pending)} (h : p.brackets = (b, outer) :: rest) :
    (Phrase.mk outer rest p.head).levels + 1 ≤ p.levels := by
  unfold Phrase.levels
  rw [h, List.foldr_cons]
  dsimp only
  omega

theorem reduce_suffix (bound : Nat) (ws : List Pending) (e : Node) :
    (reduce bound ws e).1 <:+ ws := by
  induction ws generalizing e with
  | nil => exact List.suffix_rfl
  | cons w ws ih =>
    unfold reduce
    split_ifs
    · exact (ih (w.close e)).trans (List.suffix_cons w ws)
    · exact List.suffix_rfl

/-- A binary operator opens no level. -/
theorem levels_binary (p : Phrase) (left : Node) (operator : BinaryOperator) (bound : Nat) (e : Node) :
    ({ p with pending := .binary left operator :: (reduce bound p.pending e).1 } : Phrase).levels ≤
      p.levels := by
  have hcount : (reduce bound p.pending e).1.countP Pending.isUnary ≤
      p.pending.countP Pending.isUnary :=
    (reduce_suffix bound p.pending e).sublist.countP_le
  unfold Phrase.levels
  dsimp only
  rw [List.countP_cons_of_neg Bool.false_ne_true]
  omega

/-- Going into one more bracket or sign. -/
theorem deepens_into {limit : Nat} {r : Reader} {p inner : Phrase} (t : Token)
    (h : inner.levels = p.levels + 1) :
    Deepens limit (r.blocks.length + p.levels + 1)
      (deepen limit t (r.blocks.length + inner.levels) (r.goto (.operand inner))) := by
  have hlevels : r.blocks.length + inner.levels ≤ r.blocks.length + p.levels + 1 := by omega
  exact deepens_deepen t hlevels hlevels

theorem operand_deepens (limit : Nat) (r : Reader) (p : Phrase) (t : Token) :
    Deepens limit (r.blocks.length + p.levels + 1) (r.operand limit p t) := by
  unfold operand
  split
  · exact deepens_goto (Nat.le_refl _)
  · exact deepens_goto (Nat.le_refl _)
  · exact deepens_goto (Nat.le_refl _)
  · exact deepens_goto (Nat.le_refl _)
  · exact deepens_into t (Phrase.levels_enter p _)
  · split
    · next hbrackets => exact deepens_goto (Nat.le_of_succ_le (levels_of_brackets hbrackets))
    · next hbrackets => exact deepens_goto (Nat.le_of_succ_le (levels_of_brackets hbrackets))
    · next hbrackets => exact deepens_goto (Nat.le_of_succ_le (levels_of_brackets hbrackets))
    · exact deepens_reject t _
  · split_ifs
    · exact deepens_into t (Phrase.levels_unary _ _ p.pending p.brackets p.head)
    · exact deepens_reject t _
  · exact deepens_reject t _

theorem statement_deepens (limit : Nat) (r : Reader) (t : Token) :
    Deepens limit (r.blocks.length + 1) (r.statement limit t) := by
  unfold statement
  split
  · exact Nat.le_succ _
  · exact deepens_deepen t (Nat.le_refl _) (Nat.le_refl _)
  · split
    · exact deepens_reject t _
    · next b bs hblocks =>
      show bs.length ≤ r.blocks.length + 1
      rw [hblocks, List.length_cons]
      omega
  · exact Nat.le_succ _
  · exact Nat.le_succ _
  · exact Nat.le_succ _
  · split_ifs
    · exact Nat.le_succ _
    · exact deepens_reject t _
  · exact operand_deepens limit r ⟨[], [], .expression t.span⟩ t

theorem terminate_deepens (limit : Nat) (r : Reader) (start : Span) (make : Option Span → Node)
    (t : Token) : Deepens limit (r.blocks.length + 1) (r.terminate limit start make t) := by
  unfold terminate
  split
  · exact Nat.le_succ _
  · exact statement_deepens limit _ t
  · exact statement_deepens limit _ t
  · exact deepens_reject t _

/-- A comma leaves the list open. -/
theorem levels_next {p : Phrase} {b : Bracket} {outer : List Pending}
    {rest : List (Bracket × List Pending)} (h : p.brackets = (b, outer) :: rest) (b' : Bracket) :
    (Phrase.mk [] ((b', outer) :: rest) p.head).levels ≤ p.levels := by
  have hlevels := levels_of_brackets h
  have henter : (Phrase.mk [] ((b', outer) :: rest) p.head).levels =
      (Phrase.mk outer rest p.head).levels + 1 := Phrase.levels_enter ⟨outer, rest, p.head⟩ b'
  omega

theorem settle_deepens (limit : Nat) (r : Reader) (p : Phrase) (e : Node) (t : Token) :
    Deepens limit (r.blocks.length + p.levels + 1) (r.settle limit p e t) := by
  unfold settle
  split
  · exact (terminate_deepens limit r _ _ t).mono (by omega)
  · next hbrackets =>
    split
    · exact deepens_goto (Nat.le_of_succ_le (levels_of_brackets hbrackets))
    · exact deepens_goto (levels_next hbrackets _)
    · exact deepens_reject t _
  · next hbrackets =>
    split
    · exact deepens_goto (Nat.le_of_succ_le (levels_of_brackets hbrackets))
    · exact deepens_goto (levels_next hbrackets _)
    · exact deepens_reject t _
  · next hbrackets =>
    split
    · exact deepens_goto (Nat.le_of_succ_le (levels_of_brackets hbrackets))
    · exact deepens_goto (levels_next hbrackets _)
    · exact deepens_reject t _
  · next hbrackets =>
    split
    · exact deepens_goto (Nat.le_of_succ_le (levels_of_brackets hbrackets))
    · exact deepens_reject t _

theorem complete_deepens (limit : Nat) (r : Reader) (p : Phrase) (e : Node) (t : Token) :
    Deepens limit (r.blocks.length + p.levels + 1) (r.complete limit p e t) := by
  unfold complete
  dsimp only
  split
  · split_ifs
    · exact deepens_into t (Phrase.levels_enter p _)
    · exact nofun
  · exact deepens_into t (Phrase.levels_enter p _)
  · split
    · exact deepens_goto (levels_binary p _ _ _ e)
    · exact settle_deepens limit r p _ t
  · exact settle_deepens limit r p _ t

theorem afterName_deepens (limit : Nat) (r : Reader) (p : Phrase) (place : Span) (name : String)
    (t : Token) : Deepens limit (r.blocks.length + p.levels + 1) (r.afterName limit p place name t) := by
  unfold afterName
  split
  · exact deepens_goto (Nat.le_refl _)
  · exact complete_deepens limit r p _ t

/-- A token opens at most one level. -/
theorem take_deepens (limit : Nat) (r : Reader) (t : Token) :
    Deepens limit (r.nesting + 1) (r.take limit t) := by
  unfold take nesting
  cases r.mode with
  | statement => exact statement_deepens limit r t
  | operand p => exact operand_deepens limit r p t
  | name p place name => exact afterName_deepens limit r p place name t
  | complete p e => exact complete_deepens limit r p e t
  | useDone start module symbol newName => exact terminate_deepens limit r start _ t
  | letName | letEquals | useModule | useColons | useSymbol | useAlias | pathSymbol =>
    dsimp only
    split
    · exact deepens_goto (Nat.le_refl _)
    · exact deepens_reject t _
  | leadingName place name =>
    dsimp only
    split
    · exact deepens_goto (Nat.le_refl _)
    · exact afterName_deepens limit r ⟨[], [], .expression place⟩ place name t
  | useTail start module symbol =>
    dsimp only
    split
    · exact deepens_goto (Nat.le_refl _)
    · exact terminate_deepens limit r start _ t
  | pathCall p place module symbol =>
    dsimp only
    split
    · exact complete_deepens limit r p _ t
    · exact deepens_reject t _

/-- So a run over few tokens does not go too deep. -/
theorem run_not_tooDeep {limit : Nat} {r : Reader} {ts : List Token} {fault : Fault}
    (hroom : r.nesting + ts.length ≤ limit) (h : r.run limit ts = .error fault) :
    fault.cause ≠ .nestingTooDeep := by
  induction ts generalizing r with
  | nil => cases h
  | cons t ts ih =>
    have hdeepens := take_deepens limit r t
    rw [List.length_cons] at hroom
    cases htake : r.take limit t with
    | error fault' =>
      rw [htake] at hdeepens
      rw [run, advance_error htake] at h
      cases h
      intro hdeep
      have hlimit := hdeepens hdeep
      omega
    | ok r' =>
      rw [htake] at hdeepens
      have hnesting : r'.nesting ≤ r.nesting + 1 := hdeepens
      by_cases ht : t.kind = .eof
      · rw [run, advance, ht, htake] at h
        cases h
      · rw [run, advance_of_ne_eof ht htake] at h
        simp only [ht, if_false] at h
        refine ih ?_ h
        show r'.nesting + ts.length ≤ limit
        omega

end Reader

/-! ## Programs -/

namespace Program

open Scriptlet.Grammar

/-- The texts that start in no block are the programs. -/
theorem mem_programs_zero {ks : List Token.Kind} : ks ++ [.eof] ∈ programs 0 ↔ IsProgram ks := by
  constructor
  · rintro ⟨ss, rest, heq, hss, hrest⟩
    rw [mem_word.1 hrest] at heq hss
    rw [List.append_cancel_right heq]
    exact hss
  · exact fun h => ⟨ks, [.eof], rfl, h, mem_word.2 rfl⟩

/-- Was a list of tokens refused because it is nested too deep? -/
def TooDeep : Except ReadError Program → Prop
  | .error (.failure f) => f.cause = .nestingTooDeep
  | .error .unended | .ok _ => False

theorem isEnded_of_kinds {tokens : List Token} {ks : List Token.Kind}
    (h : tokens.map (·.kind) = ks ++ [.eof]) : isEnded tokens = true := by
  obtain ⟨ts, ends, rfl, -, hends⟩ := List.map_eq_append_iff.1 h
  obtain ⟨t, rfl, ht⟩ := List.map_eq_singleton_iff.1 hends
  unfold isEnded
  rw [List.getLast?_concat]
  exact decide_eq_true ht

/-- What reading a list of tokens comes to, by how the run of the reader ends. -/
theorem ofTokensWithin_eq {limit : Nat} {lines : List String} {t : Token} {ts : List Token}
    (h : isEnded (t :: ts) = true) : ofTokensWithin limit lines (t :: ts) =
      match (Reader.initial t.span).run limit (t :: ts) with
      | .ok r => .ok ⟨some ⟨t.span.start, r.last.stop⟩, r.done.reverse⟩
      | .error fault => .error (.failure (fault.quote lines)) := by
  unfold ofTokensWithin read
  rw [if_pos h]
  dsimp only
  cases (Reader.initial t.span).run limit (t :: ts) <;> rfl

/-- A list of tokens with one end of input, at its end, is read if and only if it is a program, unless
it is nested too deep for the limit; and it is never nested deeper than it is long. -/
theorem ofTokensWithin_isOk_iff (limit : Nat) (lines : List String) (tokens : List Token)
    (ks : List Token.Kind) (hkinds : tokens.map (·.kind) = ks ++ [.eof]) (heof : .eof ∉ ks) :
    (¬ TooDeep (ofTokensWithin limit lines tokens) →
      ((∃ p, ofTokensWithin limit lines tokens = .ok p) ↔ IsProgram ks)) ∧
    (tokens.length ≤ limit → ¬ TooDeep (ofTokensWithin limit lines tokens)) := by
  cases tokens with
  | nil => exact absurd hkinds.symm (List.append_ne_nil_of_right_ne_nil _ (List.cons_ne_nil _ _))
  | cons t ts =>
    have hdecides := Reader.run_decides limit heof (Reader.initial t.span) hkinds
    have hprogram : ks ++ [.eof] ∈ (Reader.initial t.span).residual ↔ IsProgram ks :=
      mem_programs_zero
    rw [hprogram] at hdecides
    rw [ofTokensWithin_eq (isEnded_of_kinds hkinds)]
    cases hrun : (Reader.initial t.span).run limit (t :: ts) with
    | ok r =>
      rw [hrun] at hdecides
      exact ⟨fun _ => ⟨fun _ => hdecides, fun _ => ⟨_, rfl⟩⟩, fun _ => id⟩
    | error fault =>
      rw [hrun] at hdecides
      refine ⟨fun hdeep => ⟨?_, ?_⟩, fun hroom => ?_⟩
      · rintro ⟨p, hp⟩
        cases hp
      · exact fun h => absurd h (hdecides.resolve_left hdeep)
      · have hnesting : (Reader.initial t.span).nesting + (t :: ts).length ≤ limit := by
          show 0 + (t :: ts).length ≤ limit
          omega
        exact Reader.run_not_tooDeep hnesting hrun

/-- The tokens of the given kinds, and the end of input. -/
@[simp]
def tokensOf (ks : List Token.Kind) : List Token :=
  (ks ++ [Token.Kind.eof]).map fun k => ⟨k, "", default⟩

/-- In grouping parentheses a name may still be called, but the result of a call may not. -/
theorem ofTokensWithin_isOk_iff_calls :
    IsProgram [.symbol .openParen, .ident "f", .symbol .closeParen, .symbol .openParen, .int 1,
        .symbol .comma, .symbol .closeParen] ∧
      ¬ IsProgram [.ident "f", .symbol .openParen, .symbol .closeParen, .symbol .openParen,
        .symbol .closeParen] := by
  have hread (ks : List Token.Kind) (hlength : (tokensOf ks).length ≤ 9) (heof : .eof ∉ ks) :
      (∃ p, ofTokensWithin 9 [] (tokensOf ks) = .ok p) ↔ IsProgram ks := by
    have hkinds : (tokensOf ks).map (·.kind) = ks ++ [.eof] := by
      rw [tokensOf, List.map_map]
      exact List.map_id _
    obtain ⟨hiff, hdeep⟩ := ofTokensWithin_isOk_iff 9 [] (tokensOf ks) ks hkinds heof
    exact hiff (hdeep hlength)
  refine ⟨(hread _ (by decide) (by decide)).1 ⟨_, rfl⟩, fun h => ?_⟩
  obtain ⟨p, hp⟩ := (hread _ (by decide) (by decide)).2 h
  cases hp

end Program

end Scriptlet
