import Scriptlet.Proofs.Operands
import Scriptlet.Proofs.Parsing

/-!
# Precedence

An expression is a chain of operands with binary operators between them. The reader works through it
from the left with a stack of operators that wait. The tree that it builds has a rule of its own, which
knows no stack: the chain is cut at the last of its loosest operators, and so are both of its halves.

* `Chain room k ts e ops`: the tokens `ts` write the operand `e` and then, for each pair of `ops`, a
  binary operator and an operand, before a token of kind `k`.
* `Grouped e ops tree`: the tree of such a chain by that rule.
* `reduce_shift`: the stack comes to the same tree.
-/

namespace Scriptlet.Reader

/-! ## The rule -/

/-- Tokens that write a chain of operands and binary operators, each operand as it is read before the
token after it. -/
inductive Chain (room : Nat) (k : Token.Kind) :
    List Token → Node → List (BinaryOperator × Node) → Prop
  | last {ts : List Token} {e : Node} : unary? room k ts = some e → Chain room k ts e []
  | link {ts rest : List Token} {t : Token} {op : BinaryOperator} {e e' : Node}
      {ops : List (BinaryOperator × Node)} : unary? room t.kind ts = some e →
      t.kind.binary? = some op → Chain room k rest e' ops →
      Chain room k (ts ++ t :: rest) e ((op, e') :: ops)

/-- The tree of a chain: no operator before the one at its root is looser, and all that come after it
are tighter. -/
inductive Grouped : Node → List (BinaryOperator × Node) → Node → Prop
  | single (e : Node) : Grouped e [] e
  | split {e e' left right : Node} {op : BinaryOperator} {before after : List (BinaryOperator × Node)} :
      (∀ l ∈ before, op.precedence ≤ l.1.precedence) →
      (∀ l ∈ after, op.precedence < l.1.precedence) →
      Grouped e before left → Grouped e' after right →
      Grouped e (before ++ (op, e') :: after)
        (.binary (Span.between left.span right.span) left op.text right)

/-- A chain with an operator has a last one among its loosest. -/
theorem exists_loosest (l : BinaryOperator × Node) (ops : List (BinaryOperator × Node)) :
    ∃ before m after, l :: ops = before ++ m :: after ∧
      (∀ x ∈ before, m.1.precedence ≤ x.1.precedence) ∧
      (∀ x ∈ after, m.1.precedence < x.1.precedence) := by
  induction ops generalizing l with
  | nil => exact ⟨[], l, [], rfl, by simp, by simp⟩
  | cons l' ops ih =>
    obtain ⟨before, m, after, hsplit, hbefore, hafter⟩ := ih l'
    by_cases h : m.1.precedence ≤ l.1.precedence
    · refine ⟨l :: before, m, after, by rw [hsplit, List.cons_append], ?_, hafter⟩
      intro x hx
      rcases List.mem_cons.1 hx with rfl | hx
      · exact h
      · exact hbefore x hx
    · -- the first operator is looser than all the others
      refine ⟨[], l, l' :: ops, rfl, by simp, ?_⟩
      intro x hx
      rw [hsplit, List.mem_append, List.mem_cons] at hx
      rcases hx with hx | rfl | hx
      · have := hbefore x hx
        omega
      · omega
      · have := hafter x hx
        omega

theorem exists_grouped (e : Node) (ops : List (BinaryOperator × Node)) :
    ∃ tree, Grouped e ops tree := by
  induction hn : ops.length using Nat.strong_induction_on generalizing e ops with
  | _ n ih =>
    cases ops with
    | nil => exact ⟨e, .single e⟩
    | cons l ops =>
      obtain ⟨before, m, after, hsplit, hbefore, hafter⟩ := exists_loosest l ops
      have hlength : before.length + (after.length + 1) = n := by
        rw [← hn, hsplit, List.length_append, List.length_cons]
      obtain ⟨left, hleft⟩ := ih before.length (by omega) e before rfl
      obtain ⟨right, hright⟩ := ih after.length (by omega) m.2 after rfl
      rw [hsplit]
      exact ⟨_, .split hbefore hafter hleft hright⟩

/-! ## The stack -/

/-- The operators that wait, and the last operand, after a chain that starts with `e`. -/
@[simp] def shift (ws : List Pending) (e : Node) :
    List (BinaryOperator × Node) → List Pending × Node
  | [] => (ws, e)
  | l :: ls =>
    shift (.binary (reduce l.1.precedence ws e).2 l.1 :: (reduce l.1.precedence ws e).1) l.2 ls

theorem shift_append (ws : List Pending) (e : Node) (before after : List (BinaryOperator × Node)) :
    shift ws e (before ++ after) =
      shift (shift ws e before).1 (shift ws e before).2 after := by
  induction before generalizing ws e with
  | nil => rfl
  | cons l before ih => exact ih _ _

/-- An operand stays with a tighter operator to come. -/
theorem reduce_of_lt {bound : Nat} {ws : List Pending} (h : ∀ w ∈ ws.head?, w.strength < bound)
    (e : Node) : reduce bound ws e = (ws, e) := by
  cases ws with
  | nil => rfl
  | cons w ws => exact if_neg (Nat.not_le.2 (h w rfl))

/-- A chain on top of looser operators comes to its tree, and leaves those operators to wait. The
induction is on the tree: of the operators of a chain, the one at the root comes to wait right on top
of `ws`, with all of the left half in its hand. -/
theorem reduce_shift {e tree : Node} {ops : List (BinaryOperator × Node)} (h : Grouped e ops tree)
    {bound : Nat} (hbound : ∀ l ∈ ops, bound ≤ l.1.precedence) {ws : List Pending}
    (hws : ∀ w ∈ ws.head?, ∀ l ∈ ops, w.strength < l.1.precedence) :
    reduce bound (shift ws e ops).1 (shift ws e ops).2 = reduce bound ws tree := by
  induction h generalizing bound ws with
  | single e => rfl
  | @split e e' left right op before after hbefore hafter hleft hright ihleft ihright =>
    have hroot : (op, e') ∈ before ++ (op, e') :: after := List.mem_append_right _ List.mem_cons_self
    have hstays : reduce op.precedence (shift ws e before).1 (shift ws e before).2 = (ws, left) := by
      rw [ihleft hbefore fun w hw l hl => hws w hw l (List.mem_append_left _ hl)]
      exact reduce_of_lt (fun w hw => hws w hw _ hroot) left
    have hshift : shift ws e (before ++ (op, e') :: after) = shift (.binary left op :: ws) e' after := by
      rw [shift_append, shift, hstays]
    have hafter' : ∀ l ∈ after, bound ≤ l.1.precedence :=
      fun l hl => hbound l (List.mem_append_right _ (List.mem_cons_of_mem _ hl))
    have htighter : ∀ w ∈ (Pending.binary left op :: ws).head?, ∀ l ∈ after,
        w.strength < l.1.precedence := by
      intro w hw l hl
      cases hw
      exact hafter l hl
    rw [hshift, ihright hafter' htighter, reduce]
    exact if_pos (hbound _ hroot)

theorem reduce_shift_nil {e tree : Node} {ops : List (BinaryOperator × Node)}
    (h : Grouped e ops tree) : (reduce 0 (shift [] e ops).1 (shift [] e ops).2).2 = tree := by
  rw [reduce_shift h (fun _ _ => Nat.zero_le _) (by simp)]
  rfl

/-- A chain has one tree, since the stack comes to it. -/
theorem existsUnique_grouped (e : Node) (ops : List (BinaryOperator × Node)) :
    ∃! tree, Grouped e ops tree := by
  obtain ⟨tree, htree⟩ := exists_grouped e ops
  refine ⟨tree, htree, fun tree' htree' => ?_⟩
  rw [← reduce_shift_nil htree', reduce_shift_nil htree]

/-! ## Chains of tokens -/

theorem opensPostfix_of_binary? {k : Token.Kind} {op : BinaryOperator} (h : k.binary? = some op) :
    k.opensPostfix = false := by
  cases k with
  | symbol s =>
    rw [Bool.eq_false_iff]
    intro hopens
    rcases Bool.or_eq_true_iff.1 hopens with hs | hs
    · cases eq_of_beq hs
      cases h
    · cases eq_of_beq hs
      cases h
  | _ => cases h

/-- A binary operator takes what waits at least as tightly, and waits. -/
theorem complete_of_binary? {t : Token} {op : BinaryOperator} (h : t.kind.binary? = some op)
    (limit : Nat) (r : Reader) (p : Phrase) (e : Node) :
    r.complete limit p e t = .ok (r.goto (.operand { p with
      pending := .binary (reduce op.precedence p.pending e).2 op ::
        (reduce op.precedence p.pending e).1 })) := by
  unfold complete
  dsimp only
  split
  · next hk => rw [hk] at h; cases h
  · next hk => rw [hk] at h; cases h
  · next s _ _ hk =>
    rw [hk] at h
    have hs : s.binary? = some op := h
    rw [hs]
  · next hk =>
    cases hkind : t.kind with
    | symbol s => exact absurd hkind (hk s)
    | _ => rw [hkind] at h; cases h

/-- A token that goes no further ends the expression with all that waits. -/
theorem complete_of_closing {t : Token} (hbinary : t.kind.binary? = none)
    (hopens : t.kind.opensPostfix = false) (limit : Nat) (r : Reader) (p : Phrase) (e : Node) :
    r.complete limit p e t = r.settle limit p (reduce 0 p.pending e).2 t := by
  unfold complete
  dsimp only
  split
  · next hk => rw [hk] at hopens; cases hopens
  · next hk => rw [hk] at hopens; cases hopens
  · next s _ _ hk =>
    rw [hk] at hbinary
    have hs : s.binary? = none := hbinary
    rw [hs]
  · rfl

theorem run_of_binary? {limit : Nat} {last : Span} {done : List Node} {blocks : List OpenBlock}
    {ws : List Pending} {bs : List (Bracket × List Pending)} {hd : Head} {e : Node} {t : Token}
    {op : BinaryOperator} (h : t.kind.binary? = some op) (rest : List Token) :
    run limit ⟨last, done, blocks, .complete ⟨ws, bs, hd⟩ e⟩ (t :: rest) =
      run limit ⟨t.span, done, blocks, .operand ⟨.binary (reduce op.precedence ws e).2 op ::
        (reduce op.precedence ws e).1, bs, hd⟩⟩ rest := by
  have hk : t.kind ≠ .eof := by
    intro hk
    rw [hk] at h
    cases h
  have hleads : Leads limit ⟨last, done, blocks, .complete ⟨ws, bs, hd⟩ e⟩ [t]
      ⟨t.span, done, blocks, .operand ⟨.binary (reduce op.precedence ws e).2 op ::
        (reduce op.precedence ws e).1, bs, hd⟩⟩ :=
    Leads.goto rfl hk (complete_of_binary? h limit _ ⟨ws, bs, hd⟩ e)
  exact hleads rest

/-- The reader works a chain off from the left. -/
theorem run_chain {room limit : Nat} {blocks : List OpenBlock} {bs : List (Bracket × List Pending)}
    {hd : Head} {t : Token} {ts : List Token} {e : Node} {ops : List (BinaryOperator × Node)}
    (h : Chain room t.kind ts e ops) (ht : t.kind.opensPostfix = false) {ws : List Pending}
    (hroom : room + blocks.length + (Phrase.mk ws bs hd).levels ≤ limit) (last : Span)
    (done : List Node) (rest : List Token) :
    run limit ⟨last, done, blocks, .operand ⟨ws, bs, hd⟩⟩ (ts ++ t :: rest) =
      run limit ⟨(ts.map Token.span).getLastD last, done, blocks,
        .complete ⟨(shift ws e ops).1, bs, hd⟩ (shift ws e ops).2⟩ (t :: rest) := by
  induction h generalizing last ws with
  | last hunary => exact run_of_unary? hunary ht hroom last done rest
  | @link ts ts' o op e e' ops hunary ho hchain ih =>
    have hlevels := levels_binary ⟨ws, bs, hd⟩ (reduce op.precedence ws e).2 op op.precedence e
    have hspan : ((ts ++ o :: ts').map Token.span).getLastD last =
        (ts'.map Token.span).getLastD o.span := by
      simp [List.getLastD_eq_getLast?, List.getLast?_append, List.getLast?_cons]
    rw [List.append_assoc, List.cons_append, hspan,
      run_of_unary? hunary (opensPostfix_of_binary? ho) hroom, run_of_binary? ho]
    exact ih (by dsimp only at hlevels; omega) o.span

/-- Before a token that ends it, an expression is its tree. -/
theorem run_closing {limit : Nat} {last : Span} {done : List Node} {blocks : List OpenBlock}
    {ws : List Pending} {bs : List (Bracket × List Pending)} {hd : Head} {e : Node} {t : Token}
    (hbinary : t.kind.binary? = none) (hopens : t.kind.opensPostfix = false) (rest : List Token) :
    run limit ⟨last, done, blocks, .complete ⟨ws, bs, hd⟩ e⟩ (t :: rest) =
      run limit ⟨last, done, blocks, .complete ⟨[], bs, hd⟩ (reduce 0 ws e).2⟩ (t :: rest) := by
  apply run_congr
  show complete limit _ ⟨ws, bs, hd⟩ e t = complete limit _ ⟨[], bs, hd⟩ (reduce 0 ws e).2 t
  rw [complete_of_closing hbinary hopens, complete_of_closing hbinary hopens]
  rfl

/-! ## Expressions where a statement is due -/

theorem startsOperand_of_operand {room : Nat} {r next : Reader} {hd : Head} {t : Token}
    (h : r.operand room ⟨[], [], hd⟩ t = .ok next) :
    startsOperand t.kind = true ∨
      ∃ n, t.kind = .ident n ∧ next = r.goto (.name ⟨[], [], hd⟩ t.span n) := by
  unfold operand at h
  split at h
  · next hk => exact .inl (by rw [hk]; rfl)
  · next hk => exact .inl (by rw [hk]; rfl)
  · next hk => exact .inl (by rw [hk]; rfl)
  · next n hk =>
    cases h
    exact .inr ⟨n, hk, rfl⟩
  · next hk => exact .inl (by rw [hk]; rfl)
  · exact absurd h (reject_ne_ok t _ next)
  · next s _ _ hk =>
    split_ifs at h with hs
    · exact .inl (by rw [hk]; exact Bool.or_eq_true_iff.2 (.inr hs))
    · exact absurd h (reject_ne_ok t _ next)
  · exact absurd h (reject_ne_ok t _ next)

/-- An operand does not start as an assignment does. -/
theorem operandMode_assign {room : Nat} {hd : Head} {place : Span} {n : String} {t : Token}
    (ht : t.kind = .symbol .assign) (ts : List Token) :
    operandMode room (.name ⟨[], [], hd⟩ place n) (t :: ts) = none := by
  simp [operandMode, take, afterName, complete, settle, terminate, reject, Symbol.binary?, ht]

/-- A name starts an expression unless it is assigned to. -/
theorem run_statement_of_ident {limit : Nat} {last : Span} {done : List Node}
    {blocks : List OpenBlock} {t u : Token} {n : String} (ht : t.kind = .ident n)
    (hu : u.kind ≠ .symbol .assign) (rest : List Token) :
    run limit ⟨last, done, blocks, .statement⟩ (t :: u :: rest) =
      run limit ⟨last, done, blocks, .operand ⟨[], [], .expression t.span⟩⟩ (t :: u :: rest) := by
  have hk : Token.Kind.ident n ≠ .eof := by simp
  have hstatement : Leads limit ⟨last, done, blocks, .statement⟩ [t]
      ⟨t.span, done, blocks, .leadingName t.span n⟩ :=
    Leads.goto ht hk (by simp only [take, statement, ht]; rfl)
  have hoperand : Leads limit ⟨last, done, blocks, .operand ⟨[], [], .expression t.span⟩⟩ [t]
      ⟨t.span, done, blocks, .name ⟨[], [], .expression t.span⟩ t.span n⟩ :=
    Leads.goto ht hk (by simp only [take, operand, ht]; rfl)
  refine (hstatement (u :: rest)).trans (.trans (run_congr ?_ rest) (hoperand (u :: rest)).symm)
  unfold take
  dsimp only
  split
  · next hassign => exact absurd hassign hu
  · rfl

/-- The first tokens of an operand start an expression where a statement is due. -/
theorem run_statement_of_unary? {room limit : Nat} {blocks : List OpenBlock} {ts : List Token}
    {t : Token} {e : Node} (h : unary? room t.kind ts = some e) (ht : t.kind ≠ .symbol .assign)
    (last : Span) (done : List Node) (rest : List Token) :
    ∃ first, ts.head? = some first ∧
      run limit ⟨last, done, blocks, .statement⟩ (ts ++ t :: rest) =
        run limit ⟨last, done, blocks, .operand ⟨[], [], .expression first.span⟩⟩
          (ts ++ t :: rest) := by
  obtain ⟨mode, hmode, hwhole⟩ := Option.bind_eq_some_iff.1 h
  cases ts with
  | nil =>
    cases hmode
    cases hwhole
  | cons first ts =>
    refine ⟨first, rfl, ?_⟩
    unfold operandMode at hmode
    split at hmode
    · next next hnext =>
      rcases startsOperand_of_operand hnext with hstarts | ⟨n, hk, rfl⟩
      · exact run_of_startsOperand _ hstarts
      · split_ifs at hmode
        cases ts with
        | nil => exact run_statement_of_ident hk ht rest
        | cons u ts =>
          have hu : u.kind ≠ .symbol .assign := by
            intro hassign
            have hnone := hmode.symm.trans (operandMode_assign hassign ts)
            cases hnone
          exact run_statement_of_ident hk hu _
    · cases hmode

theorem run_statement_of_chain {room limit : Nat} {blocks : List OpenBlock} {ts : List Token}
    {t : Token} {e : Node} {ops : List (BinaryOperator × Node)} (h : Chain room t.kind ts e ops)
    (ht : t.kind ≠ .symbol .assign) (last : Span) (done : List Node) (rest : List Token) :
    ∃ first, ts.head? = some first ∧
      run limit ⟨last, done, blocks, .statement⟩ (ts ++ t :: rest) =
        run limit ⟨last, done, blocks, .operand ⟨[], [], .expression first.span⟩⟩
          (ts ++ t :: rest) := by
  cases h with
  | last hunary => exact run_statement_of_unary? hunary ht last done rest
  | @link ts ts' o op e e' ops hunary ho hchain =>
    have hassign : o.kind ≠ .symbol .assign := by
      intro hassign
      rw [hassign] at ho
      cases ho
    obtain ⟨first, hfirst, hrun⟩ :=
      run_statement_of_unary? hunary hassign last done (ts' ++ t :: rest)
    refine ⟨first, by rw [List.head?_append, hfirst, Option.some_or], ?_⟩
    rw [List.append_assoc, List.cons_append, hrun]

/-! ## Expressions -/

/-- Before a token that ends it, the tokens of a chain are read as the tree of the chain, all of them
and no more: the reader goes on with that token as after a whole operand that nothing waits for. So it
is where an expression is due inside of a statement, and where a statement is due. -/
theorem run_chain_grouped {room limit : Nat} {t : Token} {ts : List Token} {e : Node}
    {ops : List (BinaryOperator × Node)} (h : Chain room t.kind ts e ops)
    (hbinary : t.kind.binary? = none) (hopens : t.kind.opensPostfix = false) :
    (∃! tree, Grouped e ops tree) ∧
      ∀ (tree : Node), Grouped e ops tree →
        ∀ (last : Span) (done : List Node) (blocks : List OpenBlock) (rest : List Token),
          (∀ (bs : List (Bracket × List Pending)) (hd : Head),
            room + blocks.length + (Phrase.mk [] bs hd).levels ≤ limit →
              run limit ⟨last, done, blocks, .operand ⟨[], bs, hd⟩⟩ (ts ++ t :: rest) =
                run limit ⟨(ts.map Token.span).getLastD last, done, blocks,
                  .complete ⟨[], bs, hd⟩ tree⟩ (t :: rest)) ∧
          (room + blocks.length ≤ limit → t.kind ≠ .symbol .assign →
            ∃ first, ts.head? = some first ∧
              run limit ⟨last, done, blocks, .statement⟩ (ts ++ t :: rest) =
                run limit ⟨(ts.map Token.span).getLastD last, done, blocks,
                  .complete ⟨[], [], .expression first.span⟩ tree⟩ (t :: rest)) := by
  refine ⟨existsUnique_grouped e ops, fun tree htree last done blocks rest => ?_⟩
  have hexpression (bs : List (Bracket × List Pending)) (hd : Head)
      (hroom : room + blocks.length + (Phrase.mk [] bs hd).levels ≤ limit) :
      run limit ⟨last, done, blocks, .operand ⟨[], bs, hd⟩⟩ (ts ++ t :: rest) =
        run limit ⟨(ts.map Token.span).getLastD last, done, blocks,
          .complete ⟨[], bs, hd⟩ tree⟩ (t :: rest) := by
    rw [run_chain h hopens hroom, run_closing hbinary hopens, reduce_shift_nil htree]
  refine ⟨hexpression, fun hroom hassign => ?_⟩
  obtain ⟨first, hfirst, hrun⟩ := run_statement_of_chain h hassign last done rest
  exact ⟨first, hfirst, hrun.trans (hexpression [] (.expression first.span) hroom)⟩

/-- A token whose place does not matter. -/
def unplaced (k : Token.Kind) : Token := ⟨k, "", default⟩

/-- The tokens of `-a + b * f(c) - d`. -/
def mixedTokens : List Token :=
  [unplaced (.symbol .minus), unplaced (.ident "a")] ++ unplaced (.symbol .plus) ::
    ([unplaced (.ident "b")] ++ unplaced (.symbol .star) ::
      ([unplaced (.ident "f"), unplaced (.symbol .openParen), unplaced (.ident "c"),
        unplaced (.symbol .closeParen)] ++ unplaced (.symbol .minus) :: [unplaced (.ident "d")]))

/-- What comes after the first operand of `-a + b * f(c) - d`. -/
def mixedOps : List (BinaryOperator × Node) :=
  [(.add, .name (some default) "b"),
    (.mul, .call (some default) (.name (some default) "f") [.name (some default) "c"]),
    (.sub, .name (some default) "d")]

theorem chain_mixed : Chain 1 (unplaced (.symbol .semicolon)).kind mixedTokens
    (.unary (some default) "-" (.name (some default) "a")) mixedOps := by
  unfold mixedTokens mixedOps
  exact .link rfl rfl (.link rfl rfl (.link rfl rfl (.last rfl)))

/-- The last of the loosest operators is at the root, and the tighter one stays below. -/
theorem run_chain_grouped_mixed :
    ∃ first, mixedTokens.head? = some first ∧
      run 1 ⟨default, [], [], .statement⟩ (mixedTokens ++ [unplaced (.symbol .semicolon)]) =
        run 1 ⟨default, [], [], .complete ⟨[], [], .expression first.span⟩
          (.binary (some default)
            (.binary (some default) (.unary (some default) "-" (.name (some default) "a")) "+"
              (.binary (some default) (.name (some default) "b") "*"
                (.call (some default) (.name (some default) "f") [.name (some default) "c"])))
            "-" (.name (some default) "d"))⟩ [unplaced (.symbol .semicolon)] := by
  have hproduct := @Grouped.split (.name (some default) "b") _ _ _ .mul [] [] (by decide) (by decide)
    (.single _) (.single (.call (some default) (.name (some default) "f") [.name (some default) "c"]))
  have hsum := @Grouped.split (.unary (some default) "-" (.name (some default) "a")) _ _ _ .add [] _
    (by simp) (by simp [BinaryOperator.precedence]) (.single _) hproduct
  have htree := @Grouped.split _ _ _ _ .sub _ [] (by simp [BinaryOperator.precedence]) (by simp) hsum
    (.single (.name (some default) "d"))
  obtain ⟨-, hread⟩ := run_chain_grouped chain_mixed rfl rfl
  exact (hread _ htree default [] [] []).2 (by decide) (by decide)

end Scriptlet.Reader
