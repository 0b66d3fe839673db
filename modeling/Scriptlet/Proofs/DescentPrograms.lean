import Scriptlet.Proofs.DescentExpressions

/-!
# Programs by descent

What reading by descent comes to on a list of tokens that ends with the end of input, whatever else is in it.

* `Statements`, `statements_at`: statements are read as by the reader. As with expressions, the induction
  is on the tokens that are left.
* `program_eq`: a program is read as by the reader, up to the first end of input.
* `Progresses`: a reading ends in bounds, and if it has a result, it has taken a token.
* `Reader.Reaches`: the states of the reader with their places.
-/

namespace Scriptlet.Descent

open Scriptlet.Token (Kind)
open Scriptlet.Reader (Phrase Pending Bracket Head Mode OpenBlock)

/-! ## What single tokens do -/

section

variable {limit : Nat} {last start : Span} {done : List Node} {blocks : List OpenBlock} {t : Token}

theorem take_letEquals {name : String} :
    Reader.take limit ⟨last, done, blocks, .letEquals start name⟩ t =
      if t.kind = .symbol .assign then
        .ok ⟨last, done, blocks, .operand ⟨[], [], .binding start name⟩⟩
      else Reader.reject t .equals := by
  dsimp only [Reader.take]
  split
  · next hk => rw [if_pos hk]; rfl
  · next hk => rw [if_neg hk]

theorem take_useColons {module : String} :
    Reader.take limit ⟨last, done, blocks, .useColons start module⟩ t =
      if t.kind = .symbol .doubleColon then .ok ⟨last, done, blocks, .useSymbol start module⟩
      else Reader.reject t .colons := by
  dsimp only [Reader.take]
  split
  · next hk => rw [if_pos hk]; rfl
  · next hk => rw [if_neg hk]

theorem take_useTail_as {module symbol : String} (ht : t.kind = .keyword .asWord) :
    Reader.take limit ⟨last, done, blocks, .useTail start module symbol⟩ t =
      .ok ⟨last, done, blocks, .useAlias start module symbol⟩ := by
  dsimp only [Reader.take]
  rw [ht]
  rfl

theorem take_useTail {module symbol : String} (ht : t.kind ≠ .keyword .asWord) :
    Reader.take limit ⟨last, done, blocks, .useTail start module symbol⟩ t =
      Reader.terminate limit ⟨last, done, blocks, .useTail start module symbol⟩ start
        (.use · module symbol none) t := by
  dsimp only [Reader.take]
  split
  · next hk => exact absurd hk ht
  · rfl

theorem statement_semicolon {r : Reader} (ht : t.kind = .symbol .semicolon) :
    r.statement limit t = .ok (r.goto .statement) := by
  unfold Reader.statement
  rw [ht]

theorem statement_openBrace {r : Reader} (ht : t.kind = .symbol .openBrace) :
    r.statement limit t = Reader.deepen limit t (r.blocks.length + 1)
      ⟨r.last, [], ⟨t.span, r.done⟩ :: r.blocks, .statement⟩ := by
  unfold Reader.statement
  rw [ht]

theorem statement_use {r : Reader} (ht : t.kind = .keyword .useWord) :
    r.statement limit t = .ok (r.goto (.useModule t.span)) := by
  unfold Reader.statement
  rw [ht]

theorem statement_let {r : Reader} (ht : t.kind = .keyword .letWord) :
    r.statement limit t = .ok (r.goto (.letName t.span)) := by
  unfold Reader.statement
  rw [ht]

/-- What begins no other statement begins an expression, or is refused as one. -/
theorem statement_of_ne {r : Reader} (hbrace : t.kind ≠ .symbol .openBrace)
    (huse : t.kind ≠ .keyword .useWord) (hlet : t.kind ≠ .keyword .letWord)
    (hident : ∀ name, t.kind ≠ .ident name) (heof : t.kind ≠ .eof)
    (hsemicolon : t.kind ≠ .symbol .semicolon)
    (hclose : t.kind = .symbol .closeBrace → r.blocks = []) :
    r.statement limit t = r.operand limit ⟨[], [], .expression t.span⟩ t := by
  unfold Reader.statement
  split
  · next hk => exact absurd hk hsemicolon
  · next hk => exact absurd hk hbrace
  · next hk =>
    rw [hclose hk]
    unfold Reader.operand
    rw [hk]
    rfl
  · next hk => exact absurd hk huse
  · next hk => exact absurd hk hlet
  · next name hk => exact absurd hk (hident name)
  · next hk => exact absurd hk heof
  · rfl

/-- What ends the statements of a block has to be its brace. -/
theorem take_blockEnd {before : List Node} (ht : t.kind = .eof ∨ t.kind = .symbol .closeBrace) :
    Reader.take limit ⟨last, done, ⟨start, before⟩ :: blocks, .statement⟩ t =
      if t.kind = .symbol .closeBrace then
        .ok ⟨last, .block (Span.between (some start) (some t.span)) done.reverse :: before, blocks,
          .statement⟩
      else Reader.reject t .closeBrace := by
  dsimp only [Reader.take, Reader.statement]
  obtain hk | hk := ht
  · rw [hk]
    rfl
  · rw [hk]
    rfl

end

/-! ## Names that begin statements -/

section

variable {limit : Nat} {tokens : List Token} {done : List Node} {blocks : List OpenBlock} {i : Nat}
  {t u : Token} {name : String} (ht : At tokens i t) (hk : t.kind = .ident name)
  (hu : At tokens (i + 1) u)

include ht hk hu

/-- Before an equals sign, a name is bound as it is after `let`. -/
theorem resume_letName (hassign : u.kind = .symbol .assign) :
    resume limit tokens done blocks .statement i =
      resume limit tokens done blocks (.letName t.span) i := by
  have hname : t.kind ≠ .eof := by simp [hk]
  have hstatement : Reader.take limit ⟨lastAt tokens i, done, blocks, .statement⟩ t =
      .ok ⟨lastAt tokens i, done, blocks, .leadingName t.span name⟩ := by
    dsimp only [Reader.take, Reader.statement]
    rw [hk]
    rfl
  have hlet : Reader.take limit ⟨lastAt tokens i, done, blocks, .letName t.span⟩ t =
      .ok ⟨lastAt tokens i, done, blocks, .letEquals t.span name⟩ := by
    dsimp only [Reader.take]
    rw [hk]
    rfl
  rw [ht.resume_ok hname hstatement, ht.resume_ok hname hlet]
  refine hu.resume_congr ?_
  rw [take_letEquals, if_pos hassign]
  dsimp only [Reader.take]
  rw [hassign]
  rfl

/-- Before anything else, a name begins an expression. -/
theorem resume_ident (hassign : u.kind ≠ .symbol .assign) :
    resume limit tokens done blocks .statement i =
      resume limit tokens done blocks (.operand ⟨[], [], .expression t.span⟩) i := by
  unfold resume
  rw [ht.drop_eq, hu.drop_eq]
  exact Reader.run_statement_of_ident hk hassign _

end

/-! ## Simple statements -/

section

variable {limit : Nat} {tokens : List Token} {done : List Node} {blocks : List OpenBlock} {i : Nat}
  {mode : Mode} {start : Span} {t : Token} {answer : Except Fault Reader}
  (hends : firstEnd tokens < tokens.length)

include hends

/-- Where the end of a statement is due. -/
theorem ending_at {make : Option Span → Node} (ht : At tokens i t)
    (hanswer : answer = resume limit tokens done blocks mode i)
    (htake : Reader.take limit ⟨lastAt tokens i, done, blocks, mode⟩ t =
      Reader.terminate limit ⟨lastAt tokens i, done, blocks, mode⟩ start make t) :
    Ends tokens answer (ending tokens start make) i fun s j =>
      answer = resume limit tokens (s :: done) blocks .statement j := by
  have hterminator : Ends tokens answer (terminator tokens) i fun _ j =>
      answer = resume limit tokens
        (make (Span.between (some start) (some (lastAt tokens j))) :: done) blocks .statement j := by
    unfold Reader.terminate at htake
    refine ends_accept hends ht (by decide) (fun hk u hu => ?_) fun hk => ?_
    · rw [if_pos rfl]
      rw [hk] at htake
      refine ends_pure hu.bound ?_
      rw [ht.lastAt_succ]
      exact hanswer.trans (ht.resume_ok (by simp [hk]) htake)
    · rw [if_neg Bool.false_ne_true]
      refine ends_current ht ?_
      split_ifs with hclose
      · refine ends_pure ht.bound (hanswer.trans (ht.resume_congr ?_))
        obtain hbrace | heof := hclose
        · rw [hbrace] at htake
          exact htake
        · rw [heof] at htake
          exact htake
      · refine ends_refusing ht hanswer (htake.trans ?_)
        split
        · next h => exact absurd h hk
        · next h => exact absurd (.inl h) hclose
        · next h => exact absurd (.inr h) hclose
        · rfl
  unfold ending
  refine hterminator.bind fun _ j _ hj hanswer' => ?_
  exact ends_spanFrom hends hj (ends_pure hj hanswer')

/-- An expression, and the end of the statement around it. -/
theorem phrase_at (h : Head) (hi : i ≤ firstEnd tokens)
    (hanswer : answer = resume limit tokens done blocks (.operand ⟨[], [], h⟩) i) :
    Ends tokens answer (binary ⟨limit, tokens⟩ 1 blocks.length >>= fun e =>
        ending tokens h.start (h.close e)) i fun s j =>
      i < j ∧ answer = resume limit tokens (s :: done) blocks .statement j := by
  have he : Ends tokens answer (binary ⟨limit, tokens⟩ 1 blocks.length) i _ :=
    (expressions_at hends i hi).binary ⟨[], [], h⟩ answer 1 (due_of_mayEnd rfl) (by rintro w ⟨⟩)
      hanswer
  refine he.bind ?_
  rintro e j hij hj ⟨hlt, hsettled, hloose, hanswer'⟩
  obtain ⟨u, hu⟩ := exists_at hends hj
  exact (ending_at hends hu hanswer' (take_of_loose hsettled hloose hu rfl e)).past hlt

theorem binding_at (hi : i ≤ firstEnd tokens)
    (hanswer : answer = resume limit tokens done blocks (.letName start) i) :
    Ends tokens answer (binding ⟨limit, tokens⟩ blocks.length start) i fun s j =>
      i < j ∧ answer = resume limit tokens (s :: done) blocks .statement j := by
  obtain ⟨t, ht⟩ := exists_at hends hi
  unfold binding
  refine ends_naming hends ht hanswer rfl fun name u hu hanswer' => ?_
  refine ends_expecting hends hu (by decide) hanswer' take_letEquals fun v hv hanswer'' => ?_
  exact (phrase_at hends (.binding start name) hv.bound hanswer'').since (by omega)

theorem useStatement_at (hi : i ≤ firstEnd tokens)
    (hanswer : answer = resume limit tokens done blocks (.useModule start) i) :
    Ends tokens answer (useStatement tokens start) i fun s j =>
      i < j ∧ answer = resume limit tokens (s :: done) blocks .statement j := by
  obtain ⟨t, ht⟩ := exists_at hends hi
  unfold useStatement
  refine ends_naming hends ht hanswer rfl fun module u hu hmodule => ?_
  refine ends_expecting hends hu (by decide) hmodule take_useColons fun v hv hcolons => ?_
  refine ends_naming hends hv hcolons rfl fun symbol w hw hsymbol => ?_
  refine ends_accept hends hw (by decide) (fun hk x hx => ?_) fun hk => ?_
  · rw [if_pos rfl]
    have halias := hsymbol.trans (hw.resume_ok (by simp [hk]) (take_useTail_as hk))
    refine ends_naming hends hx halias rfl fun newName y hy hdone => ?_
    exact (ending_at hends hy hdone rfl).past (by omega)
  · rw [if_neg Bool.false_ne_true]
    exact (ending_at hends hw hsymbol (take_useTail hk)).past (by omega)

end

/-! ## Statements and blocks -/

section

variable (limit : Nat) (tokens : List Token) (i : Nat)

/-- Begun at `i`, a statement is read as by the reader. What ends a list of statements or stands between
them begins none. -/
def StatementAt : Prop := ∀ (done : List Node) (blocks : List OpenBlock) (t : Token)
  (answer : Except Fault Reader), At tokens i t → t.kind ≠ .eof → t.kind ≠ .symbol .semicolon →
  (t.kind = .symbol .closeBrace → blocks = []) →
  answer = resume limit tokens done blocks .statement i →
  Ends tokens answer (statement ⟨limit, tokens⟩ blocks.length) i fun s j =>
    i < j ∧ answer = resume limit tokens (s :: done) blocks .statement j

/-- Begun at `i`, the inside of a block is read as by the reader. -/
def BlockAt : Prop := ∀ (before : List Node) (blocks : List OpenBlock) (start : Span)
  (answer : Except Fault Reader),
  answer = resume limit tokens [] (⟨start, before⟩ :: blocks) .statement i →
  Ends tokens answer (block ⟨limit, tokens⟩ (blocks.length + 1) start) i fun s j =>
    answer = resume limit tokens (s :: before) blocks .statement j

/-- Begun at `i`, a list of statements is read as by the reader, up to a token that ends it. -/
def StatementsAt : Prop := ∀ (done : List Node) (blocks : List OpenBlock)
  (answer : Except Fault Reader), answer = resume limit tokens done blocks .statement i →
  Ends tokens answer (statements ⟨limit, tokens⟩ (!blocks.isEmpty) blocks.length) i fun ss j =>
    (∀ t, At tokens j t → t.kind = .eof ∨ blocks ≠ [] ∧ t.kind = .symbol .closeBrace) ∧
      answer = resume limit tokens (ss.reverse ++ done) blocks .statement j

/-- Begun at `i`, the functions for statements do what the reader does. -/
structure Statements : Prop where
  statement : StatementAt limit tokens i
  block : BlockAt limit tokens i
  statements : StatementsAt limit tokens i

end

section

variable {limit : Nat} {tokens : List Token} {i : Nat} (hends : firstEnd tokens < tokens.length)
  (later : ∀ j, i < j → j ≤ firstEnd tokens → Statements limit tokens j)

include hends later

theorem statement_at : StatementAt limit tokens i := by
  intro done blocks t answer ht heof hsemicolon hclose hanswer
  rw [statement]
  refine ends_current ht ?_
  split
  · next hk =>
    refine ends_opening hends ht heof hanswer (statement_openBrace hk) fun u hu hanswer' => ?_
    have hblock := (later (i + 1) (Nat.lt_succ_self i) hu.bound).block
    exact (hblock done blocks t.span answer hanswer').past (Nat.lt_succ_self i)
  · next hk =>
    refine ends_taking hends ht heof hanswer (statement_use hk) fun u hu hanswer' => ?_
    exact (useStatement_at hends hu.bound hanswer').since (Nat.le_succ i)
  · next hk =>
    refine ends_taking hends ht heof hanswer (statement_let hk) fun u hu hanswer' => ?_
    exact (binding_at hends hu.bound hanswer').since (Nat.le_succ i)
  · next name hk =>
    refine ends_following hends ht heof fun u hu => ?_
    split_ifs with hassign
    · exact binding_at hends ht.bound (hanswer.trans (resume_letName ht hk hu hassign))
    · exact phrase_at hends (.expression t.span) ht.bound
        (hanswer.trans (resume_ident ht hk hu hassign))
  · next hbrace huse hlet hident =>
    refine phrase_at hends (.expression t.span) ht.bound (hanswer.trans (ht.resume_congr ?_))
    exact statement_of_ne hbrace huse hlet hident heof hsemicolon hclose

theorem statementList_at (hi : i ≤ firstEnd tokens) (hstatement : StatementAt limit tokens i) :
    StatementsAt limit tokens i := by
  intro done blocks answer hanswer
  obtain ⟨t, ht⟩ := exists_at hends hi
  rw [statements]
  refine ends_current ht ?_
  split_ifs with hstop hk
  · refine ends_pure hi ⟨fun u hu => ?_, hanswer⟩
    rw [ht.unique hu]
    simpa using hstop
  · refine ends_taking hends ht (by simp [hk]) hanswer (statement_semicolon hk)
      fun u hu hanswer' => ?_
    exact (later (i + 1) (Nat.lt_succ_self i) hu.bound).statements done blocks answer hanswer'
  · have heof : t.kind ≠ .eof := fun h => hstop (.inl h)
    have hclose : t.kind = .symbol .closeBrace → blocks = [] := by
      intro h
      simpa [h] using hstop
    refine (hstatement done blocks t answer ht heof hk hclose hanswer).bind ?_
    rintro s j hij hj ⟨hlt, hanswer'⟩
    refine ((later j hlt hj).statements (s :: done) blocks answer hanswer').bind ?_
    rintro ss k hjk hk ⟨hends', hanswer''⟩
    refine ends_pure hk ⟨hends', ?_⟩
    rw [List.reverse_cons, List.append_assoc, List.singleton_append]
    exact hanswer''

omit later in
theorem block_at (hstatements : StatementsAt limit tokens i) : BlockAt limit tokens i := by
  intro before blocks start answer hanswer
  rw [block]
  refine (hstatements [] (⟨start, before⟩ :: blocks) answer hanswer).bind ?_
  rintro ss j hij hj ⟨hstop, hanswer'⟩
  obtain ⟨t, ht⟩ := exists_at hends hj
  rw [List.append_nil] at hanswer'
  have hkind : t.kind = .eof ∨ t.kind = .symbol .closeBrace := (hstop t ht).imp_right And.right
  refine ends_expecting hends ht (by decide) hanswer' (take_blockEnd hkind) fun u hu hanswer'' => ?_
  rw [List.reverse_reverse, ← ht.lastAt_succ] at hanswer''
  refine ends_spanFrom hends hu.bound ?_
  refine ends_accept hends hu (by decide) (fun hk v hv => ?_) fun _ => ends_pure hu.bound hanswer''
  refine ends_pure hv.bound (hanswer''.trans ?_)
  exact hu.resume_ok (by simp [hk]) (statement_semicolon hk)

end

/-- Begun at any place up to the first end of input, the functions for statements do what the reader
does. -/
theorem statements_at {limit : Nat} {tokens : List Token} (hends : firstEnd tokens < tokens.length)
    (i : Nat) (hi : i ≤ firstEnd tokens) : Statements limit tokens i := by
  have later : ∀ j, i < j → j ≤ firstEnd tokens → Statements limit tokens j :=
    fun j hij hj => statements_at hends j hj
  have hstatement := statement_at hends later
  have hstatements := statementList_at hends later hi hstatement
  exact ⟨hstatement, block_at hends hstatements, hstatements⟩
termination_by firstEnd tokens - i

/-! ## Programs -/

/-- The outcome of a reading that comes to `result`, at `i` if it is no fault. -/
def outcome {α : Type} (i : Nat) : Except Fault α → Option (Except Halt (α × Nat))
  | .ok a => some (.ok (a, i))
  | .error f => some (.error (.fault f))

section

variable {limit : Nat} {tokens : List Token} {i : Nat} {t : Token}

/-- Outside of all blocks, the reader is done at the end of input. -/
theorem At.resume_eof {done : List Node} (h : At tokens i t) (ht : t.kind = .eof) :
    resume limit tokens done [] .statement i = .ok ⟨lastAt tokens i, done, [], .statement⟩ := by
  unfold resume
  rw [h.drop_eq]
  dsimp only [Reader.run, Reader.advance]
  rw [ht]
  dsimp only [Reader.take, Reader.statement]
  rw [ht]
  rfl

theorem read_eq (h : At tokens 0 t) : Program.read limit tokens =
    match resume limit tokens [] [] .statement 0 with
    | .error fault => .error fault
    | .ok r => .ok ⟨Span.between (some t.span) (some r.last), r.done.reverse⟩ := by
  unfold resume
  rw [lastAt, h.token, List.drop_zero]
  cases tokens with
  | nil => cases h.token
  | cons first rest =>
    cases h.token
    rfl

/-- A program is read by descent as by the reader, and up to the first end of input. -/
theorem program_eq (hends : firstEnd tokens < tokens.length) :
    program ⟨limit, tokens⟩ 0 = outcome (firstEnd tokens) (Program.read limit tokens) := by
  obtain ⟨first, hfirst⟩ := exists_at hends (Nat.zero_le _)
  have hread : Program.read limit tokens = _ := read_eq hfirst
  have hprogram : Ends tokens (resume limit tokens [] [] .statement 0) (program ⟨limit, tokens⟩) 0
      fun p j => j = firstEnd tokens ∧ Program.read limit tokens = .ok p := by
    unfold program
    refine ends_current hfirst ?_
    refine ((statements_at hends 0 (Nat.zero_le _)).statements [] [] _ rfl).bind ?_
    rintro ss j - hj ⟨hstop, hanswer⟩
    obtain ⟨t, ht⟩ := exists_at hends hj
    have hk : t.kind = .eof := (hstop t ht).resolve_right fun h => h.1 rfl
    refine ends_spanFrom hends hj (ends_pure hj ⟨ht.eq_firstEnd hk, ?_⟩)
    rw [hread, hanswer, ht.resume_eof hk, List.append_nil]
    dsimp only
    rw [List.reverse_reverse]
  obtain ⟨p, j, hp, -, -, rfl, hok⟩ | ⟨f, hf, herror⟩ := hprogram
  · rw [hp, hok]
    rfl
  · rw [hf, hread, herror]
    rfl

end

/-! ## Progress -/

/-- A reading that begins at `i` ends in bounds; if it has a result, it has taken a token. -/
def Progresses {α : Type} (tokens : List Token) (x : Reading α) (i : Nat) : Prop :=
  (∃ a j, x i = some (.ok (a, j)) ∧ i < j ∧ j ≤ firstEnd tokens) ∨
    ∃ f, x i = some (.error (.fault f))

theorem Ends.progresses {α : Type} {tokens : List Token} {answer : Except Fault Reader}
    {x : Reading α} {i : Nat} {Q : α → Nat → Prop} (h : Ends tokens answer x i Q)
    (hQ : ∀ a j, Q a j → i < j) : Progresses tokens x i := by
  obtain ⟨a, j, hx, -, hj, ha⟩ | ⟨f, hx, -⟩ := h
  · exact .inl ⟨a, j, hx, hQ a j ha, hj⟩
  · exact .inr ⟨f, hx⟩

section

variable {limit : Nat} {tokens : List Token} {i : Nat} (hends : firstEnd tokens < tokens.length)
  (hi : i ≤ firstEnd tokens)

/-- There are readers at each depth. -/
theorem exists_blocks (depth : Nat) : ∃ blocks : List OpenBlock, blocks.length = depth :=
  ⟨List.replicate depth ⟨default, []⟩, List.length_replicate⟩

include hends hi

theorem binary_progresses (min depth : Nat) : Progresses tokens (binary ⟨limit, tokens⟩ min depth) i := by
  obtain ⟨blocks, rfl⟩ := exists_blocks depth
  have hplace : Expressions limit tokens [] blocks i := expressions_at hends i hi
  have hbinary : Ends tokens _ (binary ⟨limit, tokens⟩ min blocks.length) i _ :=
    hplace.binary ⟨[], [], .expression default⟩ _ min (due_of_mayEnd rfl) (by rintro w ⟨⟩) rfl
  exact hbinary.progresses fun _ _ h => h.1

theorem unary_progresses (depth : Nat) : Progresses tokens (unary ⟨limit, tokens⟩ depth) i := by
  obtain ⟨blocks, rfl⟩ := exists_blocks depth
  have hplace : Expressions limit tokens [] blocks i := expressions_at hends i hi
  have hunary : Ends tokens _ (unary ⟨limit, tokens⟩ blocks.length) i _ :=
    hplace.unary ⟨[], [], .expression default⟩ _ (due_of_mayEnd rfl) rfl
  exact hunary.progresses fun _ _ h => h.1

theorem primary_progresses (depth : Nat) : Progresses tokens (primary ⟨limit, tokens⟩ depth) i := by
  obtain ⟨blocks, rfl⟩ := exists_blocks depth
  obtain ⟨t, ht⟩ := exists_at hends hi
  cases hs : sign? t.kind with
  | none =>
    have later : ∀ j, i < j → j ≤ firstEnd tokens → Expressions limit tokens [] blocks j :=
      fun j _ hj => expressions_at hends j hj
    have hprimary : Ends tokens _ (primary ⟨limit, tokens⟩ blocks.length) i _ :=
      primary_at (p := ⟨[], [], .expression default⟩) hends later ht hs (due_of_mayEnd rfl) rfl
    exact hprimary.progresses fun _ _ h => h.1
  | some s =>
    -- only `unary` takes a sign
    obtain ⟨hk, hunary⟩ := of_sign? hs
    have hprimary : Ends tokens (.error (refusal t .expression))
        (primary ⟨limit, tokens⟩ blocks.length) i fun _ j => i < j := by
      rw [primary]
      refine ends_current ht ?_
      rw [hk]
      cases s with
      | plus | minus | bang => exact ends_refuse ht rfl
      | _ => cases hunary
    exact hprimary.progresses fun _ _ h => h

theorem statement_progresses (depth : Nat) : Progresses tokens (statement ⟨limit, tokens⟩ depth) i := by
  obtain ⟨blocks, rfl⟩ := exists_blocks depth
  obtain ⟨t, ht⟩ := exists_at hends hi
  by_cases hstop : t.kind = .eof ∨ t.kind = .symbol .semicolon ∨ t.kind = .symbol .closeBrace
  · -- an expression is due, though none can begin here
    have hstatement : statement ⟨limit, tokens⟩ blocks.length i =
        expressionStatement ⟨limit, tokens⟩ blocks.length t.span i := by
      rw [statement, bind_of_ok ht.current_eq]
      obtain hk | hk | hk := hstop
      all_goals rw [hk]
    have hphrase : Ends tokens
        (resume limit tokens [] blocks (.operand ⟨[], [], .expression t.span⟩) i)
        (expressionStatement ⟨limit, tokens⟩ blocks.length t.span) i _ :=
      phrase_at hends (.expression t.span) hi rfl
    unfold Progresses
    rw [hstatement]
    exact hphrase.progresses fun _ _ h => h.1
  · rw [not_or, not_or] at hstop
    obtain ⟨heof, hsemicolon, hclose⟩ := hstop
    have hplace : Statements limit tokens i := statements_at hends i hi
    have hstatement := hplace.statement [] blocks t _ ht heof hsemicolon (absurd · hclose) rfl
    exact hstatement.progresses fun _ _ h => h.1

end

end Scriptlet.Descent

/-! ## The states of the reader -/

namespace Scriptlet.Reader

open Scriptlet.Descent (firstEnd)

/-- A reader comes to a state when it has taken the tokens before `i`. -/
inductive Reaches (limit : Nat) (tokens : List Token) (start : Reader) : Nat → Reader → Prop
  | begin : Reaches limit tokens start 0 start
  | step {i : Nat} {r next : Reader} {t : Token} (h : Reaches limit tokens start i r)
    (ht : tokens[i]? = some t) (hk : t.kind ≠ .eof) (hnext : r.advance limit t = .ok next) :
    Reaches limit tokens start (i + 1) next

variable {limit i : Nat} {tokens : List Token} {start r : Reader}

theorem Reaches.run_eq (h : Reaches limit tokens start i r) :
    start.run limit tokens = r.run limit (tokens.drop i) := by
  induction h with
  | begin => rw [List.drop_zero]
  | step h ht hk hnext ih =>
    obtain ⟨hlt, rfl⟩ := List.getElem?_eq_some_iff.1 ht
    rw [ih, List.drop_eq_getElem_cons hlt, run, hnext]
    exact if_neg hk

theorem Reaches.le_firstEnd (hends : firstEnd tokens < tokens.length)
    (h : Reaches limit tokens start i r) : i ≤ firstEnd tokens := by
  induction h with
  | begin => exact Nat.zero_le _
  | step h ht hk hnext ih => exact Descent.At.lt_firstEnd hends ⟨ht, ih⟩ hk

/-- The tokens after the first end of input do not matter. -/
theorem run_take (limit : Nat) (r : Reader) (tokens : List Token) :
    r.run limit (tokens.take (firstEnd tokens + 1)) = r.run limit tokens := by
  induction tokens generalizing r with
  | nil => rfl
  | cons t ts ih =>
    unfold firstEnd
    rw [List.findIdx_cons]
    cases hend : Descent.isEnd t with
    | true =>
      have hk : t.kind = .eof := of_decide_eq_true hend
      dsimp only [cond_true]
      rw [List.take_succ_cons, run, run]
      simp only [hk, if_true]
    | false =>
      have hk : t.kind ≠ .eof := of_decide_eq_false hend
      dsimp only [cond_false]
      rw [List.take_succ_cons, run, run]
      simp only [hk, if_false]
      cases r.advance limit t with
      | error fault => rfl
      | ok next => exact ih next

end Scriptlet.Reader

/-! ## Lists of tokens that end with the end of input -/

namespace Scriptlet.Program

open Scriptlet.Descent (firstEnd)

variable {tokens : List Token}

theorem firstEnd_lt_length (h : isEnded tokens = true) : firstEnd tokens < tokens.length := by
  unfold isEnded at h
  split at h
  · next t ht =>
    exact List.findIdx_lt_length_of_exists ⟨t, List.mem_of_getLast? ht, h⟩
  · cases h

theorem isEnded_take (hends : firstEnd tokens < tokens.length) :
    isEnded (tokens.take (firstEnd tokens + 1)) = true := by
  have hlast : (tokens.take (firstEnd tokens + 1)).getLast? = some tokens[firstEnd tokens] := by
    rw [List.take_succ_eq_append_getElem hends, List.getLast?_concat]
  unfold isEnded
  rw [hlast]
  exact List.findIdx_getElem (w := hends)

theorem read_take (limit : Nat) (tokens : List Token) :
    read limit (tokens.take (firstEnd tokens + 1)) = read limit tokens := by
  cases tokens with
  | nil => rfl
  | cons first rest =>
    have hrun := Reader.run_take limit (Reader.initial first.span) (first :: rest)
    rw [List.take_succ_cons] at hrun ⊢
    dsimp only [read]
    rw [hrun]

/-- A list of tokens that ends with the end of input is read to its first end of input and no further,
whatever else it holds. By descent, the reading comes to an end, with the outcome of the reader and without
going astray; so does the reading of an expression or a statement from any place on, and it has taken a token
if it has a result; every state of the reader is at a place in bounds; and the list may be cut after its first
end of input. -/
theorem read_to_first_end (limit : Nat) (lines : List String) (h : isEnded tokens = true) :
    Descent.program ⟨limit, tokens⟩ 0 = Descent.outcome (firstEnd tokens) (read limit tokens) ∧
      (∀ i ≤ firstEnd tokens, ∀ min depth,
        Descent.Progresses tokens (Descent.binary ⟨limit, tokens⟩ min depth) i ∧
        Descent.Progresses tokens (Descent.unary ⟨limit, tokens⟩ depth) i ∧
        Descent.Progresses tokens (Descent.primary ⟨limit, tokens⟩ depth) i ∧
        Descent.Progresses tokens (Descent.statement ⟨limit, tokens⟩ depth) i) ∧
      (∀ start i r, Reader.Reaches limit tokens start i r →
        i ≤ firstEnd tokens ∧ i < tokens.length ∧
          start.run limit tokens = r.run limit (tokens.drop i)) ∧
      ofTokensWithin limit lines (tokens.take (firstEnd tokens + 1)) =
        ofTokensWithin limit lines tokens := by
  have hends := firstEnd_lt_length h
  refine ⟨Descent.program_eq hends, fun i hi min depth => ?_, fun start i r hr => ?_, ?_⟩
  · exact ⟨Descent.binary_progresses hends hi min depth, Descent.unary_progresses hends hi depth,
      Descent.primary_progresses hends hi depth, Descent.statement_progresses hends hi depth⟩
  · have hi := hr.le_firstEnd hends
    exact ⟨hi, Nat.lt_of_le_of_lt hi hends, hr.run_eq⟩
  · unfold ofTokensWithin
    rw [if_pos (isEnded_take hends), if_pos h, read_take]

/-- Here a call is cut off by an end of input, and more tokens follow. -/
theorem read_to_first_end_call :
    let tokens : List Token := [⟨.ident "f", "f", default⟩, ⟨.symbol .openParen, "(", default⟩,
      ⟨.eof, "", default⟩, ⟨.symbol .closeParen, ")", default⟩, ⟨.eof, "", default⟩]
    isEnded tokens = true ∧
      Descent.program ⟨1000, tokens⟩ 0 = Descent.outcome 2 (read 1000 tokens) ∧
      Descent.Progresses tokens (Descent.statement ⟨1000, tokens⟩ 0) 0 ∧
      ofTokensWithin 1000 [] (tokens.take 3) = ofTokensWithin 1000 [] tokens := by
  intro tokens
  have h : isEnded tokens = true := by decide
  obtain ⟨hprogram, hprogress, -, hcut⟩ := read_to_first_end 1000 [] h
  exact ⟨h, hprogram, (hprogress 0 (Nat.zero_le _) 1 0).2.2.2, hcut⟩

end Scriptlet.Program
