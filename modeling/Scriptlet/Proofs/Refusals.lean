import Scriptlet.Proofs.Reading

/-!
# Refused tokens

What the reader says of a token that it refuses, and that the limit on nesting has no other part in it
than to ask for more room.

* `Blames t fault`: the fault is one that a reader can find with the token `t`.
* `take_keeps`: with more room the reader gives the same answer to a token, unless it had too little; and
  any other fault blames the token.
* `exists_of_run_error`: a run that fails takes the tokens before `taken` and refuses the next one.
* `run_error_of_le`: that token is refused in the same way with more room, and whatever comes after it.
-/

namespace Scriptlet.Reader

/-- A fault that is found with the token `t`: the text ends where something is due, the token stands in
the place of something else, or it opens the arguments of what cannot be called. -/
inductive Blames (t : Token) : Fault → Prop
  | ended (expected : Expected) : t.kind = .eof → Blames t ⟨.unexpectedEnd expected, t.span, none⟩
  | unexpected (expected : Expected) : t.kind ≠ .eof →
      Blames t ⟨.unexpectedToken expected t.describe, t.span, some t.span.start.line⟩
  | uncallable (place : Span) : t.kind = .symbol .openParen → place.stop = t.span.stop →
      Blames t ⟨.invalidCallee, place, some t.span.start.line⟩

/-! ## The limit has no other part -/

/-- Where one reader gives an answer to `t`, a reader with more room answers `y`. -/
def Keeps (t : Token) (y : Except Fault Reader) : Except Fault Reader → Prop
  | .ok r => y = .ok r
  | .error fault => fault.cause = .nestingTooDeep ∨ y = .error fault ∧ Blames t fault

section

variable {limit limit' : Nat}

theorem keeps_ok (t : Token) (r : Reader) : Keeps t (.ok r) (.ok r) := rfl

theorem keeps_reject (t : Token) (expected : Expected) :
    Keeps t (reject t expected) (reject t expected) := by
  unfold reject
  split
  · next hk => exact .inr ⟨rfl, .ended expected hk⟩
  · next hk => exact .inr ⟨rfl, .unexpected expected hk⟩

theorem keeps_deepen (h : limit ≤ limit') (t : Token) (levels : Nat) (r : Reader) :
    Keeps t (deepen limit' t levels r) (deepen limit t levels r) := by
  unfold deepen
  by_cases hlevels : levels ≤ limit
  · rw [if_pos hlevels, if_pos (Nat.le_trans hlevels h)]
    exact keeps_ok t r
  · rw [if_neg hlevels]
    exact .inl rfl

theorem operand_keeps (h : limit ≤ limit') (r : Reader) (p : Phrase) (t : Token) :
    Keeps t (r.operand limit' p t) (r.operand limit p t) := by
  unfold operand
  split
  · exact keeps_ok t _
  · exact keeps_ok t _
  · exact keeps_ok t _
  · exact keeps_ok t _
  · exact keeps_deepen h t _ _
  · split
    · exact keeps_ok t _
    · exact keeps_ok t _
    · exact keeps_ok t _
    · exact keeps_reject t _
  · split_ifs
    · exact keeps_deepen h t _ _
    · exact keeps_reject t _
  · exact keeps_reject t _

theorem statement_keeps (h : limit ≤ limit') (r : Reader) (t : Token) :
    Keeps t (r.statement limit' t) (r.statement limit t) := by
  unfold statement
  split
  · exact keeps_ok t _
  · exact keeps_deepen h t _ _
  · split
    · exact keeps_reject t _
    · exact keeps_ok t _
  · exact keeps_ok t _
  · exact keeps_ok t _
  · exact keeps_ok t _
  · split_ifs
    · exact keeps_ok t _
    · exact keeps_reject t _
  · exact operand_keeps h r _ t

theorem terminate_keeps (h : limit ≤ limit') (r : Reader) (start : Span) (make : Option Span → Node)
    (t : Token) : Keeps t (r.terminate limit' start make t) (r.terminate limit start make t) := by
  unfold terminate
  split
  · exact keeps_ok t _
  · exact statement_keeps h _ t
  · exact statement_keeps h _ t
  · exact keeps_reject t _

theorem settle_keeps (h : limit ≤ limit') (r : Reader) (p : Phrase) (e : Node) (t : Token) :
    Keeps t (r.settle limit' p e t) (r.settle limit p e t) := by
  unfold settle
  split
  · exact terminate_keeps h r _ _ t
  all_goals
    -- inside of a bracket only a parenthesis, a comma or the other bracket is taken
    split
    any_goals exact keeps_ok t _
    exact keeps_reject t _

theorem complete_keeps (h : limit ≤ limit') (r : Reader) (p : Phrase) (e : Node) (t : Token) :
    Keeps t (r.complete limit' p e t) (r.complete limit p e t) := by
  unfold complete
  dsimp only
  split
  · next hk =>
    split_ifs
    · exact keeps_deepen h t _ _
    · refine .inr ⟨rfl, .uncallable _ hk ?_⟩
      cases e.span <;> rfl
  · exact keeps_deepen h t _ _
  · split
    · exact keeps_ok t _
    · exact settle_keeps h r p _ t
  · exact settle_keeps h r p _ t

theorem afterName_keeps (h : limit ≤ limit') (r : Reader) (p : Phrase) (place : Span) (name : String)
    (t : Token) : Keeps t (r.afterName limit' p place name t) (r.afterName limit p place name t) := by
  unfold afterName
  split
  · exact keeps_ok t _
  · exact complete_keeps h r p _ t

/-- With more room the reader gives the same answer, unless it had too little. -/
theorem take_keeps (h : limit ≤ limit') (r : Reader) (t : Token) :
    Keeps t (r.take limit' t) (r.take limit t) := by
  unfold take
  cases r.mode with
  | statement => exact statement_keeps h r t
  | operand p => exact operand_keeps h r p t
  | name p place name => exact afterName_keeps h r p place name t
  | complete p e => exact complete_keeps h r p e t
  | useDone start module symbol newName => exact terminate_keeps h r start _ t
  | letName | letEquals | useModule | useColons | useSymbol | useAlias | pathSymbol =>
    dsimp only
    split
    · exact keeps_ok t _
    · exact keeps_reject t _
  | leadingName place name =>
    dsimp only
    split
    · exact keeps_ok t _
    · exact afterName_keeps h r _ place name t
  | useTail start module symbol =>
    dsimp only
    split
    · exact keeps_ok t _
    · exact terminate_keeps h r start _ t
  | pathCall p place module symbol =>
    dsimp only
    split
    · exact complete_keeps h r p _ t
    · exact keeps_reject t _

theorem take_of_le (h : limit ≤ limit') {r r' : Reader} {t : Token} (hr : r.take limit t = .ok r') :
    r.take limit' t = .ok r' := by
  have hkeeps := take_keeps h r t
  rw [hr] at hkeeps
  exact hkeeps

theorem take_error_of_le (h : limit ≤ limit') {r : Reader} {t : Token} {fault : Fault}
    (hr : r.take limit t = .error fault) (hdeep : fault.cause ≠ .nestingTooDeep) :
    r.take limit' t = .error fault ∧ Blames t fault := by
  have hkeeps := take_keeps h r t
  rw [hr] at hkeeps
  exact hkeeps.resolve_left hdeep

end

/-! ## Runs that fail -/

/-- How many tokens a run takes before it comes to its end. -/
def taken (limit : Nat) (r : Reader) : List Token → Nat
  | [] => 0
  | t :: ts =>
    match r.advance limit t with
    | .error _ => 0
    | .ok next => if t.kind = .eof then 0 else next.taken limit ts + 1

/-- Without the end of input, a run that goes well leads on. -/
theorem leads_of_run {limit : Nat} {ts : List Token} (heof : ∀ t ∈ ts, t.kind ≠ .eof)
    {r r' : Reader} (h : r.run limit ts = .ok r') : Leads limit r ts r' := by
  induction ts generalizing r with
  | nil =>
    intro rest
    cases h
    rfl
  | cons t ts ih =>
    have ht : t.kind ≠ .eof := heof t List.mem_cons_self
    intro rest
    rw [run] at h
    rw [List.cons_append, run]
    cases hnext : r.advance limit t with
    | error fault => rw [hnext] at h; cases h
    | ok next =>
      rw [hnext] at h
      simp only [ht, if_false] at h ⊢
      exact ih (fun t' ht' => heof t' (List.mem_cons_of_mem _ ht')) h rest

/-- A run that fails goes well up to one token and refuses that one. -/
theorem exists_of_run_error {limit : Nat} {r : Reader} {tokens : List Token} {fault : Fault}
    (h : r.run limit tokens = .error fault) :
    ∃ ts t rest r', tokens = ts ++ t :: rest ∧ r.taken limit tokens = ts.length ∧
      (∀ t' ∈ ts, t'.kind ≠ .eof) ∧ r.run limit ts = .ok r' ∧ r'.take limit t = .error fault := by
  induction tokens generalizing r with
  | nil => cases h
  | cons t tokens ih =>
    cases htake : r.take limit t with
    | error fault' =>
      have hadvance := advance_error htake
      rw [run, hadvance] at h
      cases h
      exact ⟨[], t, tokens, r, rfl, by rw [taken, hadvance]; rfl, by simp, rfl, htake⟩
    | ok next =>
      have ht : t.kind ≠ .eof := by
        intro ht
        rw [run, advance, ht, htake] at h
        cases h
      have hadvance := advance_of_ne_eof ht htake
      rw [run, hadvance] at h
      simp only [ht, if_false] at h
      obtain ⟨ts, t', rest, r', rfl, htaken, heof, hrun, hrefused⟩ := ih h
      refine ⟨t :: ts, t', rest, r', rfl, ?_, List.forall_mem_cons.2 ⟨ht, heof⟩, ?_, hrefused⟩
      · rw [taken, hadvance, List.length_cons, ← htaken]
        simp only [ht, if_false]
      · rw [run, hadvance]
        simp only [ht, if_false]
        exact hrun

theorem run_of_le {limit limit' : Nat} (hle : limit ≤ limit') {ts : List Token} {r r' : Reader}
    (heof : ∀ t ∈ ts, t.kind ≠ .eof) (h : r.run limit ts = .ok r') : r.run limit' ts = .ok r' := by
  induction ts generalizing r with
  | nil => exact h
  | cons t ts ih =>
    have ht : t.kind ≠ .eof := heof t List.mem_cons_self
    cases htake : r.take limit t with
    | error fault => rw [run, advance_error htake] at h; cases h
    | ok next =>
      rw [run, advance_of_ne_eof ht htake] at h
      rw [run, advance_of_ne_eof ht (take_of_le hle htake)]
      simp only [ht, if_false] at h ⊢
      exact ih (fun t' ht' => heof t' (List.mem_cons_of_mem _ ht')) h

/-- Where a run comes to a token that it refuses, so does every run with at least as much room, whatever
comes after that token. -/
theorem run_error_of_le {limit limit' : Nat} (hle : limit ≤ limit') {ts rest : List Token} {t : Token}
    {r r' : Reader} {fault : Fault} (heof : ∀ t ∈ ts, t.kind ≠ .eof) (h : r.run limit ts = .ok r')
    (ht : r'.take limit t = .error fault) (hdeep : fault.cause ≠ .nestingTooDeep) :
    r.run limit' (ts ++ t :: rest) = .error fault := by
  rw [leads_of_run heof (run_of_le hle heof h), run,
    advance_error (take_error_of_le hle ht hdeep).1]

end Scriptlet.Reader
