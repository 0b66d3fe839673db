import Scriptlet.Proofs.Parsing
import Scriptlet.Proofs.Refusals

/-!
# Where a list of tokens stops being the beginning of a program

The reader never goes on with tokens that no program begins with, and it never refuses a token that some
program goes on with. So it refuses the first token that cannot be continued, and it misses something at
the end of input exactly if the text before it is the beginning of a program.

* `Completable l`: a text of `l` ends with its only end of input. The languages of all states have one
  (`residual_completable`).
* `completes_of_run`: tokens that a run has taken are the beginning of a program.
* `ofTokensWithin_refused`: which tokens are refused, and what the end of input means.
-/

namespace Scriptlet

namespace Reader

open Scriptlet.Grammar
open Scriptlet.Token (Kind)

/-! ## Every state can be completed -/

/-- Some text of `l` has one end of input, and that at its end. -/
def Completable (l : Texts) : Prop := ∃ ks, .eof ∉ ks ∧ ks ++ [.eof] ∈ l

namespace Completable

theorem mono {l m : Texts} (h : l ≤ m) (hl : Completable l) : Completable m := by
  obtain ⟨ks, heof, hks⟩ := hl
  exact ⟨ks, heof, h hks⟩

/-- A text without the end of input may come before. -/
theorem after {l m : Texts} {w : List Kind} (hw : w ∈ l) (heof : .eof ∉ w) (hm : Completable m) :
    Completable (l * m) := by
  obtain ⟨ks, hks, hmem⟩ := hm
  refine ⟨w ++ ks, ?_, ?_⟩
  · rw [List.mem_append]
    exact not_or.2 ⟨heof, hks⟩
  · rw [List.append_assoc]
    exact Language.append_mem_mul hw hmem

theorem word_mul {k : Kind} (hk : k ≠ .eof) {l : Texts} (hl : Completable l) :
    Completable (word k * l) :=
  hl.after (mem_word.2 rfl) (by simpa using hk.symm)

theorem names_mul {l : Texts} (hl : Completable l) : Completable (names * l) :=
  hl.after (w := [.ident "x"]) ⟨_, rfl, rfl⟩ (by simp)

theorem expressions_mul {l : Texts} (hl : Completable l) : Completable (expressions * l) := by
  have hliteral : [.int 0] ∈ expressions :=
    .chain (.operand (.plain (.int 0) .nil)) .nil
  exact hl.after hliteral (by simp)

theorem listed {l : Texts} (hl : Completable l) : Completable (Grammar.listed l) :=
  (hl.word_mul (by nofun)).after (l := elements) .nil List.not_mem_nil

/-- An operand may be all of its expression. -/
theorem afterOperand {close : Bool → Texts} (h : ∀ bare, Completable (close bare))
    (callable alone : Bool) : Completable (Reader.afterOperand callable alone close) :=
  (h _).mono le_self_add

end Completable

theorem completable_programs (n : Nat) : Completable (programs n) := by
  have hclosers {close : Texts} (h : Completable close) : Completable (inBlock close) :=
    h.mono fun w hw => ⟨[], w, rfl, .nil, hw⟩
  induction n with
  | zero => exact hclosers ⟨[], List.not_mem_nil, mem_word.2 rfl⟩
  | succ n ih => exact hclosers (ih.word_mul (by nofun))

theorem completable_endings (n : Nat) : Completable (endings n) := by
  obtain ⟨ks, heof, hks⟩ := completable_programs n
  refine ⟨.symbol .semicolon :: ks, by simpa using heof, ?_⟩
  exact ⟨[.symbol .semicolon], _, rfl, .semicolon, hks⟩

theorem completable_closing {ends : Texts} (h : Completable ends) (bs : List (Bracket × List Pending)) :
    ∀ bare, Completable (closing ends bs bare) := by
  induction bs with
  | nil => exact fun _ => h
  | cons b bs ih =>
    obtain ⟨b, outer⟩ := b
    have hclose {k : Kind} (hk : k ≠ .eof) (callable : Bool) :
        Completable (word k * afterOperand callable outer.isEmpty (closing ends bs)) :=
      (Completable.afterOperand ih callable _).word_mul hk
    intro bare
    cases b with
    | index => exact hclose (by nofun) false
    | group => exact (hclose (by nofun) bare).mono le_self_add
    | tuple | call => exact (hclose (by nofun) false).mono le_self_add

theorem completable_atOperand {ends : Texts} (h : Completable ends) (alone : Bool)
    (bs : List (Bracket × List Pending)) : Completable (atOperand ends alone bs) :=
  (completable_closing h bs false).expressions_mul.mono le_self_add

theorem completable_afterName {ends : Texts} (h : Completable ends) (alone : Bool)
    (bs : List (Bracket × List Pending)) : Completable (afterNameTexts ends alone bs) :=
  (Completable.afterOperand (completable_closing h bs) true alone).mono le_self_add

/-- Whatever is open can be closed. -/
theorem residual_completable (r : Reader) : Completable r.residual := by
  have hends := completable_endings r.blocks.length
  have hassigned : Completable (assigned r.blocks.length) :=
    hends.expressions_mul.word_mul (by nofun)
  have huse : Completable (useTails r.blocks.length) := hends.mono le_add_self
  have hcall (p : Phrase) : Completable (word (.symbol .openParen) * listed (afterOperand false
      p.pending.isEmpty (closing (endings r.blocks.length) p.brackets))) :=
    (Completable.afterOperand (completable_closing hends _) _ _).listed.word_mul (by nofun)
  unfold residual
  cases r.mode with
  | statement => exact completable_programs _
  | leadingName => exact hassigned.mono le_self_add
  | letName => exact hassigned.names_mul
  | letEquals => exact hassigned
  | useModule => exact (huse.names_mul.word_mul (by nofun)).names_mul
  | useColons => exact huse.names_mul.word_mul (by nofun)
  | useSymbol => exact huse.names_mul
  | useTail => exact huse
  | useAlias => exact hends.names_mul
  | useDone => exact hends
  | operand p => exact completable_atOperand hends _ _
  | name p => exact completable_afterName hends _ _
  | pathSymbol p => exact (hcall p).names_mul
  | pathCall p => exact hcall p
  | complete p e => exact Completable.afterOperand (completable_closing hends _) _ _

/-! ## The tokens of a run -/

/-- What may come after a run is what may come after its tokens. -/
theorem mem_residual_of_run {limit : Nat} {ts : List Token} (heof : ∀ t ∈ ts, t.kind ≠ .eof)
    {r r' : Reader} (h : r.run limit ts = .ok r') (w : List Kind) :
    w ∈ r'.residual ↔ ts.map (·.kind) ++ w ∈ r.residual := by
  induction ts generalizing r with
  | nil =>
    cases h
    rfl
  | cons t ts ih =>
    have ht : t.kind ≠ .eof := heof t List.mem_cons_self
    have hfollows := take_follows limit r t
    cases htake : r.take limit t with
    | error fault => rw [run, advance_error htake] at h; cases h
    | ok next =>
      rw [run, advance_of_ne_eof ht htake] at h
      simp only [ht, if_false] at h
      rw [htake] at hfollows
      have hquotient : quotient t.kind r.residual = next.residual := hfollows.trans (if_neg ht)
      rw [ih (fun t' ht' => heof t' (List.mem_cons_of_mem _ ht')) h]
      show _ ∈ next.residual ↔ _
      rw [← hquotient]
      rfl

end Reader

namespace Program

open Scriptlet.Grammar

/-- The list ends with its only end of input. -/
def EndsOnce (tokens : List Token) : Prop :=
  ∃ ks, tokens.map (·.kind) = ks ++ [.eof] ∧ .eof ∉ ks

/-- Some list with one end of input, at its end, begins with the tokens `ts` and is read, wherever there
is room for as many levels as it has tokens. -/
def Completes (lines : List String) (ts : List Token) : Prop :=
  ∃ u, ts <+: u ∧ EndsOnce u ∧
    ∀ limit, u.length ≤ limit → ∃ p, ofTokensWithin limit lines u = .ok p

/-- The place of the token that is refused: the number of tokens that are taken before it. -/
def refusedAt (limit : Nat) : List Token → Nat
  | [] => 0
  | t :: ts => (Reader.initial t.span).taken limit (t :: ts)

/-- A program is read, if there is room for as many levels as it has tokens. -/
theorem exists_of_isProgram {ks : List Token.Kind} {tokens : List Token}
    (hkinds : tokens.map (·.kind) = ks ++ [.eof]) (heof : .eof ∉ ks)
    (hprogram : ks ++ [.eof] ∈ programs 0) (lines : List String) {limit : Nat}
    (hroom : tokens.length ≤ limit) : ∃ p, ofTokensWithin limit lines tokens = .ok p := by
  cases tokens with
  | nil => exact absurd hkinds.symm (List.append_ne_nil_of_right_ne_nil _ (List.cons_ne_nil _ _))
  | cons t ts =>
    have hdecides := Reader.run_decides limit heof (Reader.initial t.span) hkinds
    rw [ofTokensWithin_eq (isEnded_of_kinds hkinds)]
    cases hrun : (Reader.initial t.span).run limit (t :: ts) with
    | ok r => exact ⟨_, rfl⟩
    | error fault =>
      have hnesting : (Reader.initial t.span).nesting + (t :: ts).length ≤ limit := by
        show 0 + (t :: ts).length ≤ limit
        omega
      rw [hrun] at hdecides
      exact absurd hprogram (hdecides.resolve_left (Reader.run_not_tooDeep hnesting hrun))

/-- The tokens that a run has taken are the beginning of a program. -/
theorem completes_of_run {limit : Nat} {first : Span} {ts : List Token} {r : Reader}
    (heof : ∀ t ∈ ts, t.kind ≠ .eof) (h : (Reader.initial first).run limit ts = .ok r)
    (lines : List String) : Completes lines ts := by
  obtain ⟨ks, hks, hmem⟩ := Reader.residual_completable r
  have hprogram := (Reader.mem_residual_of_run heof h (ks ++ [.eof])).1 hmem
  rw [← List.append_assoc] at hprogram
  have hkinds : (ts ++ tokensOf ks).map (·.kind) = ts.map (·.kind) ++ ks ++ [.eof] := by
    rw [List.map_append, tokensOf, List.map_map, List.append_assoc]
    exact congrArg (ts.map (·.kind) ++ ·) (List.map_id _)
  have hne : .eof ∉ ts.map (·.kind) ++ ks := by
    rw [List.mem_append, List.mem_map]
    rintro (⟨t, ht, hk⟩ | hk)
    · exact heof t ht hk
    · exact hks hk
  refine ⟨ts ++ tokensOf ks, List.prefix_append _ _, ⟨_, hkinds, hne⟩, fun limit' hroom => ?_⟩
  exact exists_of_isProgram hkinds hne hprogram lines hroom

/-! ## Refused lists -/

/-- Reading a list of tokens that starts with `first`. -/
theorem ofTokensWithin_of_head {limit : Nat} {lines : List String} {tokens : List Token} {first : Token}
    (hfirst : tokens.head? = some first) (hended : isEnded tokens = true) :
    ofTokensWithin limit lines tokens =
      match (Reader.initial first.span).run limit tokens with
      | .ok r => .ok ⟨some ⟨first.span.start, r.last.stop⟩, r.done.reverse⟩
      | .error fault => .error (.failure (fault.quote lines)) := by
  cases tokens with
  | nil => cases hfirst
  | cons t ts =>
    cases hfirst
    exact ofTokensWithin_eq hended

/-- A list that is refused, unless it is nested too deep, has a token that is to blame: the tokens before
it are the beginning of a program, and with it the list is refused whatever comes next. -/
theorem exists_blamed {limit : Nat} {lines : List String} {tokens : List Token} {f : Failure}
    (hrefused : ofTokensWithin limit lines tokens = .error (.failure f))
    (hdeep : f.cause ≠ .nestingTooDeep) :
    ∃ ts t rest fault, tokens = ts ++ t :: rest ∧ refusedAt limit tokens = ts.length ∧
      (∀ t' ∈ ts, t'.kind ≠ .eof) ∧ Reader.Blames t fault ∧ f = fault.quote lines ∧
      Completes lines ts ∧
      ∀ limit' rest', limit ≤ limit' → isEnded (ts ++ t :: rest') = true →
        ofTokensWithin limit' lines (ts ++ t :: rest') = .error (.failure f) := by
  have hended : isEnded tokens = true := by
    by_contra hno
    rw [ofTokensWithin, if_neg hno] at hrefused
    cases hrefused
  cases tokens with
  | nil => cases hended
  | cons first tokens =>
    rw [ofTokensWithin_eq hended] at hrefused
    cases hrun : (Reader.initial first.span).run limit (first :: tokens) with
    | ok r => rw [hrun] at hrefused; cases hrefused
    | error fault =>
      rw [hrun] at hrefused
      cases hrefused
      obtain ⟨ts, t, rest, r, hsplit, htaken, heof, hleads, hrefused⟩ :=
        Reader.exists_of_run_error hrun
      have hblames := (Reader.take_error_of_le (Nat.le_refl limit) hrefused hdeep).2
      refine ⟨ts, t, rest, fault, hsplit, htaken, heof, hblames, rfl,
        completes_of_run heof hleads lines, fun limit' rest' hle hended' => ?_⟩
      have hfirst : (ts ++ t :: rest').head? = some first := by
        have hhead := congrArg List.head? hsplit
        cases ts <;> exact hhead.symm
      rw [ofTokensWithin_of_head hfirst hended',
        Reader.run_error_of_le hle heof hleads hrefused hdeep]

/-- Where a list has an end of input, its only end of input is at its end. -/
theorem eq_nil_of_endsOnce {ts rest : List Token} {t : Token} (h : EndsOnce (ts ++ t :: rest))
    (ht : t.kind = .eof) : rest = [] := by
  obtain ⟨ks, hkinds, heof⟩ := h
  by_contra hrest
  have hinit := congrArg List.dropLast hkinds
  rw [List.dropLast_concat, ← List.map_dropLast, List.dropLast_append_cons,
    List.dropLast_cons_of_ne_nil hrest, List.map_append, List.map_cons] at hinit
  apply heof
  rw [← hinit, ht]
  exact List.mem_append_right _ List.mem_cons_self

/-- A token that is not the end of input stands before it. -/
theorem exists_last_of_endsOnce {ts rest : List Token} {t : Token} (h : EndsOnce (ts ++ t :: rest))
    (ht : t.kind ≠ .eof) : ∃ middle, (ts ++ t :: rest).dropLast = ts ++ [t] ++ middle := by
  have hrest : rest ≠ [] := by
    rintro rfl
    obtain ⟨ks, hkinds, -⟩ := h
    have hlast := congrArg List.getLast? hkinds
    rw [List.map_append, List.map_singleton, List.getLast?_concat, List.getLast?_concat] at hlast
    exact ht (Option.some.inj hlast)
  refine ⟨rest.dropLast, ?_⟩
  rw [List.dropLast_append_cons, List.dropLast_cons_of_ne_nil hrest, List.append_assoc]
  rfl

theorem isEnded_of_endsOnce {tokens : List Token} (h : EndsOnce tokens) : isEnded tokens = true := by
  obtain ⟨ks, hkinds, -⟩ := h
  exact isEnded_of_kinds hkinds

/-- Consider a list with one end of input, at its end, that is refused, though it is not nested too deep.
A token that is refused is blamed for it, the tokens before it are the beginning of a program, and every
list that begins with the tokens up to it is refused in the same way. It is the end of input that is
blamed if and only if the list without it is the beginning of a program. -/
theorem ofTokensWithin_refused (limit : Nat) (lines : List String) (tokens : List Token)
    (hends : EndsOnce tokens) (f : Failure)
    (hrefused : ofTokensWithin limit lines tokens = .error (.failure f))
    (hdeep : f.cause ≠ .nestingTooDeep) :
    (f.cause.code = "E101" ∨ f.cause.code = "E104" →
      (∃ t fault, tokens[refusedAt limit tokens]? = some t ∧ Reader.Blames t fault ∧
        f = fault.quote lines) ∧
      Completes lines (tokens.take (refusedAt limit tokens)) ∧
      ∀ limit' u, limit ≤ limit' → EndsOnce u → tokens.take (refusedAt limit tokens + 1) <+: u →
        ofTokensWithin limit' lines u = .error (.failure f)) ∧
    (f.cause.code = "E102" ↔ Completes lines tokens.dropLast) := by
  obtain ⟨ts, t, rest, fault, rfl, hplace, heof, hblames, rfl, hcompletes, hagain⟩ :=
    exists_blamed hrefused hdeep
  have htoken : (ts ++ t :: rest)[ts.length]? = some t := by simp
  have htake : (ts ++ t :: rest).take ts.length = ts := List.take_left
  have htake' : (ts ++ t :: rest).take (ts.length + 1) = ts ++ [t] := by
    rw [List.take_length_add_append, List.take_succ_cons, List.take_zero]
  have hsame : ∀ limit' u, limit ≤ limit' → EndsOnce u → ts ++ [t] <+: u →
      ofTokensWithin limit' lines u = .error (.failure (fault.quote lines)) := by
    rintro limit' u hle hends' ⟨rest', rfl⟩
    rw [List.append_assoc] at hends' ⊢
    exact hagain limit' rest' hle (isEnded_of_endsOnce hends')
  rw [hplace, htake, htake']
  refine ⟨fun _ => ⟨⟨t, fault, htoken, hblames, rfl⟩, hcompletes, hsame⟩, ?_⟩
  have hstuck (ht : t.kind ≠ .eof) : ¬ Completes lines (ts ++ t :: rest).dropLast := by
    rintro ⟨u, hu, hends', hread⟩
    have hbegins : ts ++ [t] <+: (ts ++ t :: rest).dropLast := by
      obtain ⟨last, hlast⟩ := exists_last_of_endsOnce hends ht
      rw [hlast]
      exact List.prefix_append _ _
    obtain ⟨p, hp⟩ := hread (max limit u.length) (Nat.le_max_right _ _)
    rw [hsame _ u (Nat.le_max_left _ _) hends' (hbegins.trans hu)] at hp
    cases hp
  have hcodes : "E101" ≠ "E102" ∧ "E104" ≠ "E102" := by decide
  cases hblames with
  | ended expected ht =>
    rw [eq_nil_of_endsOnce hends ht, List.dropLast_concat]
    exact ⟨fun _ => hcompletes, fun _ => rfl⟩
  | unexpected expected ht =>
    exact ⟨fun h => absurd h hcodes.1, fun h => absurd h (hstuck ht)⟩
  | uncallable place ht =>
    have hne : t.kind ≠ .eof := by rw [ht]; nofun
    exact ⟨fun h => absurd h hcodes.2, fun h => absurd h (hstuck hne)⟩

/-- The result of a call cannot be called, so the second parenthesis is to blame and nothing after it
helps; a tuple that is still open can be closed. -/
theorem ofTokensWithin_refused_calledTwice :
    let called := tokensOf [.symbol .openBrace, .ident "f", .symbol .openParen, .symbol .closeParen,
      .symbol .openParen, .symbol .closeParen, .symbol .closeBrace]
    let unfinished := tokensOf [.ident "x", .symbol .assign, .symbol .openParen, .int 1, .symbol .comma]
    refusedAt 9 called = 4 ∧ Completes [] (called.take 4) ∧ ¬ Completes [] called.dropLast ∧
      Completes [] unfinished.dropLast := by
  have hends (ks : List Token.Kind) (heof : .eof ∉ ks) : EndsOnce (tokensOf ks) :=
    ⟨ks, by rw [tokensOf, List.map_map]; exact List.map_id _, heof⟩
  obtain ⟨hcalled, hended⟩ := ofTokensWithin_refused 9 [] (tokensOf [.symbol .openBrace, .ident "f",
    .symbol .openParen, .symbol .closeParen, .symbol .openParen, .symbol .closeParen,
    .symbol .closeBrace]) (hends _ (by decide)) ⟨.invalidCallee, some default, none⟩ rfl (by nofun)
  obtain ⟨-, hunfinished⟩ := ofTokensWithin_refused 9 [] (tokensOf [.ident "x", .symbol .assign,
    .symbol .openParen, .int 1, .symbol .comma]) (hends _ (by decide))
    ⟨.unexpectedEnd .expression, some default, none⟩ rfl (by nofun)
  exact ⟨rfl, (hcalled (.inr rfl)).2.1, fun h => absurd (hended.2 h) (by decide), hunfinished.1 rfl⟩

end Program

end Scriptlet
