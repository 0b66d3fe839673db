import Scriptlet.Proofs.QuotedLines
import Scriptlet.Proofs.Refusals
import Scriptlet.Proofs.SpanNesting

/-!
# The lines that refused tokens quote

A source text that is refused, though it has tokens, quotes the line of the token that the reader refuses.
The span of the failure is that of the token too, with one exception: a node that cannot be called is shown
with the parenthesis after it, so this span starts with the node, and the node may start in an earlier line.

* `Text.numberedLine? text n`: the line with a number, where only line feeds end lines.
* `Reader.take_faultsAt`: what is wrong is wrong with the token, or with the node before a parenthesis.
* `Program.exists_refusing`: the token that is refused, and what the reader holds by then.
* `Program.quotes_own_line_iff`: when a failure quotes the line that its span starts in.
-/

namespace Scriptlet

/-! ## Numbered lines -/

namespace Text

/-- The line with a number, counted from one. Only line feeds end lines. -/
def numberedLine? (text : List Char) : Nat → Option (List Char)
  | 0 => none
  | n + 1 => (text.splitOn '\n')[n]?

/-- The only breaks in the text are line feeds. -/
def OnlyLineFeeds (text : List Char) : Prop := ∀ c ∈ text, isBreak c = true → c = '\n'

instance (text : List Char) : Decidable (OnlyLineFeeds text) :=
  decidable_of_iff (text.all fun c => !isBreak c || c == '\n') (by
    simp [OnlyLineFeeds, imp_iff_not_or])

/-- The pieces are the lines then; only an empty last line is no piece. -/
theorem pieces_begins_splitOn {text : List Char} (h : OnlyLineFeeds text) :
    pieces text <+: text.splitOn '\n' := by
  induction text with
  | nil => exact List.nil_prefix
  | cons c cs ih =>
    obtain ⟨hc, hcs⟩ := List.forall_mem_cons.1 h
    have hrest := ih hcs
    have hreturn : ¬(c = '\r' ∧ cs.head? = some '\n') := by
      rintro ⟨rfl, -⟩
      exact absurd (hc rfl) (by decide)
    rw [List.splitOn_cons_eq_if_modifyHead]
    cases hbreak : isBreak c with
    | true =>
      rw [pieces_break hreturn hbreak, if_pos (by simp [hc hbreak])]
      exact (List.prefix_cons_inj _).2 hrest
    | false =>
      have hne : c ≠ '\n' := by
        rintro rfl
        cases hbreak
      rw [if_neg (by simp [hne])]
      cases hpieces : pieces cs with
      | nil =>
        have hnil : cs = [] := by
          by_contra hcons
          exact pieces_ne_nil hcons hpieces
        rw [hnil, pieces_single hbreak]
        exact List.prefix_refl _
      | cons line more =>
        rw [hpieces] at hrest
        obtain ⟨tail, htail⟩ := hrest
        rw [pieces_char hbreak hpieces, ← htail]
        exact ⟨tail, rfl⟩

/-- What is quoted as line number `n` is the line with this number. -/
theorem numberedLine?_of_lineAt? {source line : String} {n : Nat} (h : OnlyLineFeeds source.toList)
    (hline : lineAt? (lines source) n = some line) :
    numberedLine? source.toList n = some line.toList := by
  cases n with
  | zero => cases hline
  | succ n =>
    have hmap : (pieces source.toList)[n]?.map String.ofList = some line := by
      rw [← List.getElem?_map]
      exact hline
    obtain ⟨piece, hpiece, rfl⟩ := Option.map_eq_some_iff.1 hmap
    obtain ⟨tail, htail⟩ := pieces_begins_splitOn h
    have hlt : n < (pieces source.toList).length := (List.getElem?_eq_some_iff.1 hpiece).1
    show (source.toList.splitOn '\n')[n]? = _
    rw [← htail, List.getElem?_append_left hlt, hpiece, String.toList_ofList]

end Text

/-- Later places stand in later lines, or in the same line. -/
theorem Location.IsIn.line_le {source : List Char} {l m : Location} (hl : l.IsIn source)
    (hm : m.IsIn source) (h : l.offset ≤ m.offset) : l.line ≤ m.line := by
  have hprefix : source.take l.offset <+: source.take m.offset := List.take_prefix_take_left h
  have hcount := hprefix.sublist.count_le '\n'
  rw [hl.line_eq, hm.line_eq]
  omega

/-! ## Faults -/

namespace Reader

/-- If something is wrong here, then it is wrong with the token `t`, and no other line than that of the token
is quoted. -/
def FaultsAt (t : Token) (x : Except Fault Reader) : Prop :=
  ∀ fault, x = .error fault → fault.cause ≠ .invalidCallee ∧ fault.span = t.span ∧
    ∀ n, fault.quoted = some n → n = t.span.start.line

theorem faultsAt_ok (t : Token) (r : Reader) : FaultsAt t (.ok r) := by
  intro fault h
  cases h

theorem faultsAt_reject (t : Token) (expected : Expected) : FaultsAt t (reject t expected) := by
  intro fault h
  unfold reject at h
  split at h
  · cases h
    simp
  · cases h
    simp

variable {limit : Nat} {r : Reader} {t : Token}

theorem faultsAt_deepen (levels : Nat) : FaultsAt t (deepen limit t levels r) := by
  intro fault h
  unfold deepen at h
  split_ifs at h
  cases h
  simp

theorem operand_faultsAt (p : Phrase) : FaultsAt t (r.operand limit p t) := by
  unfold operand
  split
  any_goals exact faultsAt_ok t _
  · exact faultsAt_deepen _
  · split
    any_goals exact faultsAt_ok t _
    exact faultsAt_reject t _
  · split_ifs
    · exact faultsAt_deepen _
    · exact faultsAt_reject t _
  · exact faultsAt_reject t _

theorem statement_faultsAt : FaultsAt t (r.statement limit t) := by
  unfold statement
  split
  any_goals exact faultsAt_ok t _
  · exact faultsAt_deepen _
  · split
    · exact faultsAt_reject t _
    · exact faultsAt_ok t _
  · split_ifs
    · exact faultsAt_ok t _
    · exact faultsAt_reject t _
  · exact operand_faultsAt _

theorem terminate_faultsAt (start : Span) (make : Option Span → Node) :
    FaultsAt t (r.terminate limit start make t) := by
  unfold terminate
  split
  · exact faultsAt_ok t _
  · exact statement_faultsAt
  · exact statement_faultsAt
  · exact faultsAt_reject t _

theorem settle_faultsAt (p : Phrase) (e : Node) : FaultsAt t (r.settle limit p e t) := by
  unfold settle
  split
  · exact terminate_faultsAt _ _
  all_goals
    split
    any_goals exact faultsAt_ok t _
    exact faultsAt_reject t _

/-- The fault of a node that cannot be called, found with the parenthesis `t`. -/
def uncallable (e : Node) (t : Token) : Fault :=
  ⟨.invalidCallee, (Span.between e.span (some t.span)).getD t.span, some t.span.start.line⟩

/-- After a node all is about the next token, unless this is a parenthesis and the node cannot be
called. -/
theorem complete_faultsAt (p : Phrase) (e : Node) :
    FaultsAt t (r.complete limit p e t) ∨ isCallable e = false ∧ t.kind = .symbol .openParen ∧
      r.complete limit p e t = .error (uncallable e t) := by
  unfold complete
  dsimp only
  split
  · next hk =>
    split_ifs with hcallable
    · exact .inl (faultsAt_deepen _)
    · exact .inr ⟨Bool.eq_false_iff.2 hcallable, hk, rfl⟩
  · exact .inl (faultsAt_deepen _)
  · split
    · exact .inl (faultsAt_ok t _)
    · exact .inl (settle_faultsAt p _)
  · exact .inl (settle_faultsAt p _)

theorem complete_faultsAt_of_isCallable (p : Phrase) {e : Node} (he : isCallable e = true) :
    FaultsAt t (r.complete limit p e t) := by
  refine (complete_faultsAt p e).resolve_right ?_
  rintro ⟨hno, -⟩
  rw [he] at hno
  cases hno

theorem afterName_faultsAt (p : Phrase) (place : Span) (name : String) :
    FaultsAt t (r.afterName limit p place name t) := by
  unfold afterName
  split
  · exact faultsAt_ok t _
  · exact complete_faultsAt_of_isCallable p rfl

/-- What is wrong is wrong with the token, unless the reader has read a whole node that cannot be called
and the token is the parenthesis after it. -/
theorem take_faultsAt (limit : Nat) (r : Reader) (t : Token) :
    FaultsAt t (r.take limit t) ∨ ∃ p e, r.mode = .complete p e ∧ t.kind = .symbol .openParen ∧
      r.take limit t = .error (uncallable e t) := by
  unfold take
  cases r.mode with
  | statement => exact .inl statement_faultsAt
  | operand p => exact .inl (operand_faultsAt p)
  | name p place name => exact .inl (afterName_faultsAt p place name)
  | useDone start module symbol newName => exact .inl (terminate_faultsAt _ _)
  | complete p e =>
    rcases complete_faultsAt p e with h | ⟨-, hk, h⟩
    · exact .inl h
    · exact .inr ⟨p, e, rfl, hk, h⟩
  | letName | letEquals | useModule | useColons | useSymbol | useAlias | pathSymbol =>
    left
    dsimp only
    split
    · exact faultsAt_ok t _
    · exact faultsAt_reject t _
  | leadingName place name =>
    left
    dsimp only
    split
    · exact faultsAt_ok t _
    · exact afterName_faultsAt _ place name
  | useTail start module symbol =>
    left
    dsimp only
    split
    · exact faultsAt_ok t _
    · exact terminate_faultsAt _ _
  | pathCall p place module symbol =>
    left
    dsimp only
    split
    · exact complete_faultsAt_of_isCallable p rfl
    · exact faultsAt_reject t _

/-! ## Where the reader stands -/

/-- Tokens before the end of input lead the reader no further than they reach. -/
theorem Stands.runs {ts tokens : List Token} {base here hi : Nat} {r' : Reader}
    (h : r.Stands ts base here) (htokens : InTurn (Token.Placed ts) tokens here hi)
    (heof : ∀ t ∈ tokens, t.kind ≠ .eof) (hrun : r.run limit tokens = .ok r') :
    ∃ stop ≤ hi, r'.Stands ts base stop := by
  induction tokens generalizing r here with
  | nil =>
    cases hrun
    cases htokens with
    | nil hle => exact ⟨here, hle, h⟩
  | cons t tokens ih =>
    obtain ⟨hk, heof⟩ := List.forall_mem_cons.1 heof
    cases htokens with
    | cons ht hrest =>
      have hspan := ht.2 hk
      rw [Reader.run] at hrun
      cases hnext : r.advance limit t with
      | error fault => rw [hnext] at hrun; cases hrun
      | ok next =>
        rw [hnext] at hrun
        simp only [hk, if_false] at hrun
        exact ih (h.advance hspan hk hnext)
          ((ranged_inTurn ranged_token _).widen_left hrest hspan.le_hi) heof hrun

end Reader

/-- A list of things that lie one after another can be cut anywhere. -/
theorem InTurn.append {α : Type} {P : α → Nat → Nat → Prop} {xs ys : List α} {lo hi : Nat}
    (h : InTurn P (xs ++ ys) lo hi) :
    ∃ mid, InTurn P xs lo mid ∧ InTurn P ys mid hi := by
  induction xs generalizing lo with
  | nil => exact ⟨lo, .empty lo, h⟩
  | cons x xs ih =>
    cases h with
    | cons hx hrest =>
      obtain ⟨mid, hxs, hys⟩ := ih hrest
      exact ⟨mid, .cons hx hxs, hys⟩

/-! ## Failures of source texts -/

namespace Program

open Scriptlet.Text

variable {limit : Nat} {source : String} {tokens : List Token} {f : Failure}

/-- In a source text that is refused the reader comes to a token that it refuses. By then all that it holds
is in its place before this token. -/
theorem exists_refusing (htokens : Token.ofSource source = .ok tokens)
    (h : ofSourceWithin limit source = .error f) :
    ∃ t ∈ tokens, ∃ (r : Reader) (fault : Fault) (base here hi : Nat),
      r.Placed tokens base here ∧ t.Placed tokens here hi ∧
      r.take limit t = .error fault ∧ f = fault.quote (Text.lines source) := by
  have htiled := Lexical.tiled_of_ofSource htokens
  simp only [ofSourceWithin, htokens] at h
  cases tokens with
  | nil =>
    obtain ⟨front, here, hempty, -⟩ := htiled.ended rfl
    simp at hempty
  | cons first more =>
    rw [read] at h
    cases hrun : (Reader.initial first.span).run limit (first :: more) with
    | ok r => rw [hrun] at h; cases h
    | error fault =>
      rw [hrun] at h
      cases h
      obtain ⟨ts, t, rest, r, hsplit, -, heof, hleads, hrefused⟩ := Reader.exists_of_run_error hrun
      obtain ⟨stop, hinTurn⟩ := htiled.tiles.inTurn fun u hu => ⟨hu, htiled.isIn u hu⟩
      have hordered := (htiled.isIn first List.mem_cons_self).span.ordered
      have hinitial : (Reader.initial first.span).Stands (first :: more) first.span.start.offset
          first.span.start.offset :=
        ⟨⟨_, ⟨_, .empty _, .empty _⟩, Nat.le_refl _⟩, ⟨first, List.mem_cons_self, rfl⟩, hordered,
          fun hne => absurd rfl hne⟩
      have hmem : t ∈ first :: more := by
        rw [hsplit]
        simp
      rw [hsplit] at hinTurn
      obtain ⟨mid, hbefore, hafter⟩ := hinTurn.append
      rw [← hsplit] at hbefore hafter
      obtain ⟨here, hle, hstands⟩ := hinitial.runs hbefore heof hleads
      cases hafter with
      | cons ht _ =>
        exact ⟨t, hmem, r, fault, _, here, _, hstands.placed, (ranged_token t).widen_left ht hle,
          hrefused, rfl⟩

/-- A failure at the token `t`: its span is that of the token, except that a node that cannot be called is
shown from its first token up to the parenthesis after it. -/
structure Points (tokens : List Token) (f : Failure) (span : Span) (t : Token) : Prop where
  span_eq : f.span = some span
  mem : t ∈ tokens
  atToken : f.cause ≠ .invalidCallee → span = t.span
  atCallee : f.cause = .invalidCallee → t.kind = .symbol .openParen ∧ span.stop = t.span.stop ∧
    ∃ u ∈ tokens, u.span.start = span.start ∧ u.span.start.offset < t.span.start.offset

/-- A failure points to a token, and if it quotes a line, then that of the token. -/
theorem exists_points (htokens : Token.ofSource source = .ok tokens)
    (h : ofSourceWithin limit source = .error f) :
    ∃ span t, Points tokens f span t ∧ ∀ quoted, f.sourceLine = some quoted →
      lineAt? (Text.lines source) t.span.start.line = some quoted := by
  obtain ⟨t, hmem, r, fault, base, here, hi, hplaced, ht, hrefused, rfl⟩ := exists_refusing htokens h
  refine ⟨fault.span, t, ?_⟩
  rcases Reader.take_faultsAt limit r t with hfaults | ⟨p, e, hmode, hk, htake⟩
  · obtain ⟨hcause, hspan, hline⟩ := hfaults fault hrefused
    refine ⟨⟨rfl, hmem, fun _ => hspan, fun hc => absurd hc hcause⟩, fun quoted hquoted => ?_⟩
    obtain ⟨n, hn, hat⟩ := Option.bind_eq_some_iff.1 hquoted
    rwa [← hline n hn]
  · rw [htake] at hrefused
    cases hrefused
    obtain ⟨mid, -, hheld⟩ := hplaced
    rw [hmode] at hheld
    obtain ⟨z, -, he⟩ := hheld
    obtain ⟨s, hs, hcallee, -⟩ := he.exists_span
    obtain ⟨u, hu, hstart⟩ := hcallee.starts
    have hspan : (Reader.uncallable e t).span = ⟨s.start, t.span.stop⟩ := by
      rw [Reader.uncallable, hs, Span.between_some, Option.getD_some]
    have hlt : s.start.offset < t.span.start.offset := by
      have := hcallee.nonempty
      have := hcallee.le_hi
      have := (ht.2 (by simp [hk])).lo_le
      omega
    rw [hspan]
    refine ⟨⟨by rw [← hspan]; rfl, hmem, fun hne => absurd rfl hne, fun _ => ?_⟩, ?_⟩
    · exact ⟨hk, rfl, u, hu, hstart, hstart ▸ hlt⟩
    · intro quoted hquoted
      exact hquoted

/-- In a source text whose only breaks are line feeds, a failure of the reader quotes the line of the token
that it points to. So it quotes the line that its span starts in if and only if it is not about a node that
cannot be called and starts in an earlier line with another text. -/
theorem quotes_own_line_iff (hbreaks : OnlyLineFeeds source.toList)
    (htokens : Token.ofSource source = .ok tokens) (h : ofSourceWithin limit source = .error f)
    {quoted : String} (hquoted : f.sourceLine = some quoted) :
    ∃ span t, Points tokens f span t ∧
      numberedLine? source.toList t.span.start.line = some quoted.toList ∧
      (numberedLine? source.toList span.start.line = some quoted.toList ↔
        (f.cause = .invalidCallee → span.start.line < t.span.start.line →
          numberedLine? source.toList span.start.line =
            numberedLine? source.toList t.span.start.line)) := by
  obtain ⟨span, t, hpoints, hline⟩ := exists_points htokens h
  have hquotes := numberedLine?_of_lineAt? hbreaks (hline quoted hquoted)
  refine ⟨span, t, hpoints, hquotes, fun hown _ _ => hown.trans hquotes.symm, fun hsame => ?_⟩
  by_cases hcause : f.cause = .invalidCallee
  · obtain ⟨-, -, u, hu, hstart, hlt⟩ := hpoints.atCallee hcause
    have hisIn := (Lexical.tiled_of_ofSource htokens).isIn
    have hle : span.start.line ≤ t.span.start.line := by
      rw [← hstart]
      exact (hisIn u hu).span.start.line_le (hisIn t hpoints.mem).span.start hlt.le
    rcases Nat.eq_or_lt_of_le hle with heq | hearlier
    · rw [heq, hquotes]
    · rw [hsame hcause hearlier, hquotes]
  · rw [hpoints.atToken hcause, hquotes]

/-- It can be decided whether a text is refused with a given failure. -/
instance (x : Except Failure Program) (f : Failure) : Decidable (x = .error f) :=
  match x with
  | .ok _ => isFalse (by simp)
  | .error g => decidable_of_iff (g = f) (by simp)

/-- A token is out of place in the third line of a text, after a statement of two lines. -/
theorem quotes_own_line_iff_thirdLine :
    let source := "let x =\n 1;\n let 2;\n"
    let f : Failure :=
      ⟨.unexpectedToken .variableName "'2'", some ⟨⟨3, 6, 17⟩, ⟨3, 7, 18⟩⟩, some " let 2;"⟩
    ∃ tokens, OnlyLineFeeds source.toList ∧ Token.ofSource source = .ok tokens ∧
      ofSourceWithin 9 source = .error f ∧ f.sourceLine = some " let 2;" ∧
      ∃ span t, Points tokens f span t ∧ span = ⟨⟨3, 6, 17⟩, ⟨3, 7, 18⟩⟩ ∧
        numberedLine? source.toList span.start.line = some " let 2;".toList := by
  intro source f
  have hbreaks : OnlyLineFeeds source.toList := by decide +kernel
  have hrefused : ofSourceWithin 9 source = .error f := by decide +kernel
  have hscanned : (Token.ofSource source).toOption.isSome = true := by decide +kernel
  cases htokens : Token.ofSource source with
  | error f' => rw [htokens] at hscanned; cases hscanned
  | ok tokens =>
    obtain ⟨span, t, hpoints, -, hiff⟩ := quotes_own_line_iff hbreaks htokens hrefused rfl
    have hspan := Option.some.inj hpoints.span_eq
    exact ⟨tokens, hbreaks, rfl, hrefused, rfl, span, t, hpoints, hspan.symm,
      hiff.2 fun hcause => by cases hcause⟩

/-- A number is called in the line after it. The failure starts in the first line and quotes the second. -/
theorem ofSource_quotes_second_line :
    let source := "1\n(2)"
    let f : Failure := ⟨.invalidCallee, some ⟨⟨1, 1, 0⟩, ⟨2, 2, 3⟩⟩, some "(2)"⟩
    OnlyLineFeeds source.toList ∧ (Token.ofSource source).toOption.isSome = true ∧
      ofSource source = .error f ∧ numberedLine? source.toList 1 = some "1".toList ∧
      numberedLine? source.toList 1 ≠ some "(2)".toList := by
  decide +kernel

end Program

end Scriptlet
