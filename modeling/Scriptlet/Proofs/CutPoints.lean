import Scriptlet.Proofs.Layout
import Scriptlet.Proofs.Positions

/-!
# Cutting a source text after a token

The scanner carries no state but its position, and no piece looks further than the end of the next one. So a
source text can be cut after any of its tokens: the part before the cut has the tokens up to there, and the
part after it has the others, in places that are counted from the cut.

* `Location.shift`: a place of the part after the cut, counted from the beginning of the whole text.
* `scan_shift`: where the scanner starts only moves its tokens.
* `Lexeme.of_append`, `Trivia.of_append`, `LongestMatch.of_append`: a piece stays one if the text after it is
  cut short.
* `scan_cut`: the scanner stops between the two parts.
* `stream_cut`: both parts together.
-/

namespace Scriptlet

open Scriptlet.Text

/-! ## Moved places -/

namespace Location

/-- The place of a text that has `lines` line feeds and `offset` characters before it. Only the first line of
the text goes on with a line that has begun, `columns` characters before. -/
def shift (lines columns offset : Nat) (l : Location) : Location :=
  ⟨l.line + lines, if l.line = 1 then l.column + columns else l.column, l.offset + offset⟩

section

variable (lines columns offset : Nat) {l : Location}

theorem shift_step (hl : 1 ≤ l.line) (c : Char) :
    (l.shift lines columns offset).step c = (l.step c).shift lines columns offset := by
  unfold step shift
  by_cases hc : c = '\n'
  · have hnext : l.line + 1 ≠ 1 := by omega
    simp only [hc, if_true, hnext, if_false, Location.mk.injEq, true_and]
    omega
  · by_cases hfirst : l.line = 1
    · simp only [hc, hfirst, if_true, if_false, Location.mk.injEq, true_and]
      omega
    · simp only [hc, hfirst, if_false, Location.mk.injEq, true_and]
      omega

theorem shift_after (hl : 1 ≤ l.line) (text : List Char) :
    (l.shift lines columns offset).after text = (l.after text).shift lines columns offset := by
  induction text generalizing l with
  | nil => rfl
  | cons c text ih =>
    have hstep : 1 ≤ (l.step c).line := by
      have := line_after l [c]
      rw [after_cons, after_nil] at this
      omega
    rw [after_cons, after_cons, shift_step _ _ _ hl, ih hstep]

end

/-- The place after a text is the beginning of what follows, moved there. -/
theorem shift_first (text : List Char) :
    first.shift (text.count '\n') ((first.after text).column - 1) text.length = first.after text := by
  have hline := line_after first text
  have hcolumn := column_after_first text
  have hoffset := offset_after_first text
  have hstart : lineStart text ≤ text.length := by
    have := (List.dropWhile_sublist (· != '\n') (l := text.reverse)).length_le
    rwa [List.length_reverse] at this
  cases hplace : first.after text with
  | mk line column offset =>
    rw [hplace] at hline hcolumn hoffset
    simp only [first, shift, if_true, Location.mk.injEq] at hline hcolumn hoffset ⊢
    omega

end Location

/-- A span with both ends moved. -/
def Span.shift (lines columns offset : Nat) (s : Span) : Span :=
  ⟨s.start.shift lines columns offset, s.stop.shift lines columns offset⟩

/-- The same token in another place. -/
def Token.shift (lines columns offset : Nat) (t : Token) : Token :=
  { t with span := t.span.shift lines columns offset }

/-- The same fault in another place. -/
def Fault.shift (lines columns offset : Nat) (f : Fault) : Fault :=
  { f with span := f.span.shift lines columns offset, quoted := f.quoted.map (· + lines) }

namespace Lexical

open Scriptlet.Token

/-- Where the scanner starts decides the places of the tokens and of the fault, and nothing else. -/
theorem scan_shift (lines columns offset : Nat) (here : Location) (text : List Char)
    (hl : 1 ≤ here.line) :
    scan (here.shift lines columns offset) text =
      ((scan here text).1.map (Token.shift lines columns offset),
        (scan here text).2.map (Fault.shift lines columns offset)) := by
  have hafter {here : Location} (hl : 1 ≤ here.line) (text : List Char) :
      1 ≤ (here.after text).line := by
    have := here.line_after text
    omega
  fun_induction scan here text with
  | case1 here =>
    rw [scan]
    rfl
  | case2 here c cs text rest hpiece ih =>
    rw [scan_of_trivia hpiece, Location.shift_after _ _ _ hl]
    exact ih (hafter hl text)
  | case3 here c cs kind lexeme rest hpiece stop tokens fault hscan ih =>
    have hrest := ih (hafter hl lexeme)
    rw [hscan] at hrest
    rw [scan_of_token hpiece, Location.shift_after _ _ _ hl, hrest]
    rfl
  | case4 here c cs cause front blamed hpiece start =>
    rw [scan_of_fault hpiece, Location.shift_after _ _ _ hl, Location.shift_after _ _ _ (hafter hl front)]
    rfl

/-! ## Pieces in front of less text -/

theorem opensComment_append {text : List Char} (h : opensComment text = true) (more : List Char) :
    opensComment (text ++ more) = true := by
  unfold opensComment at h
  split at h
  · rfl
  · rfl
  · cases h

theorem opensComment_pair (c d : Char) (text more : List Char) :
    opensComment (c :: d :: text) = opensComment (c :: d :: more) := by
  unfold opensComment
  split <;> split <;> simp_all

/-- A lexeme stays one if the text after it is cut short. -/
theorem Lexeme.of_append {kind : Kind} {lexeme rest more : List Char}
    (h : Lexeme kind lexeme (rest ++ more)) : Lexeme kind lexeme rest := by
  have hname (hno : ¬ StartsWithName (rest ++ more)) : ¬ StartsWithName rest := by
    rintro ⟨c, cs, rfl, hc⟩
    exact hno ⟨c, cs ++ more, rfl, hc⟩
  have hfraction (hno : ¬ StartsWithFraction (rest ++ more)) : ¬ StartsWithFraction rest := by
    rintro ⟨c, cs, rfl, hc⟩
    exact hno ⟨c, cs ++ more, rfl, hc⟩
  cases h with
  | reserved hr => exact .reserved hr
  | name hw hr => exact .name hw hr
  | decimal hrun hno hpoint => exact .decimal hrun (hname hno) (hfraction hpoint)
  | hexadecimal hx hrun hno => exact .hexadecimal hx hrun (hname hno)
  | binary hb hrun hno => exact .binary hb hrun (hname hno)
  | string hin => exact .string hin
  | symbol hopen =>
    refine .symbol ?_
    by_contra hcomment
    rw [Bool.not_eq_false] at hcomment
    have hlonger := opensComment_append hcomment more
    rw [List.append_assoc, hopen] at hlonger
    cases hlonger

/-- Blanks and comments stay what they are if the text after them is cut short. -/
theorem Trivia.of_append {text rest more : List Char} (h : Trivia text (rest ++ more)) :
    Trivia text rest := by
  cases h with
  | blank hc => exact .blank hc
  | block hcomment => exact .block hcomment
  | line hin hend =>
    refine .line hin ?_
    cases rest with
    | nil => exact .inl rfl
    | cons c cs =>
      obtain ⟨ds, hds⟩ := hend.resolve_left (List.cons_ne_nil _ _)
      exact .inr ⟨cs, by rw [(List.cons.inj hds).1]⟩

/-- A lexeme of at least two characters that is no number is a lexeme in front of any text; a number consists
of characters of names. -/
theorem Lexeme.anywhere_or_number {kind : Kind} {lexeme rest : List Char}
    (h : Lexeme kind lexeme rest) (hlength : 2 ≤ lexeme.length) :
    (∀ more, Lexeme kind lexeme more) ∨
      (lexeme.head?.any isDecimal = true ∧ ∀ c ∈ lexeme, isNameChar c = true) := by
  have hmarked {p : Char → Bool} (hp : DigitClass p) {x : Char} {digits : List Char}
      (hx : isNameChar x = true) (hrun : DigitRun p digits) :
      ∀ c ∈ '0' :: x :: digits, isNameChar c = true := by
    refine List.forall_mem_cons.2 ⟨by decide, List.forall_mem_cons.2 ⟨hx, fun c hc => ?_⟩⟩
    exact isNameChar_of_isDigitPart hp (hrun.mem c hc)
  cases h with
  | reserved hr => exact .inl fun _ => .reserved hr
  | name hw hr => exact .inl fun _ => .name hw hr
  | string hin => exact .inl fun _ => .string hin
  | decimal hrun _ _ =>
    refine .inr ⟨?_, fun c hc => isNameChar_of_isDigitPart digitClass_isDecimal (hrun.mem c hc)⟩
    obtain ⟨c, cs, rfl, hc⟩ := hrun.head
    exact hc
  | hexadecimal hx hrun _ =>
    refine .inr ⟨rfl, hmarked digitClass_isHex ?_ hrun⟩
    rcases hx with rfl | rfl <;> decide
  | binary hb hrun _ =>
    refine .inr ⟨rfl, hmarked digitClass_isBinary ?_ hrun⟩
    rcases hb with rfl | rfl <;> decide
  | @symbol s _ hopen =>
    refine .inl fun more => .symbol ?_
    rcases symbol_text_cases s with ⟨c, hs⟩ | ⟨c, d, hs⟩
    · rw [hs] at hlength
      simp at hlength
    · rw [hs] at hopen ⊢
      exact (opensComment_pair c d more rest).trans hopen

theorem head_of_isWord {text : List Char} (h : IsWord text) : text.head?.any isDecimal = false := by
  cases text with
  | nil => exact h.elim
  | cons c cs => exact (isNameStart_spec h.1).2.2.2

/-- A lexeme that starts with a digit is a number, and no name follows it. -/
theorem Lexeme.not_startsWithName {kind : Kind} {lexeme rest : List Char}
    (h : Lexeme kind lexeme rest) (hdigit : lexeme.head?.any isDecimal = true) :
    ¬ StartsWithName rest := by
  cases h with
  | decimal _ hname _ => exact hname
  | hexadecimal _ _ hname => exact hname
  | binary _ _ hname => exact hname
  | reserved hr =>
    rw [head_of_isWord (reserved_spec hr).2] at hdigit
    cases hdigit
  | name hw _ =>
    rw [head_of_isWord hw] at hdigit
    cases hdigit
  | string _ => cases hdigit
  | @symbol s _ _ => cases s <;> cases hdigit

/-- The longest match stays the longest one if the text after it is cut short. -/
theorem LongestMatch.of_append {kind : Kind} {lexeme rest more : List Char}
    (h : LongestMatch kind lexeme (rest ++ more)) : LongestMatch kind lexeme rest := by
  refine ⟨h.1.of_append, fun kind' lexeme' rest' heq h' => ?_⟩
  by_contra hlonger
  obtain ⟨c, cs, rfl, rfl⟩ := exists_more_of_longer heq (Nat.not_le.1 hlonger)
  obtain ⟨d, ds, rfl⟩ := List.exists_cons_of_ne_nil h.1.ne_nil
  have hlength : 2 ≤ (d :: ds ++ c :: cs).length := by
    simp only [List.length_append, List.length_cons]
    omega
  rcases h'.anywhere_or_number hlength with hany | ⟨hdigit, hnames⟩
  · -- it would have been the longer match in front of the whole text too
    have hle := h.2 kind' _ (rest' ++ more) (by simp) (hany _)
    omega
  · -- a number takes all characters of names that follow it
    refine h.1.not_startsWithName hdigit ⟨c, cs ++ rest' ++ more, by simp, hnames c (by simp)⟩

/-! ## Cutting -/

/-- After each token the scanner stands between two parts of the text: the first one is cut into the tokens up
to there, and the scanner goes on with the second one alone. -/
theorem scan_cut {here : Location} {text : List Char} {before after : List Token} {t : Token}
    {fault : Option Fault} (h : scan here text = (before ++ t :: after, fault)) (ht : t.kind ≠ .eof) :
    ∃ front rest, front ++ rest = text ∧ t.span.stop = here.after front ∧
      Splits here front (before ++ [t, ⟨.eof, "", ⟨t.span.stop, t.span.stop⟩⟩]) ∧
      scan t.span.stop rest = (after, fault) := by
  fun_induction scan here text generalizing before with
  | case1 here =>
    obtain ⟨hlast, -⟩ := Prod.mk.inj h
    cases before with
    | nil =>
      cases hlast
      exact absurd rfl ht
    | cons u before => simp at hlast
  | case2 here c cs text rest hpiece ih =>
    obtain ⟨htrivia, htext⟩ := piece_trivia_iff.1 hpiece
    obtain ⟨front, rest', rfl, hstop, hsplits, hscan⟩ := ih h
    refine ⟨text ++ front, rest', ?_, ?_, .trivia htrivia.of_append hsplits, hscan⟩
    · rw [List.append_assoc, htext]
    · rw [Location.after_append, hstop]
  | case3 here c cs kind lexeme rest hpiece stop tokens fault' hscan =>
    rename_i ih
    obtain ⟨hlongest, htext⟩ := piece_token_iff.1 hpiece
    obtain ⟨htokens, hfault⟩ := Prod.mk.inj h
    cases before with
    | nil =>
      -- the token itself
      obtain ⟨rfl, rfl⟩ := List.cons.inj htokens
      have hwhole : LongestMatch kind lexeme ([] ++ rest) := hlongest
      refine ⟨lexeme, rest, htext, rfl, ?_, by rw [← hfault]; exact hscan⟩
      have hsplits : Splits here (lexeme ++ []) _ := .token hwhole.of_append .done
      rwa [List.append_nil] at hsplits
    | cons u before =>
      obtain ⟨rfl, rfl⟩ := List.cons.inj htokens
      rw [hfault] at hscan
      obtain ⟨front, rest', rfl, hstop, hsplits, hrest⟩ := ih hscan
      refine ⟨lexeme ++ front, rest', ?_, ?_, .token hlongest.of_append hsplits, hrest⟩
      · rw [List.append_assoc, htext]
      · rw [Location.after_append, hstop]
  | case4 =>
    obtain ⟨hnone, -⟩ := Prod.mk.inj h
    simp at hnone

/-- The cause of a failure, which has its code and its message, and its place. -/
def reason (f : Failure) : Cause × Option Span := (f.cause, f.span)

theorem reason_stream (source : String) :
    (Token.stream source).2.map reason =
      (scan .first source.toList).2.map fun f => (f.cause, some f.span) :=
  Option.map_map _ _ _

/-- A source text can be cut after any token but the end of input. The part before the cut has the tokens up to
there, in the same places, and the end of input. The tokens after the cut are those of the other part, and the
text fails if that part does, for the same cause; the places move by the line feeds and the characters before
the cut, and in the line of the cut also by the columns. -/
theorem stream_cut (source : String) (before after : List Token) (t : Token)
    (h : (Token.stream source).1 = before ++ t :: after) (ht : t.kind ≠ .eof) :
    let p := source.toList.take t.span.stop.offset
    let q := source.toList.drop t.span.stop.offset
    let lines := p.count '\n'
    let columns := t.span.stop.column - 1
    Token.ofSource (String.ofList p) =
        .ok (before ++ [t, ⟨.eof, "", ⟨t.span.stop, t.span.stop⟩⟩]) ∧
      after = (Token.stream (String.ofList q)).1.map (Token.shift lines columns p.length) ∧
      (Token.stream source).2.map reason =
        ((Token.stream (String.ofList q)).2.map reason).map fun r =>
          (r.1, r.2.map (Span.shift lines columns p.length)) := by
  intro p q lines columns
  have hscan : scan .first source.toList = (before ++ t :: after, (scan .first source.toList).2) :=
    Prod.ext h rfl
  obtain ⟨front, rest, htext, hstop, hsplits, hrest⟩ := scan_cut hscan ht
  have hoffset : t.span.stop.offset = front.length := by rw [hstop, Location.offset_after_first]
  have hp : p = front := by
    show source.toList.take t.span.stop.offset = front
    rw [hoffset, ← htext, List.take_left]
  have hq : q = rest := by
    show source.toList.drop t.span.stop.offset = rest
    rw [hoffset, ← htext, List.drop_left]
  have hstart : Location.first.shift lines columns p.length = t.span.stop := by
    show Location.first.shift (p.count '\n') (t.span.stop.column - 1) p.length = t.span.stop
    rw [hp, hstop, Location.shift_first]
  have hmoved := scan_shift lines columns p.length .first rest (Nat.le_refl 1)
  rw [hstart, hrest] at hmoved
  obtain ⟨hafter, hfault⟩ := Prod.mk.inj hmoved
  refine ⟨ofSource_of_splits ?_, ?_, ?_⟩
  · rw [String.toList_ofList, hp]
    exact hsplits
  · show after = (scan .first (String.ofList q).toList).1.map _
    rw [String.toList_ofList, hq, hafter]
  · rw [reason_stream, reason_stream, hfault, String.toList_ofList, hq, Option.map_map, Option.map_map]
    rfl

/-- A cut between a symbol of two characters and a name. The name is moved within the line of the cut, and what
cannot be read stands in a line of its own. -/
theorem stream_cut_afterSymbol :
    let source := "x\n <=y\n#"
    let x : Token := ⟨.ident "x", "x", ⟨⟨1, 1, 0⟩, ⟨1, 2, 1⟩⟩⟩
    let symbol : Token := ⟨.symbol .lessEqual, "<=", ⟨⟨2, 2, 3⟩, ⟨2, 4, 5⟩⟩⟩
    let y : Token := ⟨.ident "y", "y", ⟨⟨2, 4, 5⟩, ⟨2, 5, 6⟩⟩⟩
    (Token.stream source).1 = [x] ++ symbol :: [y] ∧ symbol.kind ≠ .eof ∧
    Token.ofSource "x\n <=" = .ok [x, symbol, ⟨.eof, "", ⟨⟨2, 4, 5⟩, ⟨2, 4, 5⟩⟩⟩] ∧
    [y] = (Token.stream "y\n#").1.map (Token.shift 1 3 5) ∧
    (Token.stream source).2.map reason =
      some (.unexpectedCharacter '#', some ⟨⟨3, 1, 7⟩, ⟨3, 2, 8⟩⟩) := by
  intro source x symbol y
  have htokens : (Token.stream source).1 = [x] ++ symbol :: [y] := by decide +kernel
  have hp : String.ofList (source.toList.take 5) = "x\n <=" := by decide +kernel
  have hq : String.ofList (source.toList.drop 5) = "y\n#" := by decide +kernel
  have hfails : (Token.stream "y\n#").2.map reason =
      some (.unexpectedCharacter '#', some ⟨⟨2, 1, 2⟩, ⟨2, 2, 3⟩⟩) := by decide +kernel
  obtain ⟨hbefore, hafter, hfailure⟩ := stream_cut source [x] [y] symbol htokens (by decide)
  rw [show symbol.span.stop.offset = 5 from rfl] at hbefore hafter hfailure
  rw [hp] at hbefore
  rw [hq] at hafter hfailure
  refine ⟨htokens, by decide, hbefore, ?_, ?_⟩
  · rw [hafter]
    decide +kernel
  · rw [hfailure, hfails]
    decide +kernel

end Lexical

end Scriptlet
