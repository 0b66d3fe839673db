import Scriptlet.Proofs.Lexing

/-!
# Lexemes in any layout

A token does not depend on what stands around it, as long as a blank or the end of the text comes right
after it: its lexeme is cut off in the same way wherever it is put, and blanks and comments before it do
no harm.

* `Separator text`: blanks and whole comments, in any number and order.
* `Lexeme.longest_of_startsBlank`: in front of a blank, a lexeme is the longest match.
* `splits_laidOut`: lexemes with separators between them are cut into these lexemes.
* `ofSource_laidOut`: the same for tokens that come from source texts.
-/

namespace Scriptlet

/-- What a token is, without its place. -/
def Token.content (t : Token) : Token.Kind × String := (t.kind, t.lexeme)

namespace Lexical

open Scriptlet.Text Scriptlet.Token

/-! ## What stands between tokens -/

/-- Blanks, comments of one line with their line feed, and block comments. -/
inductive Separator : List Char → Prop
  | nil : Separator []
  | blank {c : Char} {text : List Char} : c ∈ [' ', '\t', '\r', '\n'] → Separator text →
      Separator (c :: text)
  | line {inside text : List Char} : '\n' ∉ inside → Separator text →
      Separator ('/' :: '/' :: inside ++ '\n' :: text)
  | block {comment text : List Char} : IsBlockComment comment → Separator text →
      Separator (comment ++ text)

/-- The text is empty or starts with a blank. -/
def StartsBlank (text : List Char) : Prop := ∀ c cs, text = c :: cs → isBlank c = true

theorem startsBlank_nil : StartsBlank [] := nofun

theorem StartsBlank.append {text rest : List Char} (h : StartsBlank text)
    (hrest : text = [] → StartsBlank rest) : StartsBlank (text ++ rest) := by
  cases text with
  | nil => exact hrest rfl
  | cons c cs =>
    intro d ds heq
    obtain ⟨rfl, -⟩ := List.cons.inj heq
    exact h c cs rfl

/-- A separator is skipped, whatever comes after it. -/
theorem Separator.splits {text : List Char} (h : Separator text) {here : Location}
    {rest : List Char} {tokens : List Token} (hrest : Splits (here.after text) rest tokens) :
    Splits here (text ++ rest) tokens := by
  induction h generalizing here with
  | nil => exact hrest
  | @blank c text hc _ ih =>
    change Splits here ([c] ++ (text ++ rest)) tokens
    exact .trivia (.blank hc) (ih hrest)
  | @line inside text hin _ ih =>
    -- the line feed is no part of the comment, but a blank after it
    have hfeed : Splits (here.after ('/' :: '/' :: inside)) ('\n' :: (text ++ rest)) tokens := by
      refine .trivia (.blank (by decide)) (ih ?_)
      rw [Location.after_append] at hrest
      exact hrest
    rw [List.append_assoc]
    exact .trivia (.line hin (.inr ⟨text ++ rest, rfl⟩)) hfeed
  | @block comment text hcomment _ ih =>
    rw [Location.after_append] at hrest
    rw [List.append_assoc]
    exact .trivia (.block hcomment) (ih hrest)

/-! ## Lexemes in front of a blank -/

theorem isNameChar_spec {c : Char} (h : isNameChar c = true) : isBlank c = false ∧ c ≠ '"' := by
  rcases Bool.or_eq_true_iff.1 h with hstart | hdigit
  · have hspec := isNameStart_spec hstart
    exact ⟨hspec.1, hspec.2.2.1⟩
  · have hspec := isDecimal_spec hdigit
    exact ⟨hspec.1, hspec.2.2⟩

theorem isNameChar_of_isDigitPart {p : Char → Bool} (hp : DigitClass p) {c : Char}
    (h : isDigitPart p c = true) : isNameChar c = true := by
  simp only [isDigitPart, Bool.or_eq_true, beq_iff_eq] at h
  rcases h with hdigit | rfl
  · exact hp.inNames c hdigit
  · decide

theorem symbol_chars_spec (s : Symbol) : ∀ c ∈ s.text.toList, isBlank c = false ∧ c ≠ '"' := by
  intro c hc
  have hall : s.text.toList.all (fun c => !isBlank c && c != '"') = true := by
    cases s <;> rfl
  simpa using List.all_eq_true.1 hall c hc

/-- Blanks and quotes occur in no lexeme but a string. -/
theorem Lexeme.string_or_plain {kind : Kind} {lexeme rest : List Char} (h : Lexeme kind lexeme rest) :
    (∃ value inside, StringInside value inside ∧ lexeme = '"' :: inside ++ ['"']) ∨
      ∀ c ∈ lexeme, isBlank c = false ∧ c ≠ '"' := by
  have hmarked {p : Char → Bool} (hp : DigitClass p) {x : Char} {digits : List Char}
      (hx : isNameChar x = true) (hrun : DigitRun p digits) :
      ∀ c ∈ '0' :: x :: digits, isBlank c = false ∧ c ≠ '"' := by
    refine List.forall_mem_cons.2 ⟨by decide, List.forall_mem_cons.2 ⟨isNameChar_spec hx, ?_⟩⟩
    exact fun c hc => isNameChar_spec (isNameChar_of_isDigitPart hp (hrun.mem c hc))
  cases h with
  | reserved hr =>
    exact .inr fun c hc => isNameChar_spec ((reserved_spec hr).2.mem c hc)
  | name hw _ => exact .inr fun c hc => isNameChar_spec (hw.mem c hc)
  | decimal hrun _ _ =>
    refine .inr fun c hc => isNameChar_spec ?_
    exact isNameChar_of_isDigitPart digitClass_isDecimal (hrun.mem c hc)
  | hexadecimal hx hrun _ =>
    refine .inr (hmarked digitClass_isHex ?_ hrun)
    rcases hx with rfl | rfl <;> decide
  | binary hb hrun _ =>
    refine .inr (hmarked digitClass_isBinary ?_ hrun)
    rcases hb with rfl | rfl <;> decide
  | string hin => exact .inl ⟨_, _, hin, rfl⟩
  | @symbol s _ _ => exact .inr (symbol_chars_spec s)

/-- Of two string literals at the head of a text, neither goes on after the other. -/
theorem StringInside.length_eq {value value' inside inside' rest rest' : List Char}
    (h : StringInside value inside) (h' : StringInside value' inside')
    (heq : inside ++ '"' :: rest = inside' ++ '"' :: rest') : inside.length = inside'.length := by
  have hbody := body_eq h rest
  rw [heq, body_eq h' rest'] at hbody
  injection hbody with _ hraw _
  have hlength := congrArg List.length hraw
  simp only [List.length_append, List.length_singleton] at hlength
  omega

theorem not_startsWithName_of_startsBlank {rest : List Char} (h : StartsBlank rest) :
    ¬ StartsWithName rest := by
  rintro ⟨c, cs, rfl, hc⟩
  have hblank := h c cs rfl
  rw [(isNameChar_spec hc).1] at hblank
  cases hblank

theorem not_startsWithFraction_of_startsBlank {rest : List Char} (h : StartsBlank rest) :
    ¬ StartsWithFraction rest := by
  rintro ⟨c, cs, rfl, -⟩
  have hblank := h '.' (c :: cs) rfl
  revert hblank
  decide

/-- A symbol in front of a blank does not open a comment. -/
theorem opensComment_of_startsBlank (s : Symbol) {rest : List Char} (h : StartsBlank rest) :
    opensComment (s.text.toList ++ rest) = false := by
  cases s <;> try rfl
  cases rest with
  | nil => rfl
  | cons c cs =>
    have hblank := isBlank_iff.1 (h c cs rfl)
    simp only [List.mem_cons, List.not_mem_nil, or_false] at hblank
    rcases hblank with rfl | rfl | rfl | rfl <;> rfl

/-- Wherever a lexeme was found, it is one in front of a blank and at the end of a text too. -/
theorem Lexeme.of_startsBlank {kind : Kind} {lexeme rest rest' : List Char}
    (h : Lexeme kind lexeme rest) (hrest : StartsBlank rest') : Lexeme kind lexeme rest' := by
  have hname := not_startsWithName_of_startsBlank hrest
  cases h with
  | reserved hr => exact .reserved hr
  | name hw hr => exact .name hw hr
  | decimal hrun _ _ => exact .decimal hrun hname (not_startsWithFraction_of_startsBlank hrest)
  | hexadecimal hx hrun _ => exact .hexadecimal hx hrun hname
  | binary hb hrun _ => exact .binary hb hrun hname
  | string hin => exact .string hin
  | symbol _ => exact .symbol (opensComment_of_startsBlank _ hrest)

/-- Of two beginnings of a text the longer one goes on after the other. -/
theorem exists_more_of_longer {front rest front' rest' : List Char}
    (heq : front' ++ rest' = front ++ rest) (hlength : front.length < front'.length) :
    ∃ c cs, front' = front ++ c :: cs ∧ rest = c :: cs ++ rest' := by
  rcases List.append_eq_append_iff.1 heq with ⟨more, rfl, -⟩ | ⟨more, rfl, rfl⟩
  · rw [List.length_append] at hlength
    omega
  · cases more with
    | nil => simp at hlength
    | cons c cs => exact ⟨c, cs, rfl, rfl⟩

/-- In front of a blank no lexeme goes on. -/
theorem Lexeme.longest_of_startsBlank {kind : Kind} {lexeme rest : List Char}
    (h : Lexeme kind lexeme rest) (hrest : StartsBlank rest) : LongestMatch kind lexeme rest := by
  refine ⟨h, fun kind' lexeme' rest' heq h' => ?_⟩
  by_contra hlonger
  obtain ⟨c, cs, rfl, hmore⟩ := exists_more_of_longer heq (Nat.not_le.1 hlonger)
  have hblank : isBlank c = true := hrest c (cs ++ rest') hmore
  obtain ⟨d, ds, rfl⟩ := List.exists_cons_of_ne_nil h.ne_nil
  rcases h'.string_or_plain with ⟨value', inside', hin', hquote⟩ | hplain
  · -- a string, so both of them are
    rcases h.string_or_plain with ⟨value, inside, hin, hlexeme⟩ | hplain
    · rw [hlexeme] at hquote
      have htext : inside ++ '"' :: (c :: cs ++ rest') = inside' ++ '"' :: rest' := by
        have happend := congrArg (· ++ rest') (List.cons.inj hquote).2
        simpa using happend
      have hlength := congrArg List.length hquote
      have hsame := hin.length_eq hin' htext
      simp only [List.length_append, List.length_cons, List.length_nil] at hlength
      omega
    · have hd : d = '"' := (List.cons.inj hquote).1
      exact (hplain d List.mem_cons_self).2 hd
  · have hno := (hplain c (by simp)).1
    rw [hblank] at hno
    cases hno

/-! ## Whole texts -/

/-- The text of lexemes with separators: `lead`, and then each lexeme with the separator after it. -/
def laidOut (lead : List Char) (parts : List (Token × List Char)) : List Char :=
  lead ++ parts.flatMap fun p => p.1.lexeme.toList ++ p.2

/-- Separators after lexemes: each of them is empty or starts with a blank, and only the last one may be
empty. -/
structure Separated (parts : List (Token × List Char)) : Prop where
  separator : ∀ p ∈ parts, Separator p.2 ∧ StartsBlank p.2
  between : ∀ p ∈ parts.dropLast, p.2 ≠ []

theorem Separated.tail {p : Token × List Char} {parts : List (Token × List Char)}
    (h : Separated (p :: parts)) : Separated parts := by
  refine ⟨fun q hq => h.separator q (List.mem_cons_of_mem _ hq), fun q hq => h.between q ?_⟩
  cases parts with
  | nil => cases hq
  | cons q' parts => exact List.mem_cons_of_mem _ hq

/-- After a lexeme comes a blank or the end of the text. -/
theorem Separated.startsBlank {p : Token × List Char} {parts : List (Token × List Char)}
    (h : Separated (p :: parts)) : StartsBlank (laidOut p.2 parts) := by
  refine (h.separator p List.mem_cons_self).2.append fun hempty => ?_
  cases parts with
  | nil => exact startsBlank_nil
  | cons q parts => exact absurd hempty (h.between p List.mem_cons_self)

theorem splits_laidOut {lead : List Char} {parts : List (Token × List Char)} (hlead : Separator lead)
    (hparts : Separated parts) (hlexemes : ∀ p ∈ parts, Lexeme p.1.kind p.1.lexeme.toList [])
    (here : Location) :
    ∃ tokens, Splits here (laidOut lead parts) tokens ∧
      tokens.map Token.content = parts.map (fun p => p.1.content) ++ [(.eof, "")] := by
  induction parts generalizing lead here with
  | nil =>
    refine ⟨_, hlead.splits .done, rfl⟩
  | cons p parts ih =>
    obtain ⟨hp, hrest⟩ := List.forall_mem_cons.1 hlexemes
    have hblank := hparts.startsBlank
    have hlongest := (hp.of_startsBlank hblank).longest_of_startsBlank hblank
    obtain ⟨tokens, hsplits, hcontent⟩ := ih (hparts.separator p List.mem_cons_self).1 hparts.tail
      hrest ((here.after lead).after p.1.lexeme.toList)
    have htext : laidOut lead (p :: parts) = lead ++ (p.1.lexeme.toList ++ laidOut p.2 parts) := by
      simp [laidOut]
    refine ⟨_, htext ▸ hlead.splits (.token hlongest hsplits), ?_⟩
    rw [List.map_cons, hcontent, List.map_cons, Token.content, String.ofList_toList]
    rfl

/-- The tokens of a text are lexemes, also without what follows them there. -/
theorem Splits.lexeme_of_mem {here : Location} {text : List Char} {tokens : List Token}
    (h : Splits here text tokens) {t : Token} (ht : t ∈ tokens) (heof : t.kind ≠ .eof) :
    Lexeme t.kind t.lexeme.toList [] := by
  induction h with
  | done =>
    rw [List.mem_singleton.1 ht] at heof
    exact absurd rfl heof
  | trivia _ _ ih => exact ih ht
  | token hlongest _ ih =>
    rcases List.mem_cons.1 ht with rfl | ht
    · rw [String.toList_ofList]
      exact hlongest.1.of_startsBlank startsBlank_nil
    · exact ih ht

/-- The lexemes of tokens, of whatever source texts, with separators before, between and after them are
cut into the same tokens again: into the same kinds with the same lexemes, and the end of input. -/
theorem ofSource_laidOut (lead : List Char) (parts : List (Token × List Char))
    (hlead : Separator lead) (hparts : Separated parts)
    (htokens : ∀ p ∈ parts, p.1.kind ≠ .eof ∧
      ∃ source tokens, Token.ofSource source = .ok tokens ∧ p.1 ∈ tokens) :
    ∃ tokens, Token.ofSource (String.ofList (laidOut lead parts)) = .ok tokens ∧
      tokens.map Token.content = parts.map (fun p => p.1.content) ++ [(.eof, "")] := by
  have hlexemes : ∀ p ∈ parts, Lexeme p.1.kind p.1.lexeme.toList [] := by
    intro p hp
    obtain ⟨heof, source, tokens, hsource, hmem⟩ := htokens p hp
    exact (splits_of_ofSource hsource).lexeme_of_mem hmem heof
  obtain ⟨tokens, hsplits, hcontent⟩ := splits_laidOut hlead hparts hlexemes .first
  refine ⟨tokens, ofSource_of_splits ?_, hcontent⟩
  rwa [String.toList_ofList]

/-- A number, two symbols that would be one without the blank between them, and a string with a blank in
it, among comments. -/
def laidOutSample : List (Token × List Char) :=
  [(⟨.int 31, "0x1_F", ⟨⟨1, 3, 2⟩, ⟨1, 8, 7⟩⟩⟩, " //c\n".toList),
   (⟨.symbol .less, "<", ⟨⟨1, 2, 1⟩, ⟨1, 3, 2⟩⟩⟩, "\t".toList),
   (⟨.symbol .assign, "=", ⟨⟨1, 3, 2⟩, ⟨1, 4, 3⟩⟩⟩, "\n/* */".toList),
   (⟨.str "a b", "\"a b\"", ⟨⟨1, 5, 4⟩, ⟨1, 10, 9⟩⟩⟩, [])]

theorem ofSource_laidOut_sample :
    ∃ tokens, Token.ofSource "/* /* */ */0x1_F //c\n<\t=\n/* */\"a b\"" = .ok tokens ∧
      tokens.map Token.content =
        [(.int 31, "0x1_F"), (.symbol .less, "<"), (.symbol .assign, "="), (.str "a b", "\"a b\""),
          (.eof, "")] := by
  have hlead : Separator "/* /* */ */".toList :=
    .block ⟨" /* */ */".toList, rfl,
      blockComment_closes (show blockComment 0 " /* */ */".toList = some (_, []) from rfl)⟩ .nil
  have hcomment : Separator "/* */".toList :=
    .block ⟨" */".toList, rfl,
      blockComment_closes (show blockComment 0 " */".toList = some (_, []) from rfl)⟩ .nil
  have hblank {c : Char} {cs : List Char} (hc : isBlank c = true) : StartsBlank (c :: cs) := by
    rintro _ _ ⟨⟩
    exact hc
  have hparts : Separated laidOutSample := by
    refine ⟨?_, by decide⟩
    simp only [laidOutSample, List.forall_mem_cons]
    refine ⟨⟨?_, hblank rfl⟩, ⟨.blank (by decide) .nil, hblank rfl⟩,
      ⟨.blank (by decide) hcomment, hblank rfl⟩, ⟨.nil, startsBlank_nil⟩, List.forall_mem_nil _⟩
    have hline : Separator "//c\n".toList := .line (show '\n' ∉ ['c'] by decide) .nil
    exact .blank (by decide) hline
  have hfirst : Token.ofSource "a<0x1_F" = .ok
      [⟨.ident "a", "a", ⟨⟨1, 1, 0⟩, ⟨1, 2, 1⟩⟩⟩, ⟨.symbol .less, "<", ⟨⟨1, 2, 1⟩, ⟨1, 3, 2⟩⟩⟩,
        ⟨.int 31, "0x1_F", ⟨⟨1, 3, 2⟩, ⟨1, 8, 7⟩⟩⟩, ⟨.eof, "", ⟨⟨1, 8, 7⟩, ⟨1, 8, 7⟩⟩⟩] := by
    decide +kernel
  have hsecond : Token.ofSource "s = \"a b\"" = .ok
      [⟨.ident "s", "s", ⟨⟨1, 1, 0⟩, ⟨1, 2, 1⟩⟩⟩, ⟨.symbol .assign, "=", ⟨⟨1, 3, 2⟩, ⟨1, 4, 3⟩⟩⟩,
        ⟨.str "a b", "\"a b\"", ⟨⟨1, 5, 4⟩, ⟨1, 10, 9⟩⟩⟩, ⟨.eof, "", ⟨⟨1, 10, 9⟩, ⟨1, 10, 9⟩⟩⟩] := by
    decide +kernel
  refine ofSource_laidOut "/* /* */ */".toList laidOutSample hlead hparts ?_
  simp only [laidOutSample, List.forall_mem_cons]
  exact ⟨⟨nofun, _, _, hfirst, by decide⟩, ⟨nofun, _, _, hfirst, by decide⟩,
    ⟨nofun, _, _, hsecond, by decide⟩, ⟨nofun, _, _, hsecond, by decide⟩, List.forall_mem_nil _⟩

end Lexical

end Scriptlet
