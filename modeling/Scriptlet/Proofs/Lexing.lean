import Scriptlet.Proofs.Lexemes

/-!
# The scanner follows the lexical grammar

A source text has tokens if and only if the lexical grammar cuts it into them, and then they are the same
tokens. A text is cut piece by piece, so the main step is about one piece:

* `piece_token_iff`: the scanner takes a token if it is the longest match at this place.
* `piece_trivia_iff`: the scanner skips what is a blank or a comment, and no token.
* `scan_splits`, `splits_scan`: what holds for one piece holds for all, by induction on the text.
* `ofSource_eq_ok_iff`: the tokens of a source text.
-/

namespace Scriptlet.Lexical

open Scriptlet.Text Scriptlet.Token

/-! ## Comments -/

theorem closes_nil {depth : Int} : Closes depth [] ↔ depth = 0 := by
  simp [Closes]

theorem closes_cons {depth m : Int} {ms : List Int} :
    Closes depth (m :: ms) ↔ 0 < depth ∧ Closes (depth + m) ms := by
  unfold Closes
  constructor
  · rintro ⟨hsum, hopen⟩
    refine ⟨by simpa using hopen 0 (by simp), by simpa [add_assoc] using hsum, fun n hn => ?_⟩
    have := hopen (n + 1) (by simpa using hn)
    simpa [add_assoc] using this
  · rintro ⟨hdepth, hsum, hopen⟩
    refine ⟨by simpa [add_assoc] using hsum, fun n hn => ?_⟩
    cases n with
    | zero => simpa using hdepth
    | succ n =>
      have := hopen n (by simpa using hn)
      simpa [add_assoc] using this

theorem marks_cons {c : Char} {cs : List Char} (h₁ : ∀ ds, ¬ (c = '/' ∧ cs = '*' :: ds))
    (h₂ : ∀ ds, ¬ (c = '*' ∧ cs = '/' :: ds)) : marks (c :: cs) = 0 :: marks cs := by
  rw [marks]
  · rintro ds rfl rfl
    exact h₁ ds ⟨rfl, rfl⟩
  · rintro ds rfl rfl
    exact h₂ ds ⟨rfl, rfl⟩

theorem blockComment_closes {depth : Nat} {text body rest : List Char}
    (h : blockComment depth text = some (body, rest)) : Closes (depth + 1) (marks body) := by
  fun_induction blockComment depth text generalizing body rest with
  | case1 depth cs ih =>
    obtain ⟨⟨b, r⟩, hb, he⟩ := Option.map_eq_some_iff.1 h
    cases he
    rw [marks, closes_cons]
    exact ⟨by omega, ih hb⟩
  | case2 cs =>
    cases h
    simp [marks, closes_cons, closes_nil]
  | case3 depth cs ih =>
    obtain ⟨⟨b, r⟩, hb, he⟩ := Option.map_eq_some_iff.1 h
    cases he
    rw [marks, closes_cons]
    refine ⟨by omega, ?_⟩
    have := ih hb
    simpa using this
  | case4 depth c cs hopen hclose₀ hclose ih =>
    obtain ⟨⟨b, r⟩, hb, he⟩ := Option.map_eq_some_iff.1 h
    cases he
    -- a mark at the head of the body would be one at the head of the text
    have hcs := blockComment_append hb
    rw [marks_cons, closes_cons]
    · exact ⟨by omega, by simpa using ih hb⟩
    · rintro ds ⟨rfl, rfl⟩
      exact hopen _ rfl hcs.symm
    · rintro ds ⟨rfl, rfl⟩
      cases depth with
      | zero => exact hclose₀ _ rfl rfl hcs.symm
      | succ k => exact hclose k _ rfl rfl hcs.symm
  | case5 => cases h

theorem marks_eq_nil {text : List Char} (h : marks text = []) : text = [] := by
  unfold marks at h
  split at h
  · cases h
  · cases h
  · cases h
  · rfl

/-- With comments open, a text that closes them has at least two characters. -/
theorem Closes.two_le {depth : Nat} {text : List Char} (h : Closes (depth + 1) (marks text)) :
    ∃ c d cs, text = c :: d :: cs := by
  cases text with
  | nil =>
    have : (depth : Int) + 1 = 0 := closes_nil.1 h
    omega
  | cons c cs =>
    cases cs with
    | nil =>
      rw [marks_cons (by simp) (by simp)] at h
      have : (depth : Int) + 1 + 0 = 0 := closes_nil.1 (closes_cons.1 h).2
      omega
    | cons d ds => exact ⟨c, d, ds, rfl⟩

theorem blockComment_of_closes {depth : Nat} {text body rest : List Char}
    (htext : body ++ rest = text) (h : Closes (depth + 1) (marks body)) :
    blockComment depth text = some (body, rest) := by
  obtain ⟨c, d, ds, rfl⟩ := h.two_le
  fun_induction blockComment depth text generalizing c d ds rest with
  | case1 depth cs ih =>
    obtain ⟨rfl, rfl, rfl⟩ : c = '/' ∧ d = '*' ∧ ds ++ rest = cs := by simpa using htext
    rw [marks, closes_cons] at h
    have hin : Closes ((depth + 1 : Nat) + 1) (marks ds) := by simpa using h.2
    obtain ⟨e, f, fs, rfl⟩ := hin.two_le
    rw [ih e f fs rfl hin]
    rfl
  | case2 cs =>
    obtain ⟨rfl, rfl, rfl⟩ : c = '*' ∧ d = '/' ∧ ds ++ rest = cs := by simpa using htext
    rw [marks, closes_cons] at h
    have hnil : ds = [] := by
      apply marks_eq_nil
      cases hms : marks ds with
      | nil => rfl
      | cons m ms =>
        rw [hms, closes_cons] at h
        have := h.2.1
        simp at this
    rw [hnil]
    rfl
  | case3 depth cs ih =>
    obtain ⟨rfl, rfl, rfl⟩ : c = '*' ∧ d = '/' ∧ ds ++ rest = cs := by simpa using htext
    rw [marks, closes_cons] at h
    have hin : Closes (depth + 1) (marks ds) := by simpa using h.2
    obtain ⟨e, f, fs, rfl⟩ := hin.two_le
    rw [ih e f fs rfl hin]
    rfl
  | case4 depth a cs hopen hclose₀ hclose ih =>
    obtain ⟨rfl, rfl⟩ : c = a ∧ d :: (ds ++ rest) = cs := by simpa using htext
    rw [marks_cons, closes_cons] at h
    · have hin : Closes (depth + 1) (marks (d :: ds)) := by simpa using h.2
      obtain ⟨e, f, fs, hds⟩ := hin.two_le
      have := ih e f fs (by rw [← hds]; rfl) (by rwa [← hds])
      rw [this, ← hds]
      rfl
    · rintro es ⟨rfl, hes⟩
      cases hes
      exact hopen _ rfl rfl
    · rintro es ⟨rfl, hes⟩
      cases hes
      cases depth with
      | zero => exact hclose₀ _ rfl rfl rfl
      | succ k => exact hclose k _ rfl rfl rfl
  | case5 => simp at htext

/-! ## Pieces -/

theorem isBlank_iff {c : Char} : isBlank c = true ↔ c ∈ [' ', '\t', '\r', '\n'] := by
  simp [isBlank, or_assoc]

/-- A character that begins a number begins no other piece. -/
theorem isDecimal_spec {c : Char} (h : isDecimal c = true) :
    isBlank c = false ∧ c ≠ '/' ∧ c ≠ '"' := by
  refine ⟨?_, ?_, ?_⟩
  · by_contra hb
    simp only [Bool.not_eq_false, isBlank_iff, List.mem_cons, List.not_mem_nil, or_false] at hb
    rcases hb with rfl | rfl | rfl | rfl <;> revert h <;> decide
  · rintro rfl
    revert h
    decide
  · rintro rfl
    revert h
    decide

theorem piece_number {c : Char} (cs : List Char) (h : isDecimal c = true) :
    piece c cs = number (c :: cs) := by
  obtain ⟨hb, hs, hq⟩ := isDecimal_spec h
  simp [piece, hb, hs, hq, h]

theorem isNameStart_spec {c : Char} (h : isNameStart c = true) :
    isBlank c = false ∧ c ≠ '/' ∧ c ≠ '"' ∧ isDecimal c = false := by
  refine ⟨?_, ?_, ?_, ?_⟩
  · by_contra hb
    simp only [Bool.not_eq_false, isBlank_iff, List.mem_cons, List.not_mem_nil, or_false] at hb
    rcases hb with rfl | rfl | rfl | rfl <;> revert h <;> decide
  · rintro rfl
    revert h
    decide
  · rintro rfl
    revert h
    decide
  · simp only [isNameStart, Bool.or_eq_true, Bool.and_eq_true, decide_eq_true_eq, beq_iff_eq,
      Char.le_def, UInt32.le_iff_toNat_le, Char.toNat_val, Char.reduceToNat] at h
    simp only [isDecimal, Bool.and_eq_false_iff, decide_eq_false_iff_not, Char.le_def,
      UInt32.le_iff_toNat_le, Char.toNat_val, Char.reduceToNat]
    rcases h with (h | h) | rfl
    · omega
    · omega
    · simp

theorem piece_word {c : Char} (cs : List Char) (h : isNameStart c = true) :
    piece c cs = word (c :: cs) := by
  obtain ⟨hb, hs, hq, hd⟩ := isNameStart_spec h
  simp [piece, hb, hs, hq, hd, h]

theorem piece_string (cs : List Char) : piece '"' cs = string cs := rfl

theorem piece_slash (cs : List Char) : piece '/' cs = slash cs := rfl

/-- The first character of a symbol begins no word, number or string. -/
theorem symbol_head_spec {s : Symbol} {c : Char} {cs : List Char} (h : s.text.toList = c :: cs) :
    isBlank c = false ∧ c ≠ '"' ∧ isDecimal c = false ∧ isNameStart c = false := by
  cases s <;> simp [Symbol.text] at h <;> obtain ⟨rfl, -⟩ := h <;> decide

theorem slash_symbol {cs : List Char} (h : opensComment ('/' :: cs) = false) :
    slash cs = Token.symbol '/' cs := by
  unfold slash
  split
  · simp [opensComment] at h
  · simp [opensComment] at h
  · rfl

theorem piece_symbol {s : Symbol} {c : Char} {cs rest : List Char}
    (htext : s.text.toList ++ rest = c :: cs) (h : opensComment (c :: cs) = false) :
    piece c cs = Token.symbol c cs := by
  obtain ⟨d, ds, hs⟩ : ∃ d ds, s.text.toList = d :: ds := by
    rcases symbol_text_cases s with ⟨d, hs⟩ | ⟨d, e, hs⟩
    · exact ⟨d, [], hs⟩
    · exact ⟨d, [e], hs⟩
  rw [hs] at htext
  obtain ⟨rfl, rfl⟩ := List.cons.inj htext
  obtain ⟨hb, hq, hd, hn⟩ := symbol_head_spec hs
  by_cases hslash : d = '/'
  · subst hslash
    rw [piece_slash, slash_symbol h]
  · simp [piece, hb, hslash, hq, hd, hn]

/-! ## Tokens -/

theorem string_lexeme {text lexeme rest : List Char} {kind : Kind}
    (h : string text = .token kind lexeme rest) : Lexeme kind lexeme rest := by
  unfold string at h
  split at h
  · next hb =>
    cases h
    obtain ⟨inside, rfl, hin⟩ := body_inside hb
    exact .string hin
  · cases h
  · cases h

theorem symbol_lexeme {c : Char} {cs lexeme rest : List Char} {kind : Kind}
    (hopen : opensComment (c :: cs) = false) (h : Token.symbol c cs = .token kind lexeme rest) :
    Lexeme kind lexeme rest := by
  obtain ⟨s, rfl, rfl, htext⟩ := symbol_inv h
  exact .symbol (by rwa [htext])

theorem slash_lexeme {cs lexeme rest : List Char} {kind : Kind}
    (h : slash cs = .token kind lexeme rest) : Lexeme kind lexeme rest := by
  unfold slash at h
  split at h
  · cases h
  · split at h <;> cases h
  · next hline hblock =>
    refine symbol_lexeme ?_ h
    unfold opensComment
    split
    · next heq => exact absurd (List.cons.inj heq).2 (hline _)
    · next heq => exact absurd (List.cons.inj heq).2 (hblock _)
    · rfl

/-- What the scanner takes for a token is a lexeme. -/
theorem piece_lexeme {c : Char} {cs lexeme rest : List Char} {kind : Kind}
    (h : piece c cs = .token kind lexeme rest) : Lexeme kind lexeme rest := by
  unfold piece at h
  split_ifs at h with hb hslash hquote hdigit hname
  · exact slash_lexeme h
  · exact string_lexeme h
  · exact number_lexeme h
  · cases h
    exact lexeme_of_isWord (isWord_takeWhile cs hname) _
  · refine symbol_lexeme ?_ h
    have hne : c ≠ '/' := by simpa using hslash
    unfold opensComment
    split
    · next heq => exact absurd (List.cons.inj heq).1 hne
    · next heq => exact absurd (List.cons.inj heq).1 hne
    · rfl

/-- At a word the scanner takes that word or a longer one. -/
theorem word_eq {text : List Char} (h : IsWord text) (rest : List Char) :
    word (text ++ rest) = .token (wordKind (String.ofList text)) text rest ∨
      ∃ kind lexeme rest', word (text ++ rest) = .token kind lexeme rest' ∧
        text.length < lexeme.length := by
  have htake : (text ++ rest).takeWhile isNameChar = text ++ rest.takeWhile isNameChar :=
    List.takeWhile_append_of_pos h.mem
  cases hmore : rest.takeWhile isNameChar with
  | nil =>
    left
    have hdrop : (text ++ rest).dropWhile isNameChar = rest := by
      have hall := List.takeWhile_append_dropWhile (p := isNameChar) (l := text ++ rest)
      rw [htake, hmore, List.append_nil] at hall
      exact List.append_cancel_left hall
    simp only [word, htake, hmore, hdrop, List.append_nil]
  | cons c cs =>
    right
    exact ⟨_, _, _, rfl, by rw [htake, hmore]; simp⟩

/-- At a lexeme the scanner takes that lexeme or a longer one. -/
theorem Lexeme.piece_eq {kind : Kind} {lexeme rest : List Char} (h : Lexeme kind lexeme rest)
    {c : Char} {cs : List Char} (htext : lexeme ++ rest = c :: cs) :
    piece c cs = .token kind lexeme rest ∨
      ∃ kind' lexeme' rest', piece c cs = .token kind' lexeme' rest' ∧
        lexeme.length < lexeme'.length := by
  have hword (text : List Char) (hw : IsWord text) (htext : text ++ rest = c :: cs) :
      piece c cs = word (text ++ rest) := by
    cases text with
    | nil => exact hw.elim
    | cons d ds =>
      obtain ⟨rfl, rfl⟩ := List.cons.inj htext
      exact piece_word _ hw.1
  cases h with
  | @reserved w _ _ hr =>
    obtain ⟨hk, hw⟩ := reserved_spec hr
    rw [hword _ hw htext]
    have := word_eq hw rest
    rwa [String.ofList_toList, hk] at this
  | name hw hr =>
    rw [hword _ hw htext]
    rcases wordKind_spec (String.ofList lexeme) with hmem | ⟨hk, -⟩
    · exact absurd hmem (hr _)
    · have := word_eq hw rest
      rwa [hk] at this
  | decimal hrun hname hfraction =>
    left
    obtain ⟨d, ds, rfl, hd⟩ := hrun.head
    have hnumber := number_decimal hrun hname hfraction
    obtain ⟨rfl, rfl⟩ := List.cons.inj htext
    rw [piece_number _ hd]
    exact hnumber
  | hexadecimal hx hrun hname =>
    left
    obtain ⟨rfl, rfl⟩ := List.cons.inj htext
    rw [piece_number _ (by decide)]
    exact number_hexadecimal hx hrun hname
  | binary hb hrun hname =>
    left
    obtain ⟨rfl, rfl⟩ := List.cons.inj htext
    rw [piece_number _ (by decide)]
    exact number_binary hb hrun hname
  | @string value text _ hin =>
    left
    simp only [List.cons_append, List.append_assoc, List.nil_append, List.cons.injEq] at htext
    obtain ⟨rfl, rfl⟩ := htext
    rw [piece_string]
    simp only [Token.string, body_eq hin rest]
    rfl
  | symbol hopen =>
    rw [piece_symbol htext (by rwa [← htext])]
    exact symbol_eq _ htext

/-- The scanner takes the longest lexeme. -/
theorem piece_token_iff {c : Char} {cs lexeme rest : List Char} {kind : Kind} :
    piece c cs = .token kind lexeme rest ↔
      LongestMatch kind lexeme rest ∧ lexeme ++ rest = c :: cs := by
  constructor
  · intro h
    have htext := (piece_token h).1
    refine ⟨⟨piece_lexeme h, fun kind' lexeme' rest' heq h' => ?_⟩, htext⟩
    rcases h'.piece_eq (heq.trans htext) with h' | ⟨_, _, _, h', hlt⟩
    · rw [h] at h'
      cases h'
      exact Nat.le_refl _
    · rw [h] at h'
      cases h'
      exact Nat.le_of_lt hlt
  · rintro ⟨⟨hlex, hlongest⟩, htext⟩
    rcases hlex.piece_eq htext with h | ⟨kind', lexeme', rest', h, hlt⟩
    · exact h
    · have := hlongest kind' lexeme' rest' ((piece_token h).1.trans htext.symm) (piece_lexeme h)
      omega

/-! ## Trivia -/

theorem slash_line {inside rest : List Char} (hin : '\n' ∉ inside)
    (hrest : rest = [] ∨ ∃ cs, rest = '\n' :: cs) :
    slash ('/' :: inside ++ rest) = .trivia ('/' :: '/' :: inside) rest := by
  have hall : ∀ c ∈ '/' :: inside, (c != '\n') = true := by
    intro c hc
    rcases List.mem_cons.1 hc with rfl | hc
    · decide
    · simp only [bne_iff_ne, ne_eq]
      rintro rfl
      exact hin hc
  have hstop : StopsAt (· != '\n') rest := by
    rintro c cs rfl
    rcases hrest with hrest | ⟨_, hrest⟩
    · cases hrest
    · cases hrest
      decide
  have htake := takeWhile_append_of_stopsAt hall hstop
  have hdrop := dropWhile_append_of_stopsAt hall hstop
  simp only [List.cons_append] at htake hdrop ⊢
  simp only [slash, htake, hdrop]

theorem slash_trivia_spec {cs text rest : List Char} (h : slash cs = .trivia text rest) :
    Trivia text rest := by
  unfold slash at h
  split at h
  · next inside =>
    injection h with ht hr
    have hslash : ('/' != '\n') = true := by decide
    rw [List.takeWhile_cons, if_pos hslash] at ht
    subst ht hr
    refine .line (fun hmem => ?_) ?_
    · have := List.mem_takeWhile_imp hmem
      simp at this
    · cases hdrop : ('/' :: inside).dropWhile (· != '\n') with
      | nil => exact .inl rfl
      | cons c ds =>
        have := stopsAt_dropWhile _ _ c ds hdrop
        exact .inr ⟨ds, by simpa using this⟩
  · next inside =>
    split at h
    · next body rest' hb =>
      cases h
      exact .block ⟨body, rfl, blockComment_closes hb⟩
    · cases h
  · exact absurd h symbol_ne_trivia

/-- The scanner takes blanks and comments for trivia, and nothing else. -/
theorem piece_trivia_iff {c : Char} {cs text rest : List Char} :
    piece c cs = .trivia text rest ↔ Trivia text rest ∧ text ++ rest = c :: cs := by
  constructor
  · intro h
    refine ⟨?_, (piece_trivia h).1⟩
    unfold piece at h
    split_ifs at h with hb hslash hquote hdigit hname
    · cases h
      exact .blank (isBlank_iff.1 hb)
    · exact slash_trivia_spec h
    · exact absurd h string_ne_trivia
    · exact absurd h number_ne_trivia
    · cases h
    · exact absurd h symbol_ne_trivia
  · rintro ⟨h, htext⟩
    cases h with
    | blank hb =>
      obtain ⟨rfl, rfl⟩ := List.cons.inj htext
      simp only [piece, isBlank_iff.2 hb, if_true]
      rfl
    | line hin hrest =>
      obtain ⟨rfl, rfl⟩ := List.cons.inj htext
      exact slash_line hin hrest
    | block hblock =>
      obtain ⟨inside, rfl, hcloses⟩ := hblock
      obtain ⟨rfl, rfl⟩ := List.cons.inj htext
      have hcomment : blockComment 0 (inside ++ rest) = some (inside, rest) :=
        blockComment_of_closes rfl (by simpa using hcloses)
      change slash ('*' :: (inside ++ rest)) = _
      simp only [slash, hcomment]

/-! ## Whole texts -/

theorem Lexeme.ne_nil {kind : Kind} {lexeme rest : List Char} (h : Lexeme kind lexeme rest) :
    lexeme ≠ [] := by
  cases h with
  | reserved hr =>
    intro hnil
    have := (reserved_spec hr).2
    rw [hnil] at this
    exact this
  | name hw _ =>
    rintro rfl
    exact hw
  | decimal hrun _ _ =>
    obtain ⟨_, _, rfl, _⟩ := hrun.head
    simp
  | hexadecimal _ _ _ | binary _ _ _ | string _ => simp
  | @symbol s _ _ =>
    rcases symbol_text_cases s with ⟨_, hs⟩ | ⟨_, _, hs⟩ <;> simp [hs]

theorem LongestMatch.ne_nil {kind : Kind} {lexeme rest : List Char}
    (h : LongestMatch kind lexeme rest) : lexeme ≠ [] :=
  h.1.ne_nil

theorem Trivia.ne_nil {text rest : List Char} (h : Trivia text rest) : text ≠ [] := by
  cases h with
  | blank _ | line _ _ => simp
  | block hblock =>
    obtain ⟨inside, rfl, _⟩ := hblock
    simp

theorem scan_splits {here : Location} {text : List Char} {tokens : List Token}
    (h : scan here text = (tokens, none)) : Splits here text tokens := by
  fun_induction scan here text generalizing tokens with
  | case1 here =>
    cases h
    exact .done
  | case2 here c cs text rest hpiece ih =>
    obtain ⟨htrivia, htext⟩ := piece_trivia_iff.1 hpiece
    rw [← htext]
    exact .trivia htrivia (ih h)
  | case3 here c cs kind lexeme rest hpiece stop tokens' fault hscan =>
    rename_i ih
    obtain ⟨hlongest, htext⟩ := piece_token_iff.1 hpiece
    cases h
    rw [← htext]
    exact .token hlongest (ih hscan)
  | case4 => simp at h

theorem scan_of_trivia {c : Char} {cs text rest : List Char} (h : piece c cs = .trivia text rest)
    (here : Location) : scan here (c :: cs) = scan (here.after text) rest := by
  rw [scan]
  split
  · next heq => rw [h] at heq; cases heq; rfl
  · next heq => rw [h] at heq; cases heq
  · next heq => rw [h] at heq; cases heq

theorem scan_of_token {c : Char} {cs lexeme rest : List Char} {kind : Kind}
    (h : piece c cs = .token kind lexeme rest) (here : Location) :
    scan here (c :: cs) =
      (⟨kind, String.ofList lexeme, ⟨here, here.after lexeme⟩⟩ :: (scan (here.after lexeme) rest).1,
        (scan (here.after lexeme) rest).2) := by
  rw [scan]
  split
  · next heq => rw [h] at heq; cases heq
  · next heq => rw [h] at heq; cases heq; rfl
  · next heq => rw [h] at heq; cases heq

theorem scan_of_fault {c : Char} {cs before blamed : List Char} {cause : Cause}
    (h : piece c cs = .fault cause before blamed) (here : Location) :
    scan here (c :: cs) =
      ([], some ⟨cause, ⟨here.after before, (here.after before).after blamed⟩,
        some (here.after before).line⟩) := by
  rw [scan]
  split
  · next heq => rw [h] at heq; cases heq
  · next heq => rw [h] at heq; cases heq
  · next heq => rw [h] at heq; cases heq; rfl

theorem splits_scan {here : Location} {text : List Char} {tokens : List Token}
    (h : Splits here text tokens) : scan here text = (tokens, none) := by
  induction h with
  | done => rw [scan]
  | @trivia here text rest tokens htrivia _ ih =>
    obtain ⟨c, cs, htext⟩ := List.exists_cons_of_ne_nil
      (List.append_ne_nil_of_left_ne_nil htrivia.ne_nil rest)
    rw [htext, scan_of_trivia (piece_trivia_iff.2 ⟨htrivia, htext⟩), ih]
  | @token here kind lexeme rest tokens hlongest _ ih =>
    obtain ⟨c, cs, htext⟩ := List.exists_cons_of_ne_nil
      (List.append_ne_nil_of_left_ne_nil hlongest.ne_nil rest)
    rw [htext, scan_of_token (piece_token_iff.2 ⟨hlongest, htext⟩), ih]

theorem ofSource_of_splits {source : String} {tokens : List Token}
    (h : Splits .first source.toList tokens) : Token.ofSource source = .ok tokens := by
  simp only [Token.ofSource, stream, splits_scan h, Option.map_none]

theorem splits_of_ofSource {source : String} {tokens : List Token}
    (h : Token.ofSource source = .ok tokens) : Splits .first source.toList tokens := by
  unfold Token.ofSource stream at h
  rcases hscan : scan .first source.toList with ⟨tokens', fault⟩
  rw [hscan] at h
  cases fault with
  | some fault => cases h
  | none =>
    cases h
    exact scan_splits hscan

/-- The tokens of a source text are the longest lexemes into which it can be cut, and there are tokens
only if it can be cut. -/
theorem ofSource_eq_ok_iff (source : String) (tokens : List Token) :
    Token.ofSource source = .ok tokens ↔ Splits .first source.toList tokens := by
  have hscan : Token.ofSource source = .ok tokens ↔
      scan .first source.toList = (tokens, none) := by
    unfold Token.ofSource stream
    rcases scan .first source.toList with ⟨tokens', fault⟩
    cases fault <;> simp
  rw [hscan]
  exact ⟨scan_splits, splits_scan⟩

end Scriptlet.Lexical
