import Scriptlet.Failure.Basic
import Scriptlet.Token.Basic

/-!
# From text to tokens

`piece` looks at the head of a text and cuts off one piece of it: a stretch of trivia, one token, or
the part that makes the text unreadable. `scan` cuts a whole text into pieces and keeps the tokens.
Nothing but the text itself decides where a piece ends, and positions are computed from the pieces.

* `piece_trivia`, `piece_token` — a piece is a non-empty beginning of the text.
-/

namespace Scriptlet.Token

open Scriptlet.Text

/-- What the head of a text is. A fault starts after `before` and covers `blamed`. -/
inductive Piece where
  | trivia (text rest : List Char)
  | token (kind : Kind) (lexeme rest : List Char)
  | fault (cause : Cause) (before blamed : List Char)

/-! ## Character classes -/

/-- Blanks between tokens. -/
def isBlank (c : Char) : Bool := c == ' ' || c == '\t' || c == '\r' || c == '\n'

/-- May `c` begin a name? -/
def isNameStart (c : Char) : Bool :=
  ('a' ≤ c && c ≤ 'z') || ('A' ≤ c && c ≤ 'Z') || c == '_'

/-- May `c` stand inside a name? -/
def isNameChar (c : Char) : Bool := isNameStart c || isDecimal c

/-! ## Comments -/

/-- The rest of a block comment and the text after it; `depth` comments are open around it. -/
def blockComment : Nat → List Char → Option (List Char × List Char)
  | depth, '/' :: '*' :: cs =>
    (blockComment (depth + 1) cs).map fun (body, rest) => ('/' :: '*' :: body, rest)
  | 0, '*' :: '/' :: cs => some (['*', '/'], cs)
  | depth + 1, '*' :: '/' :: cs =>
    (blockComment depth cs).map fun (body, rest) => ('*' :: '/' :: body, rest)
  | depth, c :: cs => (blockComment depth cs).map fun (body, rest) => (c :: body, rest)
  | _, [] => none

/-! ## Names -/

/-- The kind of a word: a keyword, a truth value or a name. -/
def wordKind (word : String) : Kind :=
  if word = "let" then .keyword .letWord
  else if word = "use" then .keyword .useWord
  else if word = "as" then .keyword .asWord
  else if word = "true" then .bool true
  else if word = "false" then .bool false
  else .ident word

/-- A word at the head of a text. -/
def word (text : List Char) : Piece :=
  let lexeme := text.takeWhile isNameChar
  .token (wordKind (String.ofList lexeme)) lexeme (text.dropWhile isNameChar)

/-! ## Numbers -/

/-- Would the text go on with a number that stands right before it? -/
def continuesNumber : List Char → Bool
  | [] => false
  | c :: cs => isNameChar c || (c == '.' && cs.head?.any isDigit)

/-- The characters that a malformed number takes with it. -/
def numberTail : List Char → List Char
  | [] => []
  | c :: cs => if continuesNumber (c :: cs) then c :: numberTail cs else []

/-- Are there two underscores in a row? -/
def doubled : List Char → Bool
  | '_' :: '_' :: _ => true
  | _ :: cs => doubled cs
  | [] => false

/-- Digits with single underscores only between them. -/
def isSeparated (digits : List Char) : Bool :=
  !digits.isEmpty && digits.head? != some '_' && digits.getLast? != some '_' && !doubled digits

/-- A digit of a class, or an underscore. -/
def isDigitPart (isDigit : Char → Bool) (c : Char) : Bool := isDigit c || c == '_'

/-- The digits without their underscores. -/
def digitsOnly (digits : List Char) : List Char := digits.filter (· != '_')

/-- A malformed number: all of it is blamed. -/
def badNumber (radix : Radix) (lexeme : List Char) : Piece :=
  .fault (.invalidNumber radix (String.ofList lexeme)) [] lexeme

/-- A decimal number at the head of a text. -/
def decimalNumber (text : List Char) : Piece :=
  let lexeme := text.takeWhile (isDigitPart isDecimal)
  let rest := text.dropWhile (isDigitPart isDecimal)
  if continuesNumber rest then badNumber .decimal (lexeme ++ numberTail rest)
  else if isSeparated lexeme then .token (.int (Decimal.read (digitsOnly lexeme))) lexeme rest
  else badNumber .decimal lexeme

/-- A number after its two-character mark. -/
def markedNumber (radix : Radix) (base : Nat) (isDigit : Char → Bool) (mark text : List Char) :
    Piece :=
  let digits := text.takeWhile (isDigitPart isDigit)
  let rest := text.dropWhile (isDigitPart isDigit)
  if rest.head?.any isNameChar then badNumber radix (mark ++ digits ++ numberTail rest)
  else if isSeparated digits then
    .token (.int (ofDigits base (digitsOnly digits))) (mark ++ digits) rest
  else badNumber radix (mark ++ digits)

/-- A number at the head of a text. -/
def number (text : List Char) : Piece :=
  match text with
  | '0' :: x :: cs =>
    if x == 'x' || x == 'X' then markedNumber .hexadecimal 16 isHex ['0', x] cs
    else if x == 'b' || x == 'B' then markedNumber .binary 2 isBinary ['0', x] cs
    else decimalNumber text
  | _ => decimalNumber text

/-! ## Strings -/

/-- What follows a backslash: the character it stands for, or a sequence that stands for none. -/
inductive Escape where
  | char (c : Char) (raw rest : List Char)
  | invalid (sequence : List Char)

/-- The character of a one-letter escape. -/
def shortEscape? (c : Char) : Option Char :=
  if c == 'n' then some '\n'
  else if c == 't' then some '\t'
  else if c == 'r' then some '\r'
  else if c == '0' then some '\x00'
  else if c == '\\' || c == '"' || c == '\'' then some c
  else none

/-- The character with a code point, if it is one. -/
def scalar? (n : Nat) : Option Char := if n.isValidChar then some (Char.ofNat n) else none

/-- The code point of a braced escape: one to six digits. -/
def bracedChar? (digits : List Char) : Option Char :=
  if 1 ≤ digits.length ∧ digits.length ≤ 6 then scalar? (ofDigits 16 digits) else none

/-- Reads what follows a backslash. -/
def escape : List Char → Escape
  | [] => .invalid []
  | 'x' :: cs =>
    let digits := (cs.take 2).takeWhile isHex
    if digits.length = 2 then .char (Char.ofNat (ofDigits 16 digits)) ('x' :: digits) (cs.drop 2)
    else .invalid ('x' :: digits)
  | 'u' :: '\x7b' :: cs =>
    let digits := cs.takeWhile isHex
    match cs.dropWhile isHex, bracedChar? digits with
    | '\x7d' :: rest, some c => .char c ('u' :: '\x7b' :: digits ++ ['\x7d']) rest
    | _, _ => .invalid ('u' :: '\x7b' :: digits)
  | c :: cs =>
    if c == '\n' then .invalid []
    else
      match shortEscape? c with
      | some d => .char d [c] cs
      | none => .invalid [c]

theorem escape_char {cs raw rest : List Char} {c : Char} (h : escape cs = .char c raw rest) :
    raw ++ rest = cs ∧ raw ≠ [] := by
  unfold escape at h
  split at h
  · simp at h
  · next cs =>
    simp only at h
    split at h
    · next hl =>
      injection h with _ hraw hrest
      subst hraw hrest
      refine ⟨?_, by simp⟩
      have htake : (cs.take 2).takeWhile isHex = cs.take 2 := by
        apply (List.takeWhile_prefix isHex).eq_of_length_le
        have : (cs.take 2).length ≤ 2 := List.length_take_le 2 cs
        omega
      rw [htake, List.cons_append, List.take_append_drop]
    · simp at h
  · next cs =>
    simp only at h
    split at h
    · next rest' d hrest _ =>
      injection h with _ hraw hr
      subst hraw hr
      refine ⟨?_, by simp⟩
      have := List.takeWhile_append_dropWhile (p := isHex) (l := cs)
      rw [hrest] at this
      simp [this]
    · simp at h
  · next d ds _ _ =>
    split at h
    · simp at h
    · split at h
      · injection h with _ hraw hr
        subst hraw hr
        simp
      · simp at h

/-- The inside of a string literal: closed with what it denotes, or unclosed, or cut at a bad
escape. -/
inductive Body where
  | closed (value raw rest : List Char)
  | unclosed (raw : List Char)
  | badEscape (before sequence : List Char)

/-- One more character in front of a body, written as `raw`. -/
def Body.cons (c : Char) (raw : List Char) : Body → Body
  | .closed value raws rest => .closed (c :: value) (raw ++ raws) rest
  | .unclosed raws => .unclosed (raw ++ raws)
  | .badEscape before sequence => .badEscape (raw ++ before) sequence

/-- Reads a string literal after its opening quote. -/
def body (text : List Char) : Body :=
  match text with
  | [] => .unclosed []
  | c :: cs =>
    if c == '"' then .closed [] ['"'] cs
    else if c == '\n' then .unclosed []
    else if c == '\\' then
      match _ : escape cs with
      | .char d raw rest => (body rest).cons d ('\\' :: raw)
      | .invalid sequence => .badEscape ['\\'] sequence
    else (body cs).cons c [c]
termination_by text.length
decreasing_by
  · have := congrArg List.length (escape_char (by assumption)).1
    simp only [List.length_append, List.length_cons] at this ⊢
    omega
  · simp

/-- A string literal after its opening quote. -/
def string (text : List Char) : Piece :=
  match body text with
  | .closed value raw rest => .token (.str (String.ofList value)) ('"' :: raw) rest
  | .unclosed raw => .fault .unterminatedString [] ('"' :: raw)
  | .badEscape before sequence =>
    .fault (.invalidEscape (String.ofList sequence)) ('"' :: before) sequence

/-! ## Symbols -/

/-- Symbols of two characters. -/
def pairSymbol? (c d : Char) : Option Symbol :=
  if c == ':' && d == ':' then some .doubleColon
  else if c == '=' && d == '=' then some .equal
  else if c == '!' && d == '=' then some .notEqual
  else if c == '<' && d == '=' then some .lessEqual
  else if c == '>' && d == '=' then some .greaterEqual
  else if c == '&' && d == '&' then some .andAnd
  else if c == '|' && d == '|' then some .orOr
  else none

/-- Symbols of one character. -/
def singleSymbol? (c : Char) : Option Symbol :=
  if c == '+' then some .plus
  else if c == '-' then some .minus
  else if c == '*' then some .star
  else if c == '/' then some .slash
  else if c == '%' then some .percent
  else if c == '<' then some .less
  else if c == '>' then some .greater
  else if c == '!' then some .bang
  else if c == '=' then some .assign
  else if c == '(' then some .openParen
  else if c == ')' then some .closeParen
  else if c == '\x7b' then some .openBrace
  else if c == '\x7d' then some .closeBrace
  else if c == '[' then some .openBracket
  else if c == ']' then some .closeBracket
  else if c == ',' then some .comma
  else if c == ';' then some .semicolon
  else none

/-- A symbol of one character, or a character that begins nothing. -/
def singleSymbol (c : Char) (cs : List Char) : Piece :=
  match singleSymbol? c with
  | some s => .token (.symbol s) [c] cs
  | none => .fault (.unexpectedCharacter c) [] [c]

/-- A symbol at the head of a text, of two characters if possible. -/
def symbol (c : Char) (cs : List Char) : Piece :=
  match cs with
  | d :: ds =>
    match pairSymbol? c d with
    | some s => .token (.symbol s) [c, d] ds
    | none => singleSymbol c cs
  | [] => singleSymbol c cs

/-! ## Pieces -/

/-- A comment or a symbol, after a slash. -/
def slash (cs : List Char) : Piece :=
  match cs with
  | '/' :: _ => .trivia ('/' :: cs.takeWhile (· != '\n')) (cs.dropWhile (· != '\n'))
  | '*' :: inside =>
    match blockComment 0 inside with
    | some (body, rest) => .trivia ('/' :: '*' :: body) rest
    | none => .fault .unterminatedComment [] ('/' :: cs)
  | _ => symbol '/' cs

/-- The piece at the head of a text. -/
def piece (c : Char) (cs : List Char) : Piece :=
  if isBlank c then .trivia [c] cs
  else if c == '/' then slash cs
  else if c == '"' then string cs
  else if isDecimal c then number (c :: cs)
  else if isNameStart c then word (c :: cs)
  else symbol c cs

/-- `text` is a non-empty beginning of `whole`, and `rest` is what follows. -/
def Cuts (whole text rest : List Char) : Prop := text ++ rest = whole ∧ text ≠ []

theorem Cuts.length_lt {whole text rest : List Char} (h : Cuts whole text rest) :
    rest.length < whole.length := by
  have hlen := congrArg List.length h.1
  have hpos := List.length_pos_iff.2 h.2
  rw [List.length_append] at hlen
  omega

theorem blockComment_append {depth : Nat} {cs body rest : List Char}
    (h : blockComment depth cs = some (body, rest)) : body ++ rest = cs := by
  fun_induction blockComment depth cs generalizing body rest with
  | case2 =>
    cases h
    rfl
  | case5 => simp at h
  | case1 _ _ ih | case3 _ _ ih | case4 _ _ _ _ _ _ ih =>
    obtain ⟨⟨b, r⟩, hb, he⟩ := Option.map_eq_some_iff.1 h
    cases he
    simp [ih hb]

theorem ne_nil_of_isSeparated {digits : List Char} (h : isSeparated digits = true) :
    digits ≠ [] := by
  rintro rfl
  simp [isSeparated] at h

theorem decimalNumber_token {text lexeme rest : List Char} {kind : Kind}
    (h : decimalNumber text = .token kind lexeme rest) : Cuts text lexeme rest := by
  unfold decimalNumber badNumber at h
  simp only at h
  split at h
  · simp at h
  · split at h
    · next hs =>
      injection h with _ hl hr
      subst hl hr
      exact ⟨List.takeWhile_append_dropWhile, ne_nil_of_isSeparated hs⟩
    · simp at h

theorem markedNumber_token {radix : Radix} {base : Nat} {p : Char → Bool}
    {mark text lexeme rest : List Char} {kind : Kind} (hm : mark ≠ [])
    (h : markedNumber radix base p mark text = .token kind lexeme rest) :
    Cuts (mark ++ text) lexeme rest := by
  unfold markedNumber badNumber at h
  simp only at h
  split at h
  · simp at h
  · split at h
    · injection h with _ hl hr
      subst hl hr
      exact ⟨by rw [List.append_assoc, List.takeWhile_append_dropWhile], by simp [hm]⟩
    · simp at h

theorem number_token {text lexeme rest : List Char} {kind : Kind}
    (h : number text = .token kind lexeme rest) : Cuts text lexeme rest := by
  unfold number at h
  split at h
  · split at h
    · simpa using markedNumber_token (by simp) h
    · split at h
      · simpa using markedNumber_token (by simp) h
      · exact decimalNumber_token h
  · exact decimalNumber_token h

theorem body_closed {text value raw rest : List Char} (h : body text = .closed value raw rest) :
    Cuts text raw rest := by
  have cons_closed {c : Char} {front : List Char} {b : Body} {v w r : List Char}
      (h : b.cons c front = .closed v w r) :
      ∃ v' w', b = .closed v' w' r ∧ w = front ++ w' := by
    cases b with
    | closed v' w' r' =>
      injection h with _ hw hr
      exact ⟨v', w', by rw [hr], hw.symm⟩
    | unclosed _ => simp [Body.cons] at h
    | badEscape _ _ => simp [Body.cons] at h
  fun_induction body text generalizing value raw rest with
  | case1 => simp at h
  | case2 c cs hc =>
    injection h with _ hraw hrest
    subst hraw hrest
    simp_all [Cuts]
  | case3 => simp at h
  | case4 c cs _ _ hc d raw' rest' he ih =>
    obtain ⟨v', w', hb, rfl⟩ := cons_closed h
    have := (ih hb).1
    have he := (escape_char he).1
    simp_all [Cuts]
  | case5 => simp at h
  | case6 c cs _ _ _ ih =>
    obtain ⟨v', w', hb, rfl⟩ := cons_closed h
    have := (ih hb).1
    simp_all [Cuts]

theorem string_token {text lexeme rest : List Char} {kind : Kind}
    (h : string text = .token kind lexeme rest) : Cuts ('"' :: text) lexeme rest := by
  unfold string at h
  split at h
  · next hb =>
    injection h with _ hl hr
    subst hl hr
    exact ⟨by simp [(body_closed hb).1], by simp⟩
  · simp at h
  · simp at h

theorem string_ne_trivia {text t r : List Char} : string text ≠ .trivia t r := by
  unfold string
  split <;> simp

theorem number_ne_trivia {text t r : List Char} : number text ≠ .trivia t r := by
  have hd : decimalNumber text ≠ .trivia t r := by
    unfold decimalNumber badNumber
    simp only
    split
    · simp
    · split <;> simp
  have hm {radix base p mark text} : markedNumber radix base p mark text ≠ .trivia t r := by
    unfold markedNumber badNumber
    simp only
    split
    · simp
    · split <;> simp
  unfold number
  split
  · split
    · exact hm
    · split
      · exact hm
      · exact hd
  · exact hd

theorem symbol_token {c : Char} {cs lexeme rest : List Char} {kind : Kind}
    (h : symbol c cs = .token kind lexeme rest) : Cuts (c :: cs) lexeme rest := by
  have hs {cs} (h : singleSymbol c cs = .token kind lexeme rest) : Cuts (c :: cs) lexeme rest := by
    unfold singleSymbol at h
    split at h
    · injection h with _ hl hr
      subst hl hr
      simp [Cuts]
    · simp at h
  unfold symbol at h
  split at h
  · split at h
    · injection h with _ hl hr
      subst hl hr
      simp [Cuts]
    · exact hs h
  · exact hs h

theorem symbol_ne_trivia {c : Char} {cs t r : List Char} : symbol c cs ≠ .trivia t r := by
  have hs {cs} : singleSymbol c cs ≠ .trivia t r := by unfold singleSymbol; split <;> simp
  unfold symbol
  split
  · split
    · simp
    · exact hs
  · exact hs

theorem slash_token {cs lexeme rest : List Char} {kind : Kind}
    (h : slash cs = .token kind lexeme rest) : Cuts ('/' :: cs) lexeme rest := by
  unfold slash at h
  split at h
  · simp at h
  · split at h <;> simp at h
  · exact symbol_token h

theorem slash_trivia {cs text rest : List Char} (h : slash cs = .trivia text rest) :
    Cuts ('/' :: cs) text rest := by
  unfold slash at h
  split at h
  · injection h with ht hr
    subst ht hr
    exact ⟨by rw [List.cons_append, List.takeWhile_append_dropWhile], by simp⟩
  · split at h
    · next hb =>
      injection h with ht hr
      subst ht hr
      exact ⟨by simp [blockComment_append hb], by simp⟩
    · simp at h
  · exact absurd h symbol_ne_trivia

/-- A stretch of trivia is a non-empty beginning of the text. -/
theorem piece_trivia {c : Char} {cs text rest : List Char} (h : piece c cs = .trivia text rest) :
    Cuts (c :: cs) text rest := by
  unfold piece at h
  split at h
  · injection h with ht hr
    subst ht hr
    simp [Cuts]
  · split at h
    · next hc => simpa [beq_iff_eq.1 hc] using slash_trivia h
    · split at h
      · exact absurd h string_ne_trivia
      · split at h
        · exact absurd h number_ne_trivia
        · split at h
          · simp [word] at h
          · exact absurd h symbol_ne_trivia

/-- A token is a non-empty beginning of the text. -/
theorem piece_token {c : Char} {cs lexeme rest : List Char} {kind : Kind}
    (h : piece c cs = .token kind lexeme rest) : Cuts (c :: cs) lexeme rest := by
  unfold piece at h
  split at h
  · simp at h
  · split at h
    · next hc => simpa [beq_iff_eq.1 hc] using slash_token h
    · split at h
      · next hc => simpa [beq_iff_eq.1 hc] using string_token h
      · split at h
        · exact number_token h
        · split at h
          · next hc =>
            injection h with _ hl hr
            subst hl hr
            refine ⟨List.takeWhile_append_dropWhile, ?_⟩
            simp [isNameChar, hc]
          · exact symbol_token h

/-! ## Whole texts -/

/-- The tokens of a text that starts at `here`, up to its end or to the first fault. -/
def scan (here : Location) (text : List Char) : List Token × Option Fault :=
  match text with
  | [] => ([⟨.eof, "", ⟨here, here⟩⟩], none)
  | c :: cs =>
    match _ : piece c cs with
    | .trivia text rest => scan (here.after text) rest
    | .token kind lexeme rest =>
      let stop := here.after lexeme
      let (tokens, fault) := scan stop rest
      (⟨kind, String.ofList lexeme, ⟨here, stop⟩⟩ :: tokens, fault)
    | .fault cause before blamed =>
      let start := here.after before
      ([], some ⟨cause, ⟨start, start.after blamed⟩, some start.line⟩)
termination_by text.length
decreasing_by
  · exact (piece_trivia (by assumption)).length_lt
  · exact (piece_token (by assumption)).length_lt

/-- The tokens of a source text, up to its end or to the first failure. -/
def stream (source : String) : List Token × Option Failure :=
  let (tokens, fault) := scan .first source.toList
  (tokens, fault.map (·.quote (lines source)))

/-- All tokens of a source text, or its first failure. -/
def ofSource (source : String) : Except Failure (List Token) :=
  match stream source with
  | (tokens, none) => .ok tokens
  | (_, some failure) => .error failure

end Scriptlet.Token
