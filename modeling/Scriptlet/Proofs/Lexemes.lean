import Mathlib.Data.List.Basic
import Mathlib.Data.List.TakeWhile
import Mathlib.Tactic.Common
import Scriptlet.Proofs.LexicalGrammar
import Scriptlet.Proofs.Numerals

/-!
# Lexemes by class

Each class of tokens has its own scanner, and each scanner takes the lexemes of its class. For a class
there are two statements: a lexeme that stands in front of what may follow it is taken as it is, and
what the scanner takes is a lexeme.

* Numbers: `number_decimal`, `number_hexadecimal`, `number_binary`; `number_lexeme`.
* Words: `isWord_takeWhile`; `lexeme_of_isWord`.
* Strings: `escape_eq` and `body_eq`; `escape_escaped` and `body_inside`.
* Symbols: `symbol_eq`; `symbol_inv`.
-/

namespace Scriptlet.Lexical

open Scriptlet.Text Scriptlet.Token

/-! ## Runs of characters -/

/-- A text whose first character, if there is one, is not in a class. -/
def StopsAt (p : Char → Bool) (text : List Char) : Prop := ∀ c cs, text = c :: cs → p c = false

theorem stopsAt_dropWhile (p : Char → Bool) (text : List Char) :
    StopsAt p (text.dropWhile p) := by
  intro c cs h
  have hne : text.dropWhile p ≠ [] := by rw [h]; exact List.cons_ne_nil _ _
  have hhead := List.head_dropWhile_not p hne
  simpa [h] using hhead

theorem takeWhile_append_of_stopsAt {p : Char → Bool} {front rest : List Char}
    (hfront : ∀ c ∈ front, p c = true) (hrest : StopsAt p rest) :
    (front ++ rest).takeWhile p = front := by
  rw [List.takeWhile_append_of_pos hfront]
  cases rest with
  | nil => simp
  | cons c cs => simp [hrest c cs rfl]

theorem dropWhile_append_of_stopsAt {p : Char → Bool} {front rest : List Char}
    (hfront : ∀ c ∈ front, p c = true) (hrest : StopsAt p rest) :
    (front ++ rest).dropWhile p = rest := by
  rw [List.dropWhile_append_of_pos hfront]
  cases rest with
  | nil => simp
  | cons c cs => simp [hrest c cs rfl]

theorem not_startsWithName_iff {text : List Char} :
    ¬ StartsWithName text ↔ StopsAt isNameChar text := by
  simp only [StartsWithName, StopsAt, not_exists, not_and, Bool.not_eq_true]

/-! ## Digits -/

theorem DigitRun.mem {p : Char → Bool} {digits : List Char} (h : DigitRun p digits) :
    ∀ c ∈ digits, isDigitPart p c = true := by
  induction h with
  | last hc => simpa [isDigitPart] using Or.inl hc
  | digit hc _ ih => simpa [isDigitPart, hc] using ih
  | separated hc _ ih => simpa [isDigitPart, hc] using ih

theorem DigitRun.head {p : Char → Bool} {digits : List Char} (h : DigitRun p digits) :
    ∃ c cs, digits = c :: cs ∧ p c = true := by
  cases h with
  | last hc => exact ⟨_, _, rfl, hc⟩
  | digit hc _ => exact ⟨_, _, rfl, hc⟩
  | separated hc _ => exact ⟨_, _, rfl, hc⟩

theorem doubled_cons {c : Char} {cs : List Char} (hc : c ≠ '_') : doubled (c :: cs) = doubled cs := by
  rw [doubled]
  rintro ds rfl _
  exact hc rfl

theorem doubled_underscore {c : Char} {cs : List Char} (hc : c ≠ '_') :
    doubled ('_' :: c :: cs) = doubled (c :: cs) := by
  rw [doubled]
  rintro ds _ hds
  exact hc (List.cons.inj hds).1

theorem ne_underscore {p : Char → Bool} (hp : p '_' = false) {c : Char} (hc : p c = true) :
    c ≠ '_' := by
  rintro rfl
  rw [hp] at hc
  exact Bool.false_ne_true hc

theorem DigitRun.isSeparated {p : Char → Bool} (hp : p '_' = false) {digits : List Char}
    (h : DigitRun p digits) : isSeparated digits = true := by
  induction h with
  | last hc =>
    have hne := ne_underscore hp hc
    simp [Token.isSeparated, doubled_cons hne, doubled, hne]
  | digit hc hrun ih =>
    have hne := ne_underscore hp hc
    obtain ⟨d, ds, rfl, _⟩ := hrun.head
    simp_all [Token.isSeparated, doubled_cons hne, List.getLast?_cons_cons]
  | separated hc hrun ih =>
    have hne := ne_underscore hp hc
    obtain ⟨d, ds, rfl, hd⟩ := hrun.head
    have hne' := ne_underscore hp hd
    simp_all [Token.isSeparated, doubled_cons hne, doubled_underscore hne', List.getLast?_cons_cons]

/-- Digits and underscores that are well separated are digits with single underscores between. -/
theorem digitRun_of_isSeparated {p : Char → Bool} :
    ∀ {digits : List Char}, (∀ c ∈ digits, isDigitPart p c = true) → isSeparated digits = true →
      DigitRun p digits
  | [], _, h => by simp [isSeparated] at h
  | [c], hall, h => by
    have hc : c ≠ '_' := by
      rintro rfl
      simp [isSeparated] at h
    have := hall c List.mem_cons_self
    exact .last (by simpa [isDigitPart, hc] using this)
  | c :: d :: ds, hall, h => by
    have hc : c ≠ '_' := by
      rintro rfl
      simp [isSeparated] at h
    have hdigit : p c = true := by
      have := hall c List.mem_cons_self
      simpa [isDigitPart, hc] using this
    have hrest : ∀ e ∈ ds, isDigitPart p e = true :=
      fun e he => hall e (List.mem_cons_of_mem _ (List.mem_cons_of_mem _ he))
    by_cases hd : d = '_'
    · -- the underscore is neither the last character nor followed by another one
      subst hd
      refine .separated hdigit (digitRun_of_isSeparated hrest ?_)
      cases ds with
      | nil => simp [isSeparated] at h
      | cons e es =>
        have he : e ≠ '_' := by
          rintro rfl
          simp [isSeparated, doubled_cons hc, doubled] at h
        simp_all [isSeparated, doubled_cons hc, doubled_underscore he, List.getLast?_cons_cons]
    · refine .digit hdigit (digitRun_of_isSeparated ?_ ?_)
      · exact fun e he => hall e (List.mem_cons_of_mem _ he)
      · simp_all [isSeparated, doubled_cons hc, List.getLast?_cons_cons]

/-! ## Numbers -/

/-- A class of digits that may stand inside names. -/
structure DigitClass (p : Char → Bool) : Prop where
  not_underscore : p '_' = false
  inNames : ∀ c, p c = true → isNameChar c = true

theorem isNameChar_of_isDecimal {c : Char} (h : isDecimal c = true) : isNameChar c = true := by
  simp [Token.isNameChar, h]

theorem isNameChar_of_isHex {c : Char} (h : isHex c = true) : isNameChar c = true := by
  simp only [isHex, Bool.or_eq_true, Bool.and_eq_true, decide_eq_true_eq] at h
  rcases h with (h | ⟨h₁, h₂⟩) | ⟨h₁, h₂⟩
  · exact isNameChar_of_isDecimal h
  · have : c ≤ 'z' := Char.le_trans h₂ (by decide)
    simp [Token.isNameChar, isNameStart, h₁, this]
  · have : c ≤ 'Z' := Char.le_trans h₂ (by decide)
    simp [Token.isNameChar, isNameStart, h₁, this]

theorem digitClass_isDecimal : DigitClass isDecimal := ⟨by decide, fun _ => isNameChar_of_isDecimal⟩

theorem digitClass_isHex : DigitClass isHex := ⟨by decide, fun _ => isNameChar_of_isHex⟩

theorem digitClass_isBinary : DigitClass isBinary := by
  refine ⟨by decide, fun c hc => ?_⟩
  simp only [isBinary, Bool.or_eq_true, beq_iff_eq] at hc
  rcases hc with rfl | rfl <;> decide

theorem DigitClass.stopsAt {p : Char → Bool} (hp : DigitClass p) {rest : List Char}
    (h : ¬ StartsWithName rest) : StopsAt (isDigitPart p) rest := by
  rw [not_startsWithName_iff] at h
  intro c cs hc
  have hname : isNameChar c = false := h c cs hc
  by_contra hpart
  simp only [isDigitPart, Bool.or_eq_true, beq_iff_eq, Bool.not_eq_false] at hpart
  rcases hpart with hdigit | rfl
  · rw [hp.inNames c hdigit] at hname
    exact Bool.noConfusion hname
  · exact absurd hname (by decide)

theorem continuesNumber_iff {text : List Char} :
    continuesNumber text = true ↔ StartsWithName text ∨ StartsWithFraction text := by
  cases text with
  | nil => simp [continuesNumber, StartsWithName, StartsWithFraction]
  | cons c cs => cases cs <;> simp [continuesNumber, StartsWithName, StartsWithFraction]

theorem head?_any_isNameChar_iff {text : List Char} :
    text.head?.any isNameChar = true ↔ StartsWithName text := by
  cases text <;> simp [StartsWithName]

theorem decimalNumber_eq {digits rest : List Char} (h : DigitRun isDecimal digits)
    (hname : ¬ StartsWithName rest) (hfraction : ¬ StartsWithFraction rest) :
    decimalNumber (digits ++ rest) =
      .token (.int (ofDigits 10 (digitsOnly digits))) digits rest := by
  have hstop := digitClass_isDecimal.stopsAt hname
  have hgo : ¬ continuesNumber rest = true := by
    rw [continuesNumber_iff]
    tauto
  unfold decimalNumber
  simp only [takeWhile_append_of_stopsAt h.mem hstop, dropWhile_append_of_stopsAt h.mem hstop]
  rw [if_neg hgo, if_pos (h.isSeparated digitClass_isDecimal.not_underscore),
    Decimal.read_eq_ofDigits]

theorem decimalNumber_lexeme {text lexeme rest : List Char} {kind : Kind}
    (h : decimalNumber text = .token kind lexeme rest) : Lexeme kind lexeme rest := by
  unfold decimalNumber badNumber at h
  simp only at h
  split_ifs at h with hgo hsep
  injection h with hk hl hr
  subst hk hl hr
  rw [continuesNumber_iff] at hgo
  rw [Decimal.read_eq_ofDigits]
  exact .decimal (digitRun_of_isSeparated (fun c => List.mem_takeWhile_imp) hsep) (by tauto)
    (by tauto)

theorem markedNumber_eq {radix : Radix} {base : Nat} {p : Char → Bool} (hp : DigitClass p)
    {mark digits rest : List Char} (h : DigitRun p digits) (hname : ¬ StartsWithName rest) :
    markedNumber radix base p mark (digits ++ rest) =
      .token (.int (ofDigits base (digitsOnly digits))) (mark ++ digits) rest := by
  have hstop := hp.stopsAt hname
  unfold markedNumber
  simp only [takeWhile_append_of_stopsAt h.mem hstop, dropWhile_append_of_stopsAt h.mem hstop]
  rw [if_neg (by rwa [head?_any_isNameChar_iff]), if_pos (h.isSeparated hp.not_underscore)]

theorem markedNumber_inv {radix : Radix} {base : Nat} {p : Char → Bool}
    {mark text lexeme rest : List Char} {kind : Kind}
    (h : markedNumber radix base p mark text = .token kind lexeme rest) :
    ∃ digits, DigitRun p digits ∧ ¬ StartsWithName rest ∧ lexeme = mark ++ digits ∧
      kind = .int (ofDigits base (digitsOnly digits)) := by
  unfold markedNumber badNumber at h
  simp only at h
  split_ifs at h with hgo hsep
  injection h with hk hl hr
  subst hk hl hr
  rw [head?_any_isNameChar_iff] at hgo
  exact ⟨_, digitRun_of_isSeparated (fun c => List.mem_takeWhile_imp) hsep, hgo, rfl, rfl⟩

theorem number_lexeme {text lexeme rest : List Char} {kind : Kind}
    (h : number text = .token kind lexeme rest) : Lexeme kind lexeme rest := by
  unfold number at h
  split at h
  · next x cs =>
    split_ifs at h with hx hb
    · obtain ⟨digits, hrun, hname, rfl, rfl⟩ := markedNumber_inv h
      exact .hexadecimal (by simpa using hx) hrun hname
    · obtain ⟨digits, hrun, hname, rfl, rfl⟩ := markedNumber_inv h
      exact .binary (by simpa using hb) hrun hname
    · exact decimalNumber_lexeme h
  · exact decimalNumber_lexeme h

theorem number_hexadecimal {x : Char} {digits rest : List Char} (hx : x = 'x' ∨ x = 'X')
    (h : DigitRun isHex digits) (hname : ¬ StartsWithName rest) :
    number ('0' :: x :: digits ++ rest) =
      .token (.int (ofDigits 16 (digitsOnly digits))) ('0' :: x :: digits) rest := by
  have hmark : (x == 'x' || x == 'X') = true := by simpa using hx
  simp only [number, List.cons_append, hmark, if_true]
  exact markedNumber_eq digitClass_isHex h hname

theorem number_binary {b : Char} {digits rest : List Char} (hb : b = 'b' ∨ b = 'B')
    (h : DigitRun isBinary digits) (hname : ¬ StartsWithName rest) :
    number ('0' :: b :: digits ++ rest) =
      .token (.int (ofDigits 2 (digitsOnly digits))) ('0' :: b :: digits) rest := by
  have hmark : (b == 'b' || b == 'B') = true := by simpa using hb
  have hother : (b == 'x' || b == 'X') = false := by rcases hb with rfl | rfl <;> decide
  simp only [number, List.cons_append, hmark, hother, if_true, Bool.false_eq_true, if_false]
  exact markedNumber_eq digitClass_isBinary h hname

/-- A character that goes on with a run of decimal digits, or stands behind it, is no mark. -/
theorem number_decimal {digits rest : List Char} (h : DigitRun isDecimal digits)
    (hname : ¬ StartsWithName rest) (hfraction : ¬ StartsWithFraction rest) :
    number (digits ++ rest) = .token (.int (ofDigits 10 (digitsOnly digits))) digits rest := by
  rw [← decimalNumber_eq h hname hfraction]
  unfold number
  split
  · next x cs htext =>
    -- the character after the zero is a digit, an underscore or no character of a name
    have hx : isDigitPart isDecimal x = true ∨ isNameChar x = false := by
      cases digits with
      | nil => cases h
      | cons c ds =>
        cases ds with
        | nil =>
          cases htext
          exact .inr (not_startsWithName_iff.1 hname x cs rfl)
        | cons d ds =>
          cases htext
          exact .inl (h.mem x (List.mem_cons_of_mem _ List.mem_cons_self))
    have hmarks : x ≠ 'x' ∧ x ≠ 'X' ∧ x ≠ 'b' ∧ x ≠ 'B' := by
      refine ⟨?_, ?_, ?_, ?_⟩ <;> rintro rfl <;> revert hx <;> decide
    simp [hmarks]
  · rfl

/-! ## Words -/

theorem reserved_spec {word : String} {kind : Kind} (h : (word, kind) ∈ reservedWords) :
    wordKind word = kind ∧ IsWord word.toList := by
  simp only [reservedWords, List.mem_cons, Prod.mk.injEq, List.not_mem_nil, or_false] at h
  rcases h with ⟨rfl, rfl⟩ | ⟨rfl, rfl⟩ | ⟨rfl, rfl⟩ | ⟨rfl, rfl⟩ | ⟨rfl, rfl⟩ <;>
    exact ⟨by decide, by decide, List.all_eq_true.1 (by decide)⟩

theorem wordKind_spec (word : String) :
    (word, wordKind word) ∈ reservedWords ∨
      (wordKind word = .ident word ∧ ∀ kind, (word, kind) ∉ reservedWords) := by
  unfold wordKind
  split_ifs <;> simp_all [reservedWords]

/-- A word is a lexeme, whatever follows it. -/
theorem lexeme_of_isWord {text : List Char} (h : IsWord text) (rest : List Char) :
    Lexeme (wordKind (String.ofList text)) text rest := by
  rcases wordKind_spec (String.ofList text) with hr | ⟨hk, hr⟩
  · have hlex : Lexeme _ (String.ofList text).toList rest := .reserved hr
    rwa [String.toList_ofList] at hlex
  · rw [hk]
    exact .name h hr

theorem isNameChar_of_isNameStart {c : Char} (h : isNameStart c = true) : isNameChar c = true := by
  simp [isNameChar, h]

theorem IsWord.mem {text : List Char} (h : IsWord text) : ∀ c ∈ text, isNameChar c = true := by
  cases text with
  | nil => exact h.elim
  | cons c cs =>
    intro d hd
    rcases List.mem_cons.1 hd with rfl | hd
    · exact isNameChar_of_isNameStart h.1
    · exact h.2 d hd

theorem isWord_takeWhile {c : Char} (cs : List Char) (hc : isNameStart c = true) :
    IsWord ((c :: cs).takeWhile isNameChar) := by
  rw [List.takeWhile_cons, if_pos (isNameChar_of_isNameStart hc)]
  exact ⟨hc, fun d => List.mem_takeWhile_imp⟩

/-! ## Strings -/

theorem toNat_ofNat_of_isValidChar {n : Nat} (h : n.isValidChar) : (Char.ofNat n).toNat = n := by
  rw [Char.ofNat, dif_pos h]
  rfl

theorem digitValue_lt_of_isHex {c : Char} (h : isHex c = true) : digitValue c < 16 := by
  simp only [isHex, isDecimal, Bool.or_eq_true, Bool.and_eq_true, decide_eq_true_eq,
    Char.le_def, UInt32.le_iff_toNat_le, Char.toNat_val] at h
  simp only [digitValue, isDecimal, Bool.and_eq_true, decide_eq_true_eq, Char.le_def,
    UInt32.le_iff_toNat_le, Char.toNat_val]
  simp only [Char.reduceToNat] at h ⊢
  split_ifs <;> omega

theorem scalar?_eq_some_iff {n : Nat} {c : Char} : scalar? n = some c ↔ c.toNat = n := by
  unfold scalar?
  split_ifs with h
  · rw [Option.some.injEq]
    constructor
    · rintro rfl
      exact toNat_ofNat_of_isValidChar h
    · rintro rfl
      exact Char.ofNat_toNat c
  · simp only [false_iff]
    rintro rfl
    exact h c.valid

theorem shortEscape?_eq_some_iff {letter c : Char} :
    shortEscape? letter = some c ↔ (letter, c) ∈ shortEscapes := by
  constructor
  · intro h
    unfold shortEscape? at h
    split_ifs at h <;> cases h <;> simp_all [shortEscapes, or_assoc]
  · intro h
    simp only [shortEscapes, List.mem_cons, Prod.mk.injEq, List.not_mem_nil, or_false] at h
    rcases h with ⟨rfl, rfl⟩ | ⟨rfl, rfl⟩ | ⟨rfl, rfl⟩ | ⟨rfl, rfl⟩ | ⟨rfl, rfl⟩ | ⟨rfl, rfl⟩ |
      ⟨rfl, rfl⟩ <;> rfl

theorem escape_escaped {text raw rest : List Char} {c : Char}
    (h : escape text = .char c raw rest) : Escaped c raw := by
  unfold escape at h
  split at h
  · cases h
  · next cs =>
    simp only at h
    split_ifs at h with hlen
    injection h with hc hraw hrest
    subst hc hraw
    obtain ⟨a, b, hab⟩ := List.length_eq_two.1 hlen
    have hhex : ∀ d ∈ [a, b], isHex d = true := fun d hd =>
      List.mem_takeWhile_imp (hab ▸ hd)
    have ha := hhex a (by simp)
    have hb := hhex b (by simp)
    rw [hab]
    refine .byte ha hb (toNat_ofNat_of_isValidChar (.inl ?_))
    have := digitValue_lt_of_isHex ha
    have := digitValue_lt_of_isHex hb
    simp only [ofDigits, List.foldl_cons, List.foldl_nil]
    omega
  · next cs =>
    simp only at h
    split at h
    · next rest' d hrest hd =>
      injection h with hc hraw hr
      subst hc hraw
      unfold bracedChar? at hd
      split_ifs at hd with hlen
      exact .scalar (fun e => List.mem_takeWhile_imp) hlen.1 hlen.2 (scalar?_eq_some_iff.1 hd)
    · cases h
  · next letter cs _ _ =>
    split_ifs at h
    split at h
    · next d hd =>
      injection h with hc hraw hrest
      subst hc hraw
      exact .short (shortEscape?_eq_some_iff.1 hd)
    · cases h

theorem escape_eq {c : Char} {raw : List Char} (h : Escaped c raw) (rest : List Char) :
    escape (raw ++ rest) = .char c raw rest := by
  cases h with
  | @short letter _ hmem =>
    have hd := shortEscape?_eq_some_iff.2 hmem
    have hne : letter ≠ 'x' ∧ letter ≠ 'u' ∧ letter ≠ '\n' := by
      refine ⟨?_, ?_, ?_⟩ <;> rintro rfl <;> revert hmem <;> simp [shortEscapes]
    simp [escape, hne, hd]
  | @byte _ a b ha hb hc =>
    simp [escape, ha, hb, ← hc]
  | @scalar _ digits hall hlow hhigh hc =>
    have hstop : StopsAt isHex ('\x7d' :: rest) := by
      intro d ds hd
      cases hd
      decide
    have hbraced : bracedChar? digits = some c := by
      rw [bracedChar?, if_pos ⟨hlow, hhigh⟩]
      exact scalar?_eq_some_iff.2 hc
    simp [escape, takeWhile_append_of_stopsAt hall hstop, dropWhile_append_of_stopsAt hall hstop,
      hbraced]

theorem body_plain {c : Char} (cs : List Char) (hq : c ≠ '"') (hb : c ≠ '\\') (hn : c ≠ '\n') :
    body (c :: cs) = (body cs).cons c [c] := by
  rw [body]
  simp [hq, hb, hn]

theorem body_escaped {c : Char} {raw : List Char} (h : Escaped c raw) (rest : List Char) :
    body ('\\' :: raw ++ rest) = (body rest).cons c ('\\' :: raw) := by
  rw [List.cons_append, body]
  simp only [show ('\\' == '"') = false by decide, show ('\\' == '\n') = false by decide,
    show ('\\' == '\\') = true by decide, if_true, Bool.false_eq_true, if_false]
  split
  · next d raw' rest' he =>
    rw [escape_eq h rest] at he
    cases he
    rfl
  · next he =>
    rw [escape_eq h rest] at he
    cases he

theorem body_eq {value inside : List Char} (h : StringInside value inside) (rest : List Char) :
    body (inside ++ '"' :: rest) = .closed value (inside ++ ['"']) rest := by
  induction h with
  | nil =>
    rw [List.nil_append, body]
    rfl
  | plain hq hb hn _ ih => rw [List.cons_append, body_plain _ hq hb hn, ih]; rfl
  | escaped he _ ih => rw [List.append_assoc, body_escaped he, ih]; simp [Body.cons]

theorem Body.cons_closed {c : Char} {front : List Char} {b : Body} {value raw rest : List Char}
    (h : b.cons c front = .closed value raw rest) :
    ∃ value' raw', b = .closed value' raw' rest ∧ value = c :: value' ∧ raw = front ++ raw' := by
  cases b with
  | closed value' raw' rest' =>
    injection h with hv hraw hrest
    exact ⟨value', raw', by rw [hrest], hv.symm, hraw.symm⟩
  | unclosed _ => cases h
  | badEscape _ _ => cases h

theorem body_inside {text value raw rest : List Char} (h : body text = .closed value raw rest) :
    ∃ inside, raw = inside ++ ['"'] ∧ StringInside value inside := by
  fun_induction body text generalizing value raw rest with
  | case1 => cases h
  | case2 =>
    cases h
    exact ⟨[], rfl, .nil⟩
  | case3 => cases h
  | case4 c cs _ _ hc d raw' rest' he ih =>
    obtain ⟨value', raw'', hb, rfl, rfl⟩ := Body.cons_closed h
    obtain ⟨inside, rfl, hin⟩ := ih hb
    exact ⟨'\\' :: raw' ++ inside, by simp, .escaped (escape_escaped he) hin⟩
  | case5 => cases h
  | case6 c cs hq hn hb ih =>
    obtain ⟨value', raw', hbody, rfl, rfl⟩ := Body.cons_closed h
    obtain ⟨inside, rfl, hin⟩ := ih hbody
    exact ⟨c :: inside, by simp, .plain (by simpa using hq) (by simpa using hb) (by simpa using hn) hin⟩

/-! ## Symbols -/

theorem pairSymbol?_eq_some_iff {c d : Char} {s : Symbol} :
    pairSymbol? c d = some s ↔ s.text.toList = [c, d] := by
  constructor
  · intro h
    unfold pairSymbol? at h
    split_ifs at h <;> cases h <;> simp_all [Symbol.text]
  · intro h
    cases s <;> simp [Symbol.text] at h <;> obtain ⟨rfl, rfl⟩ := h <;> rfl

theorem singleSymbol?_eq_some_iff {c : Char} {s : Symbol} :
    singleSymbol? c = some s ↔ s.text.toList = [c] := by
  constructor
  · fun_cases singleSymbol? c <;> intro h <;> cases h <;> rename_i hc <;>
      rw [beq_iff_eq.1 hc] <;> rfl
  · intro h
    cases s <;> simp [Symbol.text] at h <;> subst h <;> rfl

theorem symbol_text_cases (s : Symbol) :
    (∃ c, s.text.toList = [c]) ∨ ∃ c d, s.text.toList = [c, d] := by
  cases s <;> simp [Symbol.text]

theorem singleSymbol_lexeme {c : Char} {cs lexeme rest : List Char} {kind : Kind}
    (h : singleSymbol c cs = .token kind lexeme rest) :
    ∃ s, kind = .symbol s ∧ lexeme = s.text.toList ∧ lexeme ++ rest = c :: cs := by
  unfold singleSymbol at h
  split at h
  · next s hs =>
    cases h
    exact ⟨s, rfl, (singleSymbol?_eq_some_iff.1 hs).symm, rfl⟩
  · cases h

theorem symbol_inv {c : Char} {cs lexeme rest : List Char} {kind : Kind}
    (h : Token.symbol c cs = .token kind lexeme rest) :
    ∃ s, kind = .symbol s ∧ lexeme = s.text.toList ∧ lexeme ++ rest = c :: cs := by
  unfold Token.symbol at h
  split at h
  · next d ds =>
    split at h
    · next s hs =>
      cases h
      exact ⟨s, rfl, (pairSymbol?_eq_some_iff.1 hs).symm, rfl⟩
    · exact singleSymbol_lexeme h
  · exact singleSymbol_lexeme h

/-- At a symbol the scanner takes that symbol or a longer one. -/
theorem symbol_eq (s : Symbol) {c : Char} {cs rest : List Char}
    (htext : s.text.toList ++ rest = c :: cs) :
    Token.symbol c cs = .token (.symbol s) s.text.toList rest ∨
      ∃ kind lexeme rest', Token.symbol c cs = .token kind lexeme rest' ∧
        s.text.toList.length < lexeme.length := by
  rcases symbol_text_cases s with ⟨a, hs⟩ | ⟨a, b, hs⟩
  · rw [hs, List.singleton_append] at htext
    obtain ⟨rfl, rfl⟩ := List.cons.inj htext
    have hsingle : singleSymbol a rest = .token (.symbol s) [a] rest := by
      rw [singleSymbol, singleSymbol?_eq_some_iff.2 hs]
    cases rest with
    | nil => exact .inl (by rw [hs]; exact hsingle)
    | cons d ds =>
      cases hpair : pairSymbol? a d with
      | some s' =>
        refine .inr ⟨.symbol s', [a, d], ds, ?_, by simp [hs]⟩
        simp [Token.symbol, hpair]
      | none =>
        refine .inl ?_
        simp only [Token.symbol, hpair]
        rw [hsingle, hs]
  · rw [hs, List.cons_append, List.singleton_append] at htext
    obtain ⟨rfl, rfl⟩ := List.cons.inj htext
    refine .inl ?_
    simp only [Token.symbol, pairSymbol?_eq_some_iff.2 hs, hs]

end Scriptlet.Lexical
