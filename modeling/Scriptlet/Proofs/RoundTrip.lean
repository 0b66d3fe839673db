import Mathlib.Tactic.Common
import Scriptlet.Eval.Interpreter
import Scriptlet.Proofs.Levels
import Scriptlet.Proofs.Lexing
import Scriptlet.Proofs.Reading
import Scriptlet.Value.Printer

/-!
# Printed values

The text of a value is a program that gives the value back. The way there has three stages, and each has
its own account of the value: the kinds of its tokens (`Value.kinds`), the tree that is read from them
(`Writes`), and the levels that its evaluation takes (`Value.depth`).

* `scans_chars`: the text of a value is cut into the value's tokens.
* `leads_value`: from these tokens the reader makes a tree that writes the value.
* `evaluate_writes`, `evaluate_tooDeep`: such a tree evaluates to the value, if there is room for it.
* `runSource_chars`: printing, reading and running give the value back.
-/

namespace Scriptlet

open Scriptlet.Text

namespace Value

/-! ## What a value looks like at each stage -/

mutual

/-- The levels that it takes to evaluate the text of a value. A negative number is a number under a
minus sign. -/
def depth : Value → Nat
  | .int n => if n < 0 then 2 else 1
  | .str _ | .bool _ => 1
  | .tuple vs => depthAll vs + 1

/-- The levels of the deepest value. -/
def depthAll : List Value → Nat
  | [] => 0
  | v :: vs => max v.depth (depthAll vs)

end

mutual

/-- The kinds of the tokens of a value's text. -/
def kinds : Value → List Token.Kind
  | .int (.ofNat n) => [.int n]
  | .int (.negSucc n) => [.symbol .minus, .int (n + 1)]
  | .str s => [.str s]
  | .bool b => [.bool b]
  | .tuple vs =>
    .symbol .openParen ::
      (itemKinds vs ++
        if vs.length = 1 then [.symbol .comma, .symbol .closeParen] else [.symbol .closeParen])

/-- The kinds of the tokens of a tuple's elements with the commas between them. -/
def itemKinds : List Value → List Token.Kind
  | [] => []
  | [v] => kinds v
  | v :: w :: vs => kinds v ++ .symbol .comma :: itemKinds (w :: vs)

end

mutual

/-- `e` is a tree that the text of a value is read to. -/
def Writes : Value → Node → Prop
  | .int (.ofNat n), e => ∃ span, e = .literal span (.int n)
  | .int (.negSucc n), e =>
    ∃ span span', e = .unary span "-" (.literal span' (.int (n + 1 : Nat)))
  | .str s, e => ∃ span, e = .literal span (.str s)
  | .bool b, e => ∃ span, e = .literal span (.bool b)
  | .tuple vs, e => ∃ span es, e = .tuple span es ∧ WritesAll vs es

/-- The trees of several values. -/
def WritesAll : List Value → List Node → Prop
  | [], es => es = []
  | v :: vs, es => ∃ e es', es = e :: es' ∧ Writes v e ∧ WritesAll vs es'

end

theorem WritesAll.length_eq : ∀ {vs : List Value} {es : List Node}, WritesAll vs es →
    es.length = vs.length
  | [], _, h => by
    rw [WritesAll] at h
    rw [h]
    rfl
  | v :: vs, _, h => by
    obtain ⟨e, es, rfl, -, hes⟩ := h
    rw [List.length_cons, List.length_cons, hes.length_eq]

end Value

/-! ## From text to tokens -/

namespace Token

open Scriptlet.Lexical

/-- The text is cut into tokens of the given kinds, wherever it stands. -/
def Scans (text : List Char) (kinds : List Kind) : Prop :=
  ∀ here, ∃ tokens, scan here text = (tokens, none) ∧ tokens.map (·.kind) = kinds ++ [.eof]

theorem scans_nil : Scans [] [] := fun here => ⟨_, by rw [scan], rfl⟩

theorem Scans.token {c : Char} {cs lexeme rest : List Char} {kind : Kind} {kinds : List Kind}
    (hpiece : piece c cs = .token kind lexeme rest) (hrest : Scans rest kinds) :
    Scans (c :: cs) (kind :: kinds) := by
  intro here
  obtain ⟨tokens, hscan, hkinds⟩ := hrest (here.after lexeme)
  refine ⟨⟨kind, String.ofList lexeme, ⟨here, here.after lexeme⟩⟩ :: tokens, ?_, ?_⟩
  · rw [scan_of_token hpiece, hscan]
  · rw [List.map_cons, hkinds, List.cons_append]

theorem Scans.blank {text : List Char} {kinds : List Kind} (h : Scans text kinds) :
    Scans (' ' :: text) kinds := by
  intro here
  obtain ⟨tokens, hscan, hkinds⟩ := h (here.after [' '])
  have hpiece : piece ' ' text = .trivia [' '] text := rfl
  exact ⟨tokens, by rw [scan_of_trivia hpiece, hscan], hkinds⟩

/-- The symbols that occur in values are taken alone, whatever follows. -/
theorem piece_mark {s : Symbol} {c : Char} (cs : List Char)
    (h : (s, c) ∈ [(.openParen, '('), (.closeParen, ')'), (.comma, ','), (.minus, '-')]) :
    piece c cs = .token (.symbol s) [c] cs := by
  simp only [List.mem_cons, Prod.mk.injEq, List.not_mem_nil, or_false] at h
  rcases h with ⟨rfl, rfl⟩ | ⟨rfl, rfl⟩ | ⟨rfl, rfl⟩ | ⟨rfl, rfl⟩ <;> cases cs <;> rfl

/-- What stands after a value inside of a value: nothing, a comma or a parenthesis. -/
def EndsValue (rest : List Char) : Prop := rest = [] ∨ ∃ cs, rest = ',' :: cs ∨ rest = ')' :: cs

theorem EndsValue.stopsAt {rest : List Char} (h : EndsValue rest) : StopsAt isNameChar rest := by
  rintro c cs rfl
  rcases h with h | ⟨ds, h | h⟩ <;> cases h <;> decide

theorem EndsValue.not_startsWithName {rest : List Char} (h : EndsValue rest) :
    ¬ StartsWithName rest :=
  not_startsWithName_iff.2 h.stopsAt

theorem EndsValue.not_startsWithFraction {rest : List Char} (h : EndsValue rest) :
    ¬ StartsWithFraction rest := by
  rintro ⟨c, cs, rfl, -⟩
  rcases h with h | ⟨ds, h | h⟩ <;> cases h

/-! ### Numbers -/

theorem digitRun_of_isDecimal {digits : List Char} (hne : digits ≠ [])
    (h : ∀ c ∈ digits, isDecimal c = true) : DigitRun isDecimal digits := by
  induction digits with
  | nil => exact absurd rfl hne
  | cons c cs ih =>
    cases cs with
    | nil => exact .last (h c List.mem_cons_self)
    | cons d ds =>
      exact .digit (h c List.mem_cons_self)
        (ih (List.cons_ne_nil _ _) fun e he => h e (List.mem_cons_of_mem _ he))

theorem digitsOnly_write (n : Nat) : digitsOnly (Decimal.write n) = Decimal.write n := by
  rw [digitsOnly, List.filter_eq_self]
  intro c hc
  have hne := ne_underscore digitClass_isDecimal.not_underscore (Decimal.isDecimal_of_mem_write hc)
  simpa using hne

theorem Scans.number {n : Nat} {rest : List Char} {kinds : List Kind} (hend : EndsValue rest)
    (h : Scans rest kinds) : Scans (Decimal.write n ++ rest) (.int n :: kinds) := by
  have hrun : DigitRun isDecimal (Decimal.write n) :=
    digitRun_of_isDecimal (Decimal.write_ne_nil n) fun c => Decimal.isDecimal_of_mem_write
  have hnumber := number_decimal hrun hend.not_startsWithName hend.not_startsWithFraction
  rw [digitsOnly_write, Decimal.ofDigits_write] at hnumber
  obtain ⟨c, cs, hwrite, hc⟩ := hrun.head
  rw [hwrite] at hnumber ⊢
  rw [List.cons_append] at hnumber ⊢
  exact Scans.token (by rw [piece_number _ hc]; exact hnumber) h

/-! ### Strings -/

theorem hex_one (n : Nat) : hex 1 n = Nat.toDigits 16 n := by
  have hpos : 0 < (Nat.toDigits 16 n).length := Nat.length_toDigits_pos
  have hzero : 1 - (Nat.toDigits 16 n).length = 0 := by omega
  simp [hex, hzero]

theorem escaped_scalar (c : Char) : Escaped c ('u' :: '\x7b' :: hex 1 c.toNat ++ ['\x7d']) := by
  have hlow : 0 < (Nat.toDigits 16 c.toNat).length := Nat.length_toDigits_pos
  have hbound : c.toNat < 16 ^ 6 := by
    rcases c.valid with h | ⟨-, h⟩ <;> rw [Char.toNat_val] at h <;> omega
  have hhigh : (Nat.toDigits 16 c.toNat).length ≤ 6 :=
    (Nat.length_toDigits_le_iff (by decide) (by decide)).2 hbound
  rw [hex_one]
  exact .scalar (fun d => isHex_of_mem_toDigits) hlow hhigh
    (ofDigits_toDigits (by decide) (by decide) _).symm

/-- A printed character stands for itself or is an escape that stands for it, whatever counts as
printable. -/
theorem literalChar_spec (printable : Char → Bool) (c : Char) :
    (Value.literalChar printable c = [c] ∧ c ≠ '"' ∧ c ≠ '\\' ∧ c ≠ '\n') ∨
      ∃ raw, Value.literalChar printable c = '\\' :: raw ∧ Escaped c raw := by
  have hshort (letter : Char) (h : (letter, c) ∈ shortEscapes) :
      ∃ raw, ['\\', letter] = '\\' :: raw ∧ Escaped c raw :=
    ⟨[letter], rfl, .short h⟩
  unfold Value.literalChar
  simp only [beq_iff_eq]
  split_ifs with hbackslash hquote hfeed htab hreturn hnull hprint
  · exact .inr (hshort '\\' (by subst hbackslash; decide))
  · exact .inr (hshort '"' (by subst hquote; decide))
  · exact .inr (hshort 'n' (by subst hfeed; decide))
  · exact .inr (hshort 't' (by subst htab; decide))
  · exact .inr (hshort 'r' (by subst hreturn; decide))
  · exact .inr (hshort '0' (by subst hnull; decide))
  · exact .inl ⟨rfl, hquote, hbackslash, hfeed⟩
  · exact .inr ⟨_, rfl, escaped_scalar c⟩

theorem stringInside_literal (printable : Char → Bool) (s : List Char) :
    StringInside s (s.flatMap (Value.literalChar printable)) := by
  induction s with
  | nil => exact .nil
  | cons c s ih =>
    rw [List.flatMap_cons]
    rcases literalChar_spec printable c with ⟨h, hquote, hbackslash, hfeed⟩ | ⟨raw, h, hraw⟩
    · rw [h]
      exact .plain hquote hbackslash hfeed ih
    · rw [h]
      exact .escaped hraw ih

theorem Scans.string (printable : Char → Bool) {s : String} {rest : List Char} {kinds : List Kind}
    (h : Scans rest kinds) :
    Scans ('"' :: s.toList.flatMap (Value.literalChar printable) ++ ['"'] ++ rest)
      (.str s :: kinds) := by
  have hbody := body_eq (stringInside_literal printable s.toList) rest
  have hpiece : piece '"' (s.toList.flatMap (Value.literalChar printable) ++ '"' :: rest) =
      .token (.str s) ('"' :: (s.toList.flatMap (Value.literalChar printable) ++ ['"'])) rest := by
    rw [piece_string]
    simp only [Token.string, hbody, String.ofList_toList]
  simp only [List.append_assoc, List.cons_append, List.nil_append]
  exact Scans.token hpiece h

/-! ### Truth values -/

theorem scans_word {text rest : List Char} {kinds : List Kind} (hword : IsWord text)
    (hend : EndsValue rest) (h : Scans rest kinds) :
    Scans (text ++ rest) (wordKind (String.ofList text) :: kinds) := by
  have hpiece : word (text ++ rest) = .token (wordKind (String.ofList text)) text rest := by
    simp only [word, takeWhile_append_of_stopsAt hword.mem hend.stopsAt,
      dropWhile_append_of_stopsAt hword.mem hend.stopsAt]
  cases text with
  | nil => exact hword.elim
  | cons c cs =>
    rw [List.cons_append] at hpiece ⊢
    exact Scans.token (by rw [piece_word _ hword.1]; exact hpiece) h

/-! ### Values -/

open Value

mutual

/-- The text of a value, in front of what may follow a value, is cut into the value's tokens. -/
theorem scans_chars (printable : Char → Bool) :
    ∀ (v : Value) {rest : List Char} {kinds : List Kind}, EndsValue rest → Scans rest kinds →
      Scans (v.chars printable ++ rest) (v.kinds ++ kinds)
  | .int (.ofNat n), _, _, hend, h => by
    rw [chars, Value.kinds, Decimal.signed]
    exact Scans.number hend h
  | .int (.negSucc n), _, _, hend, h => by
    rw [chars, Value.kinds, Decimal.signed]
    exact Scans.token (piece_mark _ (by decide)) (Scans.number hend h)
  | .str s, _, _, _, h => by
    rw [chars, Value.kinds]
    exact Scans.string printable h
  | .bool true, _, _, hend, h => by
    rw [chars, Value.kinds]
    exact scans_word ⟨by decide, List.all_eq_true.1 (by decide)⟩ hend h
  | .bool false, _, _, hend, h => by
    rw [chars, Value.kinds]
    exact scans_word ⟨by decide, List.all_eq_true.1 (by decide)⟩ hend h
  | .tuple vs, rest, ks, _, h => by
    have hclose : Scans (')' :: rest) (.symbol .closeParen :: ks) :=
      Scans.token (piece_mark _ (by decide)) h
    rw [chars, Value.kinds]
    simp only [List.cons_append, List.append_assoc]
    refine Scans.token (piece_mark _ (by decide)) ?_
    split_ifs
    · exact scans_itemChars printable vs (.inr ⟨_, .inl rfl⟩)
        (Scans.token (piece_mark _ (by decide)) hclose)
    · exact scans_itemChars printable vs (.inr ⟨_, .inr rfl⟩) hclose

theorem scans_itemChars (printable : Char → Bool) :
    ∀ (vs : List Value) {rest : List Char} {kinds : List Kind}, EndsValue rest → Scans rest kinds →
      Scans (itemChars printable vs ++ rest) (itemKinds vs ++ kinds)
  | [], _, _, _, h => by
    rw [itemChars, itemKinds]
    exact h
  | [v], _, _, hend, h => by
    rw [itemChars, itemKinds]
    exact scans_chars printable v hend h
  | v :: w :: vs, rest, ks, hend, h => by
    have hnext := (scans_itemChars printable (w :: vs) hend h).blank
    rw [itemChars, itemKinds]
    simp only [List.cons_append, List.append_assoc]
    exact scans_chars printable v (.inr ⟨_, .inl rfl⟩)
      (Scans.token (piece_mark _ (by decide)) hnext)

end

end Token

/-! ## From tokens to a tree -/

namespace Reader

open Value

/-- The parenthesis of a tuple, after the elements that were read, newest first. Before its first comma
it may still be a group. -/
def opened (start : Span) : List Node → Bracket
  | [] => .group start
  | e :: es => .tuple start (e :: es)

section Tokens

variable {limit : Nat} {last : Span} {done : List Node} {blocks : List OpenBlock} {hd : Head}
  {bs : List (Bracket × List Pending)}

/-- A comma after an element. -/
theorem leads_comma {t : Token} (ht : t.kind = .symbol .comma) (start : Span) (acc : List Node)
    (outer ws : List Pending) (e : Node) :
    Leads limit ⟨last, done, blocks, .complete ⟨ws, (opened start acc, outer) :: bs, hd⟩ e⟩ [t]
      ⟨t.span, done, blocks,
        .operand ⟨[], (opened start ((reduce 0 ws e).2 :: acc), outer) :: bs, hd⟩⟩ := by
  refine Leads.goto ht nofun ?_
  cases acc <;> simp only [take, complete, settle, opened, goto, ht, Symbol.binary?]

/-- A parenthesis after the last element, if there was a comma before it. -/
theorem leads_closeParen {t : Token} (ht : t.kind = .symbol .closeParen) (start : Span)
    {acc : List Node} (hacc : acc ≠ []) (outer ws : List Pending) (e : Node) :
    Leads limit ⟨last, done, blocks, .complete ⟨ws, (opened start acc, outer) :: bs, hd⟩ e⟩ [t]
      ⟨t.span, done, blocks, .complete ⟨outer, bs, hd⟩
        (.tuple (Span.between (some start) (some t.span))
          ((reduce 0 ws e).2 :: acc).reverse)⟩ := by
  refine Leads.goto ht nofun ?_
  cases acc with
  | nil => exact absurd rfl hacc
  | cons a as => simp only [take, complete, settle, opened, goto, ht, Symbol.binary?]

/-- A parenthesis after a comma, or after nothing. -/
theorem leads_closeParen_of_operand {t : Token} (ht : t.kind = .symbol .closeParen) (start : Span)
    (acc : List Node) (outer : List Pending) :
    Leads limit ⟨last, done, blocks, .operand ⟨[], (opened start acc, outer) :: bs, hd⟩⟩ [t]
      ⟨t.span, done, blocks, .complete ⟨outer, bs, hd⟩
        (.tuple (Span.between (some start) (some t.span)) acc.reverse)⟩ := by
  refine Leads.goto ht nofun ?_
  cases acc <;> simp only [take, operand, opened, goto, ht, List.reverse_nil]

theorem leads_openParen {t : Token} (ht : t.kind = .symbol .openParen) (p : Phrase)
    (h : blocks.length + p.levels + 1 ≤ limit) :
    Leads limit ⟨last, done, blocks, .operand p⟩ [t]
      ⟨t.span, done, blocks, .operand (p.enter (opened t.span []))⟩ := by
  have hlevels : blocks.length + (p.enter (opened t.span [])).levels ≤ limit := by
    rw [Phrase.levels_enter]
    omega
  refine Leads.goto ht nofun ?_
  simp only [take, operand, ht]
  exact deepen_of_le hlevels t _

/-- A sign before an operand. -/
theorem leads_sign {t : Token} {s : Symbol} (ht : t.kind = .symbol s) (hs : s.isUnary = true)
    (p : Phrase) (h : blocks.length + p.levels + 1 ≤ limit) :
    Leads limit ⟨last, done, blocks, .operand p⟩ [t]
      ⟨t.span, done, blocks, .operand { p with pending := .unary t.span s :: p.pending }⟩ := by
  have hlevels := Phrase.levels_unary t.span s p.pending p.brackets p.head
  refine Leads.goto ht nofun ?_
  cases s with
  | minus | plus | bang =>
    simp only [take, operand, ht]
    exact deepen_of_le (by rw [hlevels]; omega) t _
  | _ => cases hs

theorem leads_literal {t : Token} {v : Value} {kind : Token.Kind} (ht : t.kind = kind)
    (h : (∃ n : Nat, kind = .int n ∧ v = .int n) ∨ (∃ s, kind = .str s ∧ v = .str s) ∨
      ∃ b, kind = .bool b ∧ v = .bool b) (p : Phrase) :
    Leads limit ⟨last, done, blocks, .operand p⟩ [t]
      ⟨t.span, done, blocks, .complete p (.literal (some t.span) v)⟩ := by
  rcases h with ⟨n, rfl, rfl⟩ | ⟨s, rfl, rfl⟩ | ⟨b, rfl, rfl⟩ <;>
    exact Leads.goto ht nofun (by simp only [take, operand, ht, goto])

end Tokens

/-! ### Values -/

section Values

variable (limit : Nat) (done : List Node) (blocks : List OpenBlock) (hd : Head)

theorem levels_cons (b : Bracket) (bs : List (Bracket × List Pending)) :
    (Phrase.mk [] ((b, []) :: bs) hd).levels = (Phrase.mk [] bs hd).levels + 1 :=
  Phrase.levels_enter ⟨[], bs, hd⟩ b

mutual

/-- Where an operand is due, the tokens of a value lead to a tree that writes it. -/
theorem leads_value : ∀ (v : Value) (bs : List (Bracket × List Pending)) (last : Span)
    {ts : List Token}, ts.map (·.kind) = v.kinds →
    blocks.length + (Phrase.mk [] bs hd).levels + v.depth ≤ limit →
    ∃ last' ws e, Writes v (reduce 0 ws e).2 ∧
      Leads limit ⟨last, done, blocks, .operand ⟨[], bs, hd⟩⟩ ts
        ⟨last', done, blocks, .complete ⟨ws, bs, hd⟩ e⟩
  | .int (.ofNat n), bs, last, ts, hts, _ => by
    rw [Value.kinds, List.map_eq_singleton_iff] at hts
    obtain ⟨t, rfl, ht⟩ := hts
    exact ⟨_, [], _, ⟨_, rfl⟩, leads_literal ht (.inl ⟨n, rfl, rfl⟩) _⟩
  | .int (.negSucc n), bs, last, ts, hts, hroom => by
    rw [Value.kinds, List.map_eq_cons_iff] at hts
    obtain ⟨t, ts', rfl, ht, hts⟩ := hts
    rw [List.map_eq_singleton_iff] at hts
    obtain ⟨t', rfl, ht'⟩ := hts
    rw [Value.depth, if_pos (Int.negSucc_lt_zero n)] at hroom
    exact ⟨_, [.unary t.span .minus], _, ⟨_, _, rfl⟩,
      (leads_sign ht rfl ⟨[], bs, hd⟩ (by omega)).trans
        (leads_literal ht' (.inl ⟨n + 1, rfl, rfl⟩) _)⟩
  | .str s, bs, last, ts, hts, _ => by
    rw [Value.kinds, List.map_eq_singleton_iff] at hts
    obtain ⟨t, rfl, ht⟩ := hts
    exact ⟨_, [], _, ⟨_, rfl⟩, leads_literal ht (.inr (.inl ⟨s, rfl, rfl⟩)) _⟩
  | .bool b, bs, last, ts, hts, _ => by
    rw [Value.kinds, List.map_eq_singleton_iff] at hts
    obtain ⟨t, rfl, ht⟩ := hts
    exact ⟨_, [], _, ⟨_, rfl⟩, leads_literal ht (.inr (.inr ⟨b, rfl, rfl⟩)) _⟩
  | .tuple vs, bs, last, ts, hts, hroom => by
    rw [Value.kinds, List.map_eq_cons_iff] at hts
    obtain ⟨t, ts', rfl, ht, hts⟩ := hts
    obtain ⟨items, closers, rfl, hitems, hclosers⟩ := List.map_eq_append_iff.1 hts
    rw [Value.depth] at hroom
    have hopen : Leads limit ⟨last, done, blocks, .operand ⟨[], bs, hd⟩⟩ [t]
        ⟨t.span, done, blocks, .operand ⟨[], (opened t.span [], []) :: bs, hd⟩⟩ :=
      leads_openParen ht ⟨[], bs, hd⟩ (by omega)
    by_cases hvs : vs = []
    · subst hvs
      rw [itemKinds, List.map_eq_nil_iff] at hitems
      rw [if_neg (by decide), List.map_eq_singleton_iff] at hclosers
      obtain ⟨c, rfl, hc⟩ := hclosers
      subst hitems
      exact ⟨_, [], _, ⟨_, _, rfl, rfl⟩,
        hopen.trans (leads_closeParen_of_operand hc t.span [] [])⟩
    · obtain ⟨last', ws, e, es, hes, hlead⟩ :=
        leads_items vs t.span [] bs t.span hvs hitems (by omega)
      have hlength := hes.length_eq
      rw [List.length_append, List.length_singleton] at hlength
      rw [List.append_nil] at hlead
      split_ifs at hclosers with hone
      · -- the only element: a comma comes before the parenthesis
        obtain ⟨comma, cs, rfl, hcomma, hcs⟩ := List.map_eq_cons_iff.1 hclosers
        obtain ⟨c, rfl, hc⟩ := List.map_eq_singleton_iff.1 hcs
        have hnil : es = [] := List.length_eq_zero_iff.1 (by omega)
        subst hnil
        exact ⟨_, [], _, ⟨_, _, rfl, hes⟩, hopen.trans (hlead.trans
          ((leads_comma hcomma t.span [] [] ws e).trans
            (leads_closeParen_of_operand hc t.span _ [])))⟩
      · obtain ⟨c, rfl, hc⟩ := List.map_eq_singleton_iff.1 hclosers
        have hne : es.reverse ≠ [] := by
          intro hnil
          rw [List.reverse_eq_nil_iff.1 hnil, List.length_nil] at hlength
          exact hone hlength.symm
        refine ⟨_, [], _, ⟨_, _, rfl, ?_⟩, hopen.trans (hlead.trans
          (leads_closeParen hc t.span hne [] ws e))⟩
        rw [List.reverse_cons, List.reverse_reverse]
        exact hes

/-- The tokens of the elements of a tuple lead to their trees, of which the last is still open. -/
theorem leads_items : ∀ (vs : List Value) (start : Span) (acc : List Node)
    (bs : List (Bracket × List Pending)) (last : Span) {ts : List Token}, vs ≠ [] →
    ts.map (·.kind) = itemKinds vs →
    blocks.length + (Phrase.mk [] bs hd).levels + 1 + depthAll vs ≤ limit →
    ∃ last' ws e es, WritesAll vs (es ++ [(reduce 0 ws e).2]) ∧
      Leads limit ⟨last, done, blocks, .operand ⟨[], (opened start acc, []) :: bs, hd⟩⟩ ts
        ⟨last', done, blocks, .complete ⟨ws, (opened start (es.reverse ++ acc), []) :: bs, hd⟩ e⟩
  | [], _, _, _, _, _, hne, _, _ => absurd rfl hne
  | [v], start, acc, bs, last, ts, _, hts, hroom => by
    rw [depthAll, depthAll, Nat.max_zero] at hroom
    obtain ⟨last', ws, e, he, hlead⟩ := leads_value v ((opened start acc, []) :: bs) last hts
      (by rw [levels_cons]; omega)
    exact ⟨last', ws, e, [], ⟨_, _, rfl, he, rfl⟩, hlead⟩
  | v :: w :: vs, start, acc, bs, last, ts, _, hts, hroom => by
    rw [itemKinds] at hts
    obtain ⟨first, ts', rfl, hfirst, hts⟩ := List.map_eq_append_iff.1 hts
    obtain ⟨comma, others, rfl, hcomma, hothers⟩ := List.map_eq_cons_iff.1 hts
    rw [depthAll] at hroom
    obtain ⟨_, ws, e, he, hlead⟩ := leads_value v ((opened start acc, []) :: bs) last hfirst
      (by rw [levels_cons]; omega)
    obtain ⟨last', ws', e', es, hes, hlead'⟩ := leads_items (w :: vs) start
      ((reduce 0 ws e).2 :: acc) bs comma.span (List.cons_ne_nil _ _) hothers (by omega)
    refine ⟨last', ws', e', (reduce 0 ws e).2 :: es, ⟨_, _, rfl, he, hes⟩, ?_⟩
    rw [List.reverse_cons, List.append_assoc, List.singleton_append]
    exact hlead.trans ((leads_comma hcomma start acc [] ws e).trans hlead')

end

end Values

/-! ### Programs -/

theorem startsOperand_kinds (v : Value) :
    ∃ kind kinds, v.kinds = kind :: kinds ∧ startsOperand kind = true := by
  match v with
  | .int (.ofNat n) => exact ⟨_, _, by rw [Value.kinds], rfl⟩
  | .int (.negSucc n) => exact ⟨_, _, by rw [Value.kinds], rfl⟩
  | .str s => exact ⟨_, _, by rw [Value.kinds], rfl⟩
  | .bool b => exact ⟨_, _, by rw [Value.kinds], rfl⟩
  | .tuple vs => exact ⟨_, _, by rw [Value.kinds], rfl⟩

/-- The end of input after an expression ends the program with it. -/
theorem run_eof {limit : Nat} {last start : Span} {t : Token} (ht : t.kind = .eof)
    (ws : List Pending) (e : Node) :
    run limit ⟨last, [], [], .complete ⟨ws, [], .expression start⟩ e⟩ [t] =
      .ok ⟨last, [.expression (Span.between (some start) (some last)) (reduce 0 ws e).2], [],
        .statement⟩ := by
  simp only [run, advance, take, complete, settle, terminate, statement, Head.start, Head.close, add,
    goto, ht, List.isEmpty_nil, if_true]

end Reader

/-- The tokens of a value are the program that consists of a tree for it. -/
theorem Program.read_kinds {limit : Nat} {tokens : List Token} {v : Value}
    (h : tokens.map (·.kind) = v.kinds ++ [.eof]) (hroom : v.depth ≤ limit) :
    ∃ span place e, Program.read limit tokens = .ok ⟨some span, [.expression place e]⟩ ∧
      Value.Writes v e := by
  obtain ⟨ts, ends, rfl, hts, hends⟩ := List.map_eq_append_iff.1 h
  obtain ⟨eof, rfl, heof⟩ := List.map_eq_singleton_iff.1 hends
  obtain ⟨kind, kinds, hkinds, hstart⟩ := Reader.startsOperand_kinds v
  rw [hkinds] at hts
  obtain ⟨t, ts, rfl, rfl, -⟩ := List.map_eq_cons_iff.1 hts
  rw [← hkinds] at hts
  obtain ⟨last, ws, e, he, hlead⟩ := Reader.leads_value limit [] [] (.expression t.span) v [] t.span
    hts (by simpa [Reader.Phrase.levels] using hroom)
  refine ⟨⟨t.span.start, last.stop⟩, Span.between (some t.span) (some last), _, ?_, he⟩
  simp only [Program.read, Reader.initial, List.cons_append]
  rw [Reader.run_of_startsOperand _ hstart, ← List.cons_append, hlead, Reader.run_eof heof]
  rfl

/-! ## From a tree to a value -/

namespace Eval

open Value

variable {σ : Type} (s : Setting σ)

mutual

/-- With room for its levels, a tree that writes a value evaluates to it, and does nothing else. -/
theorem evaluate_writes : ∀ (v : Value) {e : Node} {m : Machine σ}, Writes v e →
    s.limits.Allows (m.depth + v.depth) → evaluate s false e m = .ok v m
  | .int (.ofNat n), _, m, ⟨_, rfl⟩, h => by
    rw [evaluate, nested_of_allows h]
    rfl
  | .int (.negSucc n), _, m, ⟨span, span', rfl⟩, h => by
    rw [Value.depth, if_pos (Int.negSucc_lt_zero n)] at h
    have hliteral : evaluate s false (.literal span' (.int (n + 1 : Nat))) m.descend =
        .ok (.int (n + 1 : Nat)) m.descend := by
      rw [evaluate, nested_of_allows (h.mono (Nat.le_refl _))]
      rfl
    rw [evaluate, nested_of_allows (h.mono (by omega)), bind_ok hliteral]
    rfl
  | .str _, _, m, ⟨_, rfl⟩, h => by
    rw [evaluate, nested_of_allows h]
    rfl
  | .bool _, _, m, ⟨_, rfl⟩, h => by
    rw [evaluate, nested_of_allows h]
    rfl
  | .tuple vs, _, m, ⟨span, es, rfl, hes⟩, h => by
    rw [Value.depth] at h
    have hall : evaluateAll s es m.descend = .ok vs m.descend :=
      evaluateAll_writes vs hes (h.mono (by rw [Machine.descend_depth]; omega))
    rw [evaluate, nested_of_allows (h.mono (by omega)), bind_ok hall]
    rfl

theorem evaluateAll_writes : ∀ (vs : List Value) {es : List Node} {m : Machine σ},
    WritesAll vs es → s.limits.Allows (m.depth + depthAll vs) → evaluateAll s es m = .ok vs m
  | [], _, m, h, _ => by
    rw [WritesAll] at h
    rw [h, evaluateAll]
    rfl
  | v :: vs, _, m, ⟨e, es, rfl, he, hes⟩, h => by
    rw [depthAll] at h
    have hfirst : evaluate s false e m = .ok v m := evaluate_writes v he (h.mono (by omega))
    have hothers : evaluateAll s es m = .ok vs m := evaluateAll_writes vs hes (h.mono (by omega))
    rw [evaluateAll, bind_ok hfirst, bind_ok hothers]
    rfl

end

/-- The computation went one level deeper than its own limit, and did nothing else before. -/
def StopsTooDeep (m : Machine σ) (r : Result σ α) : Prop :=
  ∃ span m', r = .error (.tooDeep span) m' ∧ m'.natives = m.natives ∧ m'.lines = m.lines

theorem StopsTooDeep.bind {x : Eval σ α} {m : Machine σ} (h : StopsTooDeep m (x m))
    (f : α → Eval σ β) : StopsTooDeep m ((x >>= f) m) := by
  obtain ⟨span, m', hx, hm'⟩ := h
  exact ⟨span, m', bind_error hx, hm'⟩

/-- Either the new level is the one too many, or the computation inside finds it. -/
theorem StopsTooDeep.level {limits : Limits} {m : Machine σ} {x : Eval σ α}
    (hhost : m.depth + 1 ≤ limits.stackDepth)
    (h : m.depth + 1 ≤ limits.maxDepth → StopsTooDeep m.descend (x m.descend)) (span : Option Span) :
    StopsTooDeep m (nested limits span x m) := by
  by_cases hroom : m.depth + 1 ≤ limits.maxDepth
  · obtain ⟨place, m', hx, hnatives, hlines⟩ := h hroom
    rw [nested_of_allows ⟨hroom, hhost⟩, hx]
    exact ⟨place, m'.ascend, rfl, hnatives, hlines⟩
  · unfold nested
    rw [if_pos (Nat.lt_of_not_le hroom)]
    exact ⟨span, m.descend, rfl, rfl, rfl⟩

mutual

/-- A tree that writes a value of too many levels stops there. -/
theorem evaluate_tooDeep : ∀ (v : Value) {e : Node} {m : Machine σ}, Writes v e →
    s.limits.maxDepth < m.depth + v.depth → m.depth + v.depth ≤ s.limits.stackDepth →
    StopsTooDeep m (evaluate s false e m)
  | .int (.ofNat n), _, m, ⟨_, rfl⟩, hdeep, hhost => by
    rw [evaluate]
    exact .level hhost (fun h => absurd hdeep (Nat.not_lt.2 h)) _
  | .int (.negSucc n), _, m, ⟨span, span', rfl⟩, hdeep, hhost => by
    rw [Value.depth, if_pos (Int.negSucc_lt_zero n)] at hdeep hhost
    rw [evaluate]
    refine .level (by omega) (fun _ => .bind ?_ _) _
    rw [evaluate]
    exact .level hhost (fun h => absurd hdeep (Nat.not_lt.2 h)) _
  | .str _, _, m, ⟨_, rfl⟩, hdeep, hhost => by
    rw [evaluate]
    exact .level hhost (fun h => absurd hdeep (Nat.not_lt.2 h)) _
  | .bool _, _, m, ⟨_, rfl⟩, hdeep, hhost => by
    rw [evaluate]
    exact .level hhost (fun h => absurd hdeep (Nat.not_lt.2 h)) _
  | .tuple vs, _, m, ⟨span, es, rfl, hes⟩, hdeep, hhost => by
    rw [Value.depth] at hdeep hhost
    rw [evaluate]
    refine .level (by omega) (fun hroom => .bind ?_ _) _
    exact evaluateAll_tooDeep vs hes hroom (by rw [Machine.descend_depth]; omega)
      (by rw [Machine.descend_depth]; omega)

theorem evaluateAll_tooDeep : ∀ (vs : List Value) {es : List Node} {m : Machine σ},
    WritesAll vs es → m.depth ≤ s.limits.maxDepth → s.limits.maxDepth < m.depth + depthAll vs →
    m.depth + depthAll vs ≤ s.limits.stackDepth → StopsTooDeep m (evaluateAll s es m)
  | [], _, m, _, hm, hdeep, _ => absurd hdeep (Nat.not_lt.2 hm)
  | v :: vs, _, m, ⟨e, es, rfl, he, hes⟩, hm, hdeep, hhost => by
    rw [depthAll] at hdeep hhost
    rw [evaluateAll]
    by_cases hfirst : m.depth + v.depth ≤ s.limits.maxDepth
    · -- the first element fits, so the level that is one too many is in another
      rw [bind_ok (evaluate_writes s v he ⟨hfirst, by omega⟩)]
      exact .bind (evaluateAll_tooDeep vs hes hm (by omega) (by omega)) _
    · exact .bind (evaluate_tooDeep v he (by omega) (by omega)) _

end

/-- A program of one expression does what the expression does. -/
theorem executeAll_expression (place : Option Span) (e : Node) (m : Machine σ) :
    executeAll s .unit [.expression place e] m = evaluate s false e m := by
  rw [executeAll, execute]
  cases he : evaluate s false e m with
  | ok v m' => exact bind_ok he
  | error stop m' => exact bind_error he

end Eval

/-! ## The whole way -/

variable {σ : Type}

theorem Program.ofSourceWithin_chars {limit : Nat} (printable : Char → Bool) (v : Value)
    (hroom : v.depth ≤ limit) :
    ∃ span place e, Program.ofSourceWithin limit (String.ofList (v.chars printable)) =
      .ok ⟨some span, [.expression place e]⟩ ∧ Value.Writes v e := by
  have hscans := Token.scans_chars printable v (.inl rfl) Token.scans_nil
  rw [List.append_nil, List.append_nil] at hscans
  obtain ⟨tokens, hscan, hkinds⟩ := hscans .first
  obtain ⟨span, place, e, hread, he⟩ := Program.read_kinds hkinds hroom
  refine ⟨span, place, e, ?_, he⟩
  simp only [Program.ofSourceWithin, Token.ofSource, Token.stream, String.toList_ofList, hscan,
    Option.map_none, hread]

/-- The text of a value is a program that gives the value back if the limit leaves room for its levels,
and fails at the limit if it does not. Nothing is assumed of which characters are printable, and the
native functions are left alone. -/
theorem runSource_chars (printable : Char → Bool) (v : Value) (i : Interpreter σ) (natives : σ)
    (hhost : v.depth ≤ i.limits.stackDepth) :
    (v.depth ≤ i.limits.maxDepth →
      runSource i (String.ofList (v.chars printable)) natives = (.ok v, natives)) ∧
    (i.limits.maxDepth < v.depth →
      ∃ f, runSource i (String.ofList (v.chars printable)) natives = (.error (.failure f), natives) ∧
        f.cause = .depthExceeded i.limits.maxDepth ∧ f.cause.code = "E503") := by
  obtain ⟨span, place, e, hsource, he⟩ := Program.ofSourceWithin_chars printable v hhost
  simp only [runSource, hsource, Interpreter.runProgram, Eval.executeAll_expression]
  generalize hm : Interpreter.start _ _ _ _ = m
  have hdepth : m.depth = 0 := by rw [← hm, Interpreter.start]
  have hnatives : m.natives = natives := by rw [← hm, Interpreter.start]
  have hlevels : m.depth + v.depth = v.depth := by rw [hdepth, Nat.zero_add]
  constructor
  · intro hroom
    have hallows : i.limits.Allows (m.depth + v.depth) := by
      rw [hlevels]
      exact ⟨hroom, hhost⟩
    rw [Eval.evaluate_writes i.setting v he hallows]
    simp only [Interpreter.outcome, Outcome.value, Machine.record, hnatives]
  · intro hdeep
    have hstops : Eval.StopsTooDeep m (Eval.evaluate i.setting false e m) := by
      apply Eval.evaluate_tooDeep i.setting v he
      · rw [hlevels]
        exact hdeep
      · rw [hlevels]
        exact hhost
    obtain ⟨level, m', hstop, hm', -⟩ := hstops
    refine ⟨.atSpan m'.lines level (.depthExceeded i.limits.maxDepth), ?_, rfl, rfl⟩
    rw [hstop]
    simp only [Interpreter.outcome, Outcome.value, Stop.error, hm', hnatives]

/-- A tuple of three levels: a negative number, a string that needs escapes, and tuples of no and of one
element. -/
def nestedSample : Value :=
  .tuple [.int (-12), .str "a\"\n\x7f", .tuple [], .tuple [.bool true]]

/-- Three levels are enough for the sample, and two are not. -/
theorem runSource_chars_nestedSample :
    runSource (⟨.empty, ⟨3, 1000⟩, 0, []⟩ : Interpreter Unit)
        (String.ofList (nestedSample.chars fun c => c == 'a')) () = (.ok nestedSample, ()) ∧
      ∃ f, runSource (⟨.empty, ⟨2, 1000⟩, 0, []⟩ : Interpreter Unit)
          (String.ofList (nestedSample.chars fun c => c == 'a')) () = (.error (.failure f), ()) ∧
        f.cause = .depthExceeded 2 ∧ f.cause.code = "E503" :=
  ⟨(runSource_chars _ nestedSample _ () (by decide)).1 (by decide),
    (runSource_chars _ nestedSample _ () (by decide)).2 (by decide)⟩

end Scriptlet
