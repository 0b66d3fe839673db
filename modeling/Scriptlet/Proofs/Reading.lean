import Mathlib.Tactic.Common
import Scriptlet.Syntax.Program

/-!
# Runs of the reader

`Leads limit r ts r'` says that the reader goes from `r` to `r'` while it takes the tokens `ts`,
whatever comes after them. The lemmas about single tokens say what each of them does in the mode in
which an expression is read.
-/

namespace Scriptlet.Reader

/-! ## Runs -/

/-- From `r`, the tokens `ts` lead to `r'`. -/
def Leads (limit : Nat) (r : Reader) (ts : List Token) (r' : Reader) : Prop :=
  ∀ rest, r.run limit (ts ++ rest) = r'.run limit rest

theorem Leads.trans {limit : Nat} {r₁ r₂ r₃ : Reader} {s t : List Token} (h : Leads limit r₁ s r₂)
    (h' : Leads limit r₂ t r₃) : Leads limit r₁ (s ++ t) r₃ := by
  intro rest
  rw [List.append_assoc, h, h']

theorem advance_of_ne_eof {limit : Nat} {r r' : Reader} {t : Token} (ht : t.kind ≠ .eof)
    (h : r.take limit t = .ok r') : r.advance limit t = .ok { r' with last := t.span } := by
  unfold advance
  split
  · next heq => exact absurd heq ht
  · rw [h]
    rfl

theorem advance_error {limit : Nat} {r : Reader} {t : Token} {fault : Fault}
    (h : r.take limit t = .error fault) : r.advance limit t = .error fault := by
  unfold advance
  split
  · exact h
  · rw [h]
    rfl

/-- A token that is taken leads on. -/
theorem Leads.step {limit : Nat} {r r' : Reader} {t : Token} (ht : t.kind ≠ .eof)
    (h : r.take limit t = .ok r') : Leads limit r [t] { r' with last := t.span } := by
  intro rest
  rw [List.singleton_append, run, advance_of_ne_eof ht h]
  simp only [ht, if_false]

/-- A token inside of a statement leads from mode to mode. -/
theorem Leads.goto {limit : Nat} {last : Span} {done : List Node} {blocks : List OpenBlock}
    {mode mode' : Mode} {t : Token} {k : Token.Kind} (ht : t.kind = k) (hk : k ≠ .eof)
    (h : take limit ⟨last, done, blocks, mode⟩ t = .ok ⟨last, done, blocks, mode'⟩) :
    Leads limit ⟨last, done, blocks, mode⟩ [t] ⟨t.span, done, blocks, mode'⟩ :=
  Leads.step (ht ▸ hk) h

/-! ## Nesting -/

theorem deepen_of_le {limit levels : Nat} (h : levels ≤ limit) (t : Token) (r : Reader) :
    deepen limit t levels r = .ok r := if_pos h

namespace Phrase

theorem levels_enter (p : Phrase) (b : Bracket) : (p.enter b).levels = p.levels + 1 := by
  unfold enter levels
  simp only [List.countP_nil, List.foldr_cons]
  omega

theorem levels_unary (place : Span) (s : Symbol) (ws : List Pending)
    (bs : List (Bracket × List Pending)) (hd : Head) :
    (Phrase.mk (.unary place s :: ws) bs hd).levels = (Phrase.mk ws bs hd).levels + 1 := by
  unfold levels
  dsimp only
  rw [List.countP_cons_of_pos rfl]
  omega

end Phrase

/-! ## Beginnings of expressions -/

/-- Can an operand other than a name start with a token of this kind? -/
def startsOperand : Token.Kind → Bool
  | .int _ | .str _ | .bool _ => true
  | .symbol s => s == .openParen || s.isUnary
  | _ => false

/-- Where a statement is due, a token that starts an operand starts an expression. -/
theorem statement_of_startsOperand {limit : Nat} {r : Reader} {t : Token}
    (h : startsOperand t.kind = true) :
    r.statement limit t = r.operand limit ⟨[], [], .expression t.span⟩ t := by
  unfold statement
  split
  case h_8 => rfl
  all_goals next heq => rw [heq] at h; cases h

theorem run_of_startsOperand {limit : Nat} {last : Span} {done : List Node}
    {blocks : List OpenBlock} {t : Token} (ts : List Token) (h : startsOperand t.kind = true) :
    run limit ⟨last, done, blocks, .statement⟩ (t :: ts) =
      run limit ⟨last, done, blocks, .operand ⟨[], [], .expression t.span⟩⟩ (t :: ts) := by
  have htake : take limit ⟨last, done, blocks, .statement⟩ t =
      take limit ⟨last, done, blocks, .operand ⟨[], [], .expression t.span⟩⟩ t :=
    statement_of_startsOperand h
  unfold run advance
  rw [htake]

end Scriptlet.Reader
