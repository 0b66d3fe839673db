import Scriptlet.Proofs.Layout
import Scriptlet.Proofs.RoundTrip
import Scriptlet.Proofs.WellFormed

/-!
# Programs written out

Every well-formed program can be written as source text. The text has a blank after each token, and
parentheses around each expression that is not an operand by itself, so that no precedence decides where
an operand ends; each element of a list has a comma after it.

* `Node.kinds`: the kinds of the tokens that a tree is written with.
* `Token.ofSource_spell`: the text of kinds that can be written is cut into tokens of these kinds.
* `Program.text`: the text of a program.
-/

namespace Scriptlet

open Scriptlet.Text

/-! ## Symbols by their text -/

namespace Symbol

/-- All symbols. -/
def all : List Symbol :=
  [.plus, .minus, .star, .slash, .percent, .less, .greater, .lessEqual, .greaterEqual, .equal,
   .notEqual, .andAnd, .orOr, .bang, .assign, .doubleColon, .openParen, .closeParen, .openBrace,
   .closeBrace, .openBracket, .closeBracket, .comma, .semicolon]

/-- The symbol that is written so. -/
def ofText (text : String) : Symbol := (all.find? (·.text == text)).getD default

theorem ofText_text (s : Symbol) : ofText s.text = s := by
  cases s <;> decide

theorem binary?_ofText (op : BinaryOperator) : (ofText op.text).binary? = some op := by
  cases op <;> decide

end Symbol

/-! ## Trees as kinds of tokens -/

namespace Node

open Token.Kind

/-- What is called, as it is written before the arguments. -/
def calleeKinds : Node → List Token.Kind
  | .name _ n => [ident n]
  | .path _ m f => [ident m, symbol .doubleColon, ident f]
  | _ => []

/-- A literal; tuples are written as expressions. -/
def literalKinds : Value → List Token.Kind
  | .int n => [int n.toNat]
  | .str s => [str s]
  | .bool b => [bool b]
  | .tuple _ => []

/-- The new name in a `use` statement, if there is one. -/
def aliasKinds : Option String → List Token.Kind
  | none => []
  | some n => [keyword .asWord, ident n]

mutual

/-- The kinds of the tokens that a tree is written with. An expression is written as an operand. -/
@[simp] def kinds : Node → List Token.Kind
  | .literal _ v => literalKinds v
  | .name _ n => [symbol .openParen, ident n, symbol .closeParen]
  | .unary _ op a =>
    symbol .openParen :: symbol (Symbol.ofText op) :: (kinds a ++ [symbol .closeParen])
  | .binary _ a op b =>
    symbol .openParen ::
      (kinds a ++ symbol (Symbol.ofText op) :: (kinds b ++ [symbol .closeParen]))
  | .tuple _ es => symbol .openParen :: (itemKinds es ++ [symbol .closeParen])
  | .index _ a b => kinds a ++ symbol .openBracket :: (kinds b ++ [symbol .closeBracket])
  | .call _ f es => calleeKinds f ++ symbol .openParen :: (itemKinds es ++ [symbol .closeParen])
  | .expression _ e => symbol .openParen :: (kinds e ++ [symbol .closeParen, symbol .semicolon])
  | .binding _ n e =>
    keyword .letWord :: ident n :: symbol .assign :: (kinds e ++ [symbol .semicolon])
  | .block _ es => symbol .openBrace :: (kindsAll es ++ [symbol .closeBrace])
  | .use _ m f newName =>
    keyword .useWord :: ident m :: symbol .doubleColon :: ident f ::
      (aliasKinds newName ++ [symbol .semicolon])
  | .program _ es => kindsAll es
  | .path _ _ _ | .blank _ _ => []

/-- The elements of a list, with a comma after each of them. -/
@[simp] def itemKinds : List Node → List Token.Kind
  | [] => []
  | e :: es => kinds e ++ symbol .comma :: itemKinds es

/-- Several statements, one after another. -/
@[simp] def kindsAll : List Node → List Token.Kind
  | [] => []
  | e :: es => kinds e ++ kindsAll es

end

end Node

/-! ## Names and lexemes -/

namespace Lexical

open Scriptlet.Token

/-- The names that can be written: words that are not reserved. -/
def IsName (n : String) : Prop := IsWord n.toList ∧ ∀ kind, (n, kind) ∉ reservedWords

end Lexical

namespace Token.Kind

open Scriptlet.Lexical

/-- Is there a lexeme for tokens of this kind? -/
def Writable : Kind → Prop
  | .ident n => IsName n
  | .eof => False
  | _ => True

/-- A lexeme for tokens of a kind. -/
def text : Kind → List Char
  | .int n => Decimal.write n
  | .str s => '"' :: s.toList.flatMap (Value.literalChar fun _ => true) ++ ['"']
  | .bool true => "true".toList
  | .bool false => "false".toList
  | .ident n => n.toList
  | .keyword k => k.text.toList
  | .symbol s => s.text.toList
  | .eof => []

theorem lexeme_text {k : Kind} (h : k.Writable) : Lexeme k k.text [] := by
  cases k with
  | int n =>
    have hrun : DigitRun isDecimal (Decimal.write n) :=
      digitRun_of_isDecimal (Decimal.write_ne_nil n) fun c => Decimal.isDecimal_of_mem_write
    have hlexeme := Lexeme.decimal hrun (not_startsWithName_of_startsBlank startsBlank_nil)
      (not_startsWithFraction_of_startsBlank startsBlank_nil)
    rwa [digitsOnly_write, Decimal.ofDigits_write] at hlexeme
  | str s =>
    have hlexeme : Lexeme _ _ [] := .string (stringInside_literal (fun _ => true) s.toList)
    rwa [String.ofList_toList] at hlexeme
  | bool b => cases b <;> exact .reserved (by decide)
  | ident n =>
    have hlexeme : Lexeme (.ident (String.ofList n.toList)) n.toList [] :=
      .name h.1 (by rw [String.ofList_toList]; exact h.2)
    rwa [String.ofList_toList] at hlexeme
  | keyword k => cases k <;> exact .reserved (by decide)
  | symbol s => exact .symbol (by cases s <;> rfl)
  | eof => exact h.elim

end Token.Kind

/-! ## From kinds to text and back -/

/-- The text of tokens of some kinds, with a blank after each of them. -/
def Token.spell (ks : List Token.Kind) : String := String.ofList (ks.flatMap fun k => k.text ++ [' '])

open Lexical in
theorem Token.ofSource_spell {ks : List Token.Kind} (hks : ∀ k ∈ ks, k.Writable) :
    ∃ tokens, Token.ofSource (Token.spell ks) = .ok tokens ∧
      tokens.map (·.kind) = ks ++ [.eof] := by
  let parts : List (Token × List Char) :=
    ks.map fun k => (⟨k, String.ofList k.text, default⟩, [' '])
  have hparts : ∀ p ∈ parts, p.2 = [' '] ∧ Lexeme p.1.kind p.1.lexeme.toList [] := by
    intro p hp
    obtain ⟨k, hk, rfl⟩ := List.mem_map.1 hp
    refine ⟨rfl, ?_⟩
    rw [String.toList_ofList]
    exact Kind.lexeme_text (hks k hk)
  have hseparated : Separated parts := by
    refine ⟨fun p hp => ?_, fun p hp => ?_⟩
    · rw [(hparts p hp).1]
      exact ⟨.blank (by decide) .nil, fun c cs heq => by obtain ⟨rfl, -⟩ := List.cons.inj heq; rfl⟩
    · rw [(hparts p (List.dropLast_subset _ hp)).1]
      exact List.cons_ne_nil _ _
  have htext : laidOut [] parts = ks.flatMap fun k => k.text ++ [' '] := by
    simp [laidOut, parts, List.flatMap_map]
  obtain ⟨tokens, hsplits, hcontent⟩ :=
    splits_laidOut .nil hseparated (fun p hp => (hparts p hp).2) .first
  refine ⟨tokens, ofSource_of_splits ?_, ?_⟩
  · rwa [Token.spell, String.toList_ofList, ← htext]
  · have hkinds := congrArg (List.map Prod.fst) hcontent
    simpa [parts, Token.content, Function.comp_def] using hkinds

/-! ## The text of a program -/

namespace Node

open Scriptlet.Lexical Token.Kind

theorem IsCallee.writable {f : Node} (hf : f.IsCallee IsName) : ∀ k ∈ f.calleeKinds, k.Writable := by
  cases hf with
  | name span hn => simpa [calleeKinds, Writable] using hn
  | path span hm hf => simpa [calleeKinds, Writable] using ⟨hm, hf⟩

theorem writable_items {es : List Node} (hes : ∀ e ∈ es, ∀ k ∈ e.kinds, k.Writable) :
    ∀ k ∈ itemKinds es, k.Writable := by
  induction es with
  | nil => simp [itemKinds]
  | cons e es ih =>
    obtain ⟨he, hrest⟩ := List.forall_mem_cons.1 hes
    simp only [itemKinds, List.forall_mem_append, List.forall_mem_cons]
    exact ⟨he, trivial, ih hrest⟩

/-- All tokens that a well-formed expression is written with have lexemes. -/
theorem IsExpression.writable {e : Node} (he : e.IsExpression IsName) :
    ∀ k ∈ e.kinds, k.Writable := by
  induction he with
  | int span n | str span s | bool span b => simp [literalKinds, Writable]
  | name span hn => simpa [kinds, Writable] using hn
  | unary span _ _ ih =>
    simp only [kinds, List.forall_mem_append, List.forall_mem_cons]
    exact ⟨trivial, trivial, ih, trivial, List.forall_mem_nil _⟩
  | binary span op _ _ iha ihb =>
    simp only [kinds, List.forall_mem_append, List.forall_mem_cons]
    exact ⟨trivial, iha, trivial, ihb, trivial, List.forall_mem_nil _⟩
  | tuple span _ ih =>
    simp only [kinds, List.forall_mem_append, List.forall_mem_cons]
    exact ⟨trivial, writable_items ih, trivial, List.forall_mem_nil _⟩
  | index span _ _ iha ihb =>
    simp only [kinds, List.forall_mem_append, List.forall_mem_cons]
    exact ⟨iha, trivial, ihb, trivial, List.forall_mem_nil _⟩
  | call span hf _ ih =>
    simp only [kinds, List.forall_mem_append, List.forall_mem_cons]
    exact ⟨hf.writable, trivial, writable_items ih, trivial, List.forall_mem_nil _⟩

theorem writable_all {es : List Node} (hes : ∀ e ∈ es, ∀ k ∈ e.kinds, k.Writable) :
    ∀ k ∈ kindsAll es, k.Writable := by
  induction es with
  | nil => simp [kindsAll]
  | cons e es ih =>
    obtain ⟨he, hrest⟩ := List.forall_mem_cons.1 hes
    simp only [kindsAll, List.forall_mem_append]
    exact ⟨he, ih hrest⟩

/-- All tokens that a well-formed statement is written with have lexemes. -/
theorem IsStatement.writable {s : Node} (hs : s.IsStatement IsName) :
    ∀ k ∈ s.kinds, k.Writable := by
  induction hs with
  | expression span he =>
    simp only [kinds, List.forall_mem_append, List.forall_mem_cons]
    exact ⟨trivial, he.writable, trivial, trivial, List.forall_mem_nil _⟩
  | binding span hn he =>
    simp only [kinds, List.forall_mem_append, List.forall_mem_cons]
    exact ⟨trivial, hn, trivial, he.writable, trivial, List.forall_mem_nil _⟩
  | block span _ ih =>
    simp only [kinds, List.forall_mem_append, List.forall_mem_cons]
    exact ⟨trivial, writable_all ih, trivial, List.forall_mem_nil _⟩
  | @use span m f newName hm hf hn =>
    cases newName with
    | none => simpa [aliasKinds, Writable] using ⟨hm, hf⟩
    | some n => simpa [aliasKinds, Writable] using ⟨hm, hf, hn n rfl⟩

end Node

namespace Program

/-- A program whose statements are well formed, with names that can be written. -/
def WellFormed (p : Program) : Prop := ∀ s ∈ p.statements, s.IsStatement Lexical.IsName

/-- The kinds of the tokens that a program is written with. -/
def kinds (p : Program) : List Token.Kind := Node.kindsAll p.statements

/-- A program as source text. -/
def text (p : Program) : String := Token.spell p.kinds

theorem ofSource_text {p : Program} (h : p.WellFormed) :
    ∃ tokens, Token.ofSource p.text = .ok tokens ∧ tokens.map (·.kind) = p.kinds ++ [.eof] :=
  Token.ofSource_spell (Node.writable_all fun s hs => (h s hs).writable)

end Program

end Scriptlet
