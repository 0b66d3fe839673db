import Scriptlet.Proofs.Descent

/-!
# Expressions by descent

Step by step, a reading by descent does what the reader does with its stacks. So all along a reading the
answer of the reader stays the same, said from the place and the mode that the reader would be in.

* `resume`: what the reader comes to from a place, in a mode.
* `Expressions`: what the functions for expressions do when they are begun at a place.
* `expressions_at`: this holds at all places up to the first end of input. The induction is on the tokens that
  are left; at one place, the functions are taken in the order in which they call each other.
-/

namespace Scriptlet.Descent

open Scriptlet.Token (Kind)
open Scriptlet.Reader (Phrase Pending Bracket Head Mode OpenBlock)

/-! ## The reader from a place on -/

/-- What the reader comes to from a place, in a mode. -/
def resume (limit : Nat) (tokens : List Token) (done : List Node) (blocks : List OpenBlock)
    (mode : Mode) (i : Nat) : Except Fault Reader :=
  Reader.run limit ⟨lastAt tokens i, done, blocks, mode⟩ (tokens.drop i)

section

variable {limit : Nat} {tokens : List Token} {done done' : List Node}
  {blocks blocks' : List OpenBlock} {mode mode' : Mode} {i : Nat} {t : Token}

theorem At.drop_eq (h : At tokens i t) : tokens.drop i = t :: tokens.drop (i + 1) := by
  obtain ⟨hi, rfl⟩ := List.getElem?_eq_some_iff.1 h.token
  exact List.drop_eq_getElem_cons hi

theorem At.resume_ok (h : At tokens i t) (ht : t.kind ≠ .eof)
    (htake : Reader.take limit ⟨lastAt tokens i, done, blocks, mode⟩ t =
      .ok ⟨lastAt tokens i, done', blocks', mode'⟩) :
    resume limit tokens done blocks mode i = resume limit tokens done' blocks' mode' (i + 1) := by
  unfold resume
  rw [h.drop_eq, h.lastAt_succ]
  exact Reader.Leads.step ht htake _

theorem At.resume_error {fault : Fault} (h : At tokens i t)
    (htake : Reader.take limit ⟨lastAt tokens i, done, blocks, mode⟩ t = .error fault) :
    resume limit tokens done blocks mode i = .error fault := by
  unfold resume
  rw [h.drop_eq, Reader.run, Reader.advance_error htake]

theorem At.resume_congr (h : At tokens i t)
    (htake : Reader.take limit ⟨lastAt tokens i, done, blocks, mode⟩ t =
      Reader.take limit ⟨lastAt tokens i, done', blocks', mode'⟩ t) :
    resume limit tokens done blocks mode i = resume limit tokens done' blocks' mode' i := by
  unfold resume
  rw [h.drop_eq]
  exact Reader.run_congr htake _

theorem reject_eq {α : Type} (t : Token) (expected : Expected) :
    (Reader.reject t expected : Except Fault α) = .error (refusal t expected) := by
  unfold Reader.reject refusal
  split
  · next hk => rw [if_pos hk]
  · next hk => rw [if_neg hk]

/-! ### Steps side by side -/

variable {α : Type} {answer : Except Fault Reader} {f : Unit → Reading α} {Q : α → Nat → Prop}

/-- Both take a token. -/
theorem ends_taking (hends : firstEnd tokens < tokens.length) (h : At tokens i t)
    (ht : t.kind ≠ .eof) (hanswer : answer = resume limit tokens done blocks mode i)
    (htake : Reader.take limit ⟨lastAt tokens i, done, blocks, mode⟩ t =
      .ok ⟨lastAt tokens i, done', blocks', mode'⟩)
    (hf : ∀ u, At tokens (i + 1) u → answer = resume limit tokens done' blocks' mode' (i + 1) →
      Ends tokens answer (f ()) (i + 1) Q) :
    Ends tokens answer (advance tokens >>= f) i Q :=
  ends_advance hends h ht fun u hu => hf u hu (hanswer.trans (h.resume_ok ht htake))

/-- Both go one level deeper. -/
theorem ends_opening {depth : Nat} (hends : firstEnd tokens < tokens.length) (h : At tokens i t)
    (ht : t.kind ≠ .eof) (hanswer : answer = resume limit tokens done blocks mode i)
    (htake : Reader.take limit ⟨lastAt tokens i, done, blocks, mode⟩ t =
      Reader.deepen limit t (depth + 1) ⟨lastAt tokens i, done', blocks', mode'⟩)
    (hf : ∀ u, At tokens (i + 1) u → answer = resume limit tokens done' blocks' mode' (i + 1) →
      Ends tokens answer (f ()) (i + 1) Q) :
    Ends tokens answer (descend tokens limit depth >>= f) i Q := by
  refine ends_descend hends h ht (fun hdepth u hu => hf u hu ?_) fun hdepth => ?_
  · exact hanswer.trans (h.resume_ok ht (htake.trans (if_pos hdepth)))
  · exact hanswer.trans (h.resume_error (htake.trans (if_neg hdepth)))

/-- Both refuse a token. -/
theorem ends_refusing {expected : Expected} (h : At tokens i t)
    (hanswer : answer = resume limit tokens done blocks mode i)
    (htake : Reader.take limit ⟨lastAt tokens i, done, blocks, mode⟩ t = Reader.reject t expected) :
    Ends tokens answer (refuse tokens expected : Reading α) i Q :=
  ends_refuse h (hanswer.trans (h.resume_error (htake.trans (reject_eq t expected))))

/-- Both ask for a token of one kind. -/
theorem ends_expecting {k : Kind} {expected : Expected} (hends : firstEnd tokens < tokens.length)
    (h : At tokens i t) (hk : k ≠ .eof) (hanswer : answer = resume limit tokens done blocks mode i)
    (htake : Reader.take limit ⟨lastAt tokens i, done, blocks, mode⟩ t =
      if t.kind = k then .ok ⟨lastAt tokens i, done', blocks', mode'⟩ else Reader.reject t expected)
    (hf : ∀ u, At tokens (i + 1) u → answer = resume limit tokens done' blocks' mode' (i + 1) →
      Ends tokens answer (f ()) (i + 1) Q) :
    Ends tokens answer (expect tokens k expected >>= f) i Q := by
  refine ends_expect hends h hk (fun ht u hu => hf u hu ?_) fun ht => ?_
  · exact hanswer.trans (h.resume_ok (ht ▸ hk) (htake.trans (if_pos ht)))
  · exact hanswer.trans (h.resume_error ((htake.trans (if_neg ht)).trans (reject_eq t expected)))

/-- Both ask for a name. -/
theorem ends_naming {expected : Expected} {mode' : String → Mode} {f : String → Reading α}
    (hends : firstEnd tokens < tokens.length) (h : At tokens i t)
    (hanswer : answer = resume limit tokens done blocks mode i)
    (htake : Reader.take limit ⟨lastAt tokens i, done, blocks, mode⟩ t =
      match t.kind with
      | .ident name => .ok ⟨lastAt tokens i, done, blocks, mode' name⟩
      | _ => Reader.reject t expected)
    (hf : ∀ name u, At tokens (i + 1) u →
      answer = resume limit tokens done blocks (mode' name) (i + 1) →
      Ends tokens answer (f name) (i + 1) Q) :
    Ends tokens answer (expectName tokens expected >>= f) i Q := by
  refine ends_expectName hends h (fun name hk u hu => hf name u hu ?_) fun hk => ?_
  · rw [hk] at htake
    exact hanswer.trans (h.resume_ok (by simp [hk]) htake)
  · refine hanswer.trans (h.resume_error (htake.trans ?_))
    split
    · next name hname => exact absurd hname (hk name)
    · exact reject_eq t expected

end

/-! ## Phrases -/

/-- Would a closing parenthesis end the phrase here? -/
def mayEnd (p : Phrase) : Bool :=
  match p.pending, p.brackets with
  | [], (.group _, _) :: _ | [], (.tuple _ _, _) :: _ | [], (.call _ _, _) :: _ => true
  | _, _ => false

/-- An operand has to come: no closing parenthesis ends the phrase. -/
def Due (tokens : List Token) (p : Phrase) (i : Nat) : Prop :=
  mayEnd p = true → ∀ t, At tokens i t → t.kind ≠ .symbol .closeParen

/-- No call and no index follows. -/
def Settled (tokens : List Token) (i : Nat) : Prop :=
  ∀ t, At tokens i t → t.kind.opensPostfix = false

/-- No operator follows that binds as tightly as `min`. -/
def Loose (tokens : List Token) (min i : Nat) : Prop :=
  ∀ t op, At tokens i t → t.kind.binary? = some op → op.precedence < min

section

variable {tokens : List Token} {i : Nat} {t : Token}

theorem At.unique {u : Token} (hu : At tokens i u) (ht : At tokens i t) : t = u :=
  Option.some_inj.1 (ht.token.symm.trans hu.token)

theorem At.loose_of_none {min : Nat} (ht : At tokens i t) (h : t.kind.binary? = none) :
    Loose tokens min i := by
  intro u op hu hop
  rw [ht.unique hu, h] at hop
  cases hop

theorem At.loose_of_lt {min : Nat} {op : BinaryOperator} (ht : At tokens i t)
    (h : t.kind.binary? = some op) (hop : op.precedence < min) : Loose tokens min i := by
  intro u op' hu hop'
  rw [ht.unique hu, h] at hop'
  cases hop'
  exact hop

theorem At.settled {i : Nat} (ht : At tokens i t) (hparen : t.kind ≠ .symbol .openParen)
    (hbracket : t.kind ≠ .symbol .openBracket) : Settled tokens i := by
  intro u hu
  rw [ht.unique hu]
  cases hk : t.kind with
  | symbol s => simp_all [Kind.opensPostfix]
  | _ => rfl

theorem due_of_mayEnd {p : Phrase} (hp : mayEnd p = false) : Due tokens p i := by
  intro h
  rw [hp] at h
  cases h

end

/-- A bracket with a list of expressions in it. -/
inductive Listing where
  | tuple (start : Span)
  | call (callee : Node)

namespace Listing

/-- The bracket while it is open, with the items so far, newest first. -/
def bracket : Listing → List Node → Bracket
  | .tuple start, items => .tuple start items
  | .call callee, items => .call callee items

/-- The phrase when it is closed. -/
def close : Listing → List Node → Span → Node
  | .tuple start, items, stop => .tuple (Span.between (some start) (some stop)) items
  | .call callee, items, stop => .call (Span.between callee.span (some stop)) callee items

/-- What may come after an item. -/
def expected : Listing → Expected
  | .tuple _ => .tupleEnd
  | .call _ => .argumentEnd

end Listing

/-! ## Functions side by side with the reader -/

section

variable (limit : Nat) (tokens : List Token) (done : List Node) (blocks : List OpenBlock) (i : Nat)

/-- Begun at `i`, an operand with its signs and suffixes is read as by the reader. -/
def UnaryAt : Prop := ∀ (p : Phrase) (answer : Except Fault Reader), Due tokens p i →
  answer = resume limit tokens done blocks (.operand p) i →
  Ends tokens answer (unary ⟨limit, tokens⟩ (blocks.length + p.levels)) i fun e j =>
    i < j ∧ Settled tokens j ∧ answer = resume limit tokens done blocks (.complete p e) j

/-- Begun at `i`, an expression is read as by the reader. All operators that wait for it are looser. -/
def BinaryAt : Prop := ∀ (p : Phrase) (answer : Except Fault Reader) (min : Nat), Due tokens p i →
  (∀ w ∈ p.pending.head?, w.strength < min) →
  answer = resume limit tokens done blocks (.operand p) i →
  Ends tokens answer (binary ⟨limit, tokens⟩ min (blocks.length + p.levels)) i fun e j =>
    i < j ∧ Settled tokens j ∧ Loose tokens min j ∧
      answer = resume limit tokens done blocks (.complete p e) j

/-- Begun at `i`, the suffixes of an operand are read as by the reader. -/
def SuffixesAt : Prop := ∀ (p : Phrase) (answer : Except Fault Reader) (e : Node),
  answer = resume limit tokens done blocks (.complete p e) i →
  Ends tokens answer (suffixes ⟨limit, tokens⟩ (blocks.length + p.levels) e) i fun e' j =>
    Settled tokens j ∧ answer = resume limit tokens done blocks (.complete p e') j

/-- Begun at `i`, the operators after an operand are read as by the reader. -/
def OperationsAt : Prop := ∀ (p : Phrase) (answer : Except Fault Reader) (min : Nat) (left : Node),
  Settled tokens i → (∀ w ∈ p.pending.head?, w.strength < min) →
  answer = resume limit tokens done blocks (.complete p left) i →
  Ends tokens answer (operations ⟨limit, tokens⟩ min (blocks.length + p.levels) left) i fun e j =>
    Settled tokens j ∧ Loose tokens min j ∧
      answer = resume limit tokens done blocks (.complete p e) j

/-- Begun at `i`, the rest of a list of expressions is read as by the reader. -/
def ElementsAt : Prop := ∀ (p : Phrase) (answer : Except Fault Reader) (l : Listing)
  (items : List Node),
  answer = resume limit tokens done blocks (.operand (p.enter (l.bracket items))) i →
  Ends tokens answer (elements ⟨limit, tokens⟩ l.expected (blocks.length + p.levels + 1)) i fun es j =>
    i < j ∧ answer = resume limit tokens done blocks
      (.complete p (l.close (items.reverse ++ es) (lastAt tokens j))) j

/-- Begun at `i`, the functions for expressions do what the reader does. -/
structure Expressions : Prop where
  unary : UnaryAt limit tokens done blocks i
  binary : BinaryAt limit tokens done blocks i
  suffixes : SuffixesAt limit tokens done blocks i
  operations : OperationsAt limit tokens done blocks i
  elements : ElementsAt limit tokens done blocks i

end

/-! ## What single tokens do -/

section

variable {limit : Nat} {tokens : List Token} {r : Reader} {p : Phrase} {t : Token}

theorem levels_enter (blocks : List OpenBlock) (p : Phrase) (b : Bracket) :
    blocks.length + (p.enter b).levels = blocks.length + p.levels + 1 := by
  rw [Reader.Phrase.levels_enter, Nat.add_assoc]

theorem levels_pend_unary (blocks : List OpenBlock) (p : Phrase) (place : Span) (s : Symbol) :
    blocks.length + (Phrase.mk (.unary place s :: p.pending) p.brackets p.head).levels =
      blocks.length + p.levels + 1 := by
  rw [Reader.Phrase.levels_unary, Nat.add_assoc]

theorem levels_pend_binary (p : Phrase) (left : Node) (op : BinaryOperator) :
    (Phrase.mk (.binary left op :: p.pending) p.brackets p.head).levels = p.levels := by
  unfold Reader.Phrase.levels
  rw [List.countP_cons_of_neg Bool.false_ne_true]

theorem precedence_pos (op : BinaryOperator) : 0 < op.precedence := by
  cases op <;> decide

/-- No binary operator holds an operand as tightly as a sign does. -/
theorem loose_unary (i : Nat) : Loose tokens 7 i := by
  intro t op _ _
  cases op <;> decide

theorem Loose.binary? {i : Nat} (h : Loose tokens 1 i) (ht : At tokens i t) :
    t.kind.binary? = none := by
  cases hop : t.kind.binary? with
  | none => rfl
  | some op =>
    have hlow := h t op ht hop
    have hpos := precedence_pos op
    omega

/-- After an expression that nothing goes on with, a token ends it. -/
theorem take_of_loose {i : Nat} {last : Span} {done : List Node} {blocks : List OpenBlock}
    (hsettled : Settled tokens i) (hloose : Loose tokens 1 i) (ht : At tokens i t)
    (hp : p.pending = []) (e : Node) :
    Reader.take limit ⟨last, done, blocks, .complete p e⟩ t =
      Reader.settle limit ⟨last, done, blocks, .complete p e⟩ p e t := by
  dsimp only [Reader.take]
  rw [Reader.complete_of_closing (hloose.binary? ht) (hsettled t ht), hp]
  rfl

/-- A waiting operator takes its operand when a token comes that it holds out against. -/
theorem complete_close {w : Pending} (hopens : t.kind.opensPostfix = false)
    (hop : ∀ op, t.kind.binary? = some op → op.precedence ≤ w.strength) (e : Node) :
    r.complete limit ⟨w :: p.pending, p.brackets, p.head⟩ e t = r.complete limit p (w.close e) t := by
  cases hbinary : t.kind.binary? with
  | some op =>
    rw [Reader.complete_of_binary? hbinary, Reader.complete_of_binary? hbinary, Reader.reduce,
      if_pos (hop op hbinary)]
  | none =>
    rw [Reader.complete_of_closing hbinary hopens, Reader.complete_of_closing hbinary hopens,
      Reader.reduce, if_pos (Nat.zero_le _)]
    rfl

/-- Where an operand is due, a closing parenthesis is refused. -/
theorem operand_closeParen (hp : mayEnd p = false) (ht : t.kind = .symbol .closeParen) :
    r.operand limit p t = Reader.reject t .expression := by
  obtain ⟨pending, brackets, head⟩ := p
  unfold Reader.operand
  rw [ht]
  cases pending with
  | cons w ws => rfl
  | nil =>
    cases brackets with
    | nil => rfl
    | cons b rest =>
      obtain ⟨b, outer⟩ := b
      cases b with
      | index object => rfl
      | _ => cases hp

/-- A closing parenthesis ends a list of expressions, also after a comma. -/
theorem operand_listing (l : Listing) (items : List Node) (ht : t.kind = .symbol .closeParen) :
    r.operand limit (p.enter (l.bracket items)) t =
      .ok (r.goto (.complete p (l.close items.reverse t.span))) := by
  unfold Reader.operand
  rw [ht]
  cases l <;> rfl

theorem of_sign? {k : Kind} {s : Symbol} (h : sign? k = some s) :
    k = .symbol s ∧ s.isUnary = true := by
  cases k with
  | symbol s' =>
    dsimp only [sign?] at h
    split_ifs at h with hunary
    cases h
    exact ⟨rfl, hunary⟩
  | _ => cases h

theorem operand_ident {name : String} (ht : t.kind = .ident name) :
    r.operand limit p t = .ok (r.goto (.name p t.span name)) := by
  unfold Reader.operand
  rw [ht]

/-- A literal is an operand. -/
theorem operand_literal {v : Value} (ht : literal? t.kind = some v) :
    r.operand limit p t = .ok (r.goto (.complete p (.literal (some t.span) v))) := by
  unfold Reader.operand
  cases hk : t.kind with
  | int n | str s | bool b =>
    rw [hk] at ht
    cases ht
    rfl
  | _ =>
    rw [hk] at ht
    cases ht

/-- A parenthesis opens a group. -/
theorem operand_openParen (ht : t.kind = .symbol .openParen) :
    r.operand limit p t = Reader.deepen limit t (r.blocks.length + p.levels + 1)
      (r.goto (.operand (p.enter (.group t.span)))) := by
  rw [← levels_enter r.blocks p (.group t.span)]
  unfold Reader.operand
  rw [ht]

/-- A group that is closed at once is the tuple without elements. -/
theorem operand_group {start : Span} (ht : t.kind = .symbol .closeParen) :
    r.operand limit (p.enter (.group start)) t =
      .ok (r.goto (.complete p (.tuple (Span.between (some start) (some t.span)) []))) := by
  unfold Reader.operand
  rw [ht]
  rfl

/-- A sign waits for an operand. -/
theorem operand_sign {s : Symbol} (hs : sign? t.kind = some s) :
    r.operand limit p t = Reader.deepen limit t (r.blocks.length + p.levels + 1)
      (r.goto (.operand ⟨.unary t.span s :: p.pending, p.brackets, p.head⟩)) := by
  obtain ⟨hk, hunary⟩ := of_sign? hs
  rw [← levels_pend_unary r.blocks p t.span s]
  unfold Reader.operand
  rw [hk]
  cases s with
  | plus | minus | bang => rfl
  | _ => cases hunary

/-- Where an operand is due, a token that begins none is refused. -/
theorem operand_refuses (hsign : sign? t.kind = none) (hliteral : literal? t.kind = none)
    (hident : ∀ name, t.kind ≠ .ident name) (hopen : t.kind ≠ .symbol .openParen)
    (hdue : mayEnd p = true → t.kind ≠ .symbol .closeParen) :
    r.operand limit p t = Reader.reject t .expression := by
  by_cases hclose : t.kind = .symbol .closeParen
  · exact operand_closeParen (by simpa [hclose] using hdue) hclose
  · unfold Reader.operand
    split
    case h_4 name hk => exact absurd hk (hident name)
    case h_5 hk => exact absurd hk hopen
    case h_6 hk => exact absurd hk hclose
    case h_7 s _ _ hk =>
      rw [hk] at hsign
      exact if_neg fun hunary => by simp [sign?, hunary] at hsign
    case h_8 => rfl
    all_goals next hk => rw [hk] at hliteral; cases hliteral

theorem afterName_doubleColon {place : Span} {name : String} (ht : t.kind = .symbol .doubleColon) :
    r.afterName limit p place name t = .ok (r.goto (.pathSymbol p place name)) := by
  unfold Reader.afterName
  rw [ht]

theorem afterName_of_ne {place : Span} {name : String} (ht : t.kind ≠ .symbol .doubleColon) :
    r.afterName limit p place name t = r.complete limit p (.name (some place) name) t := by
  unfold Reader.afterName
  split
  · next hk => exact absurd hk ht
  · rfl

/-- A path goes on with a call. -/
theorem take_pathCall {last place : Span} {done : List Node} {blocks : List OpenBlock}
    {module symbol : String} (ht : t.kind = .symbol .openParen) :
    Reader.take limit ⟨last, done, blocks, .pathCall p place module symbol⟩ t =
      Reader.take limit ⟨last, done, blocks, .complete p (.path (some place) module symbol)⟩ t := by
  dsimp only [Reader.take]
  split
  · rfl
  · next hk => exact absurd ht hk

theorem take_pathCall_of_ne {last place : Span} {done : List Node} {blocks : List OpenBlock}
    {module symbol : String} (ht : t.kind ≠ .symbol .openParen) :
    Reader.take limit ⟨last, done, blocks, .pathCall p place module symbol⟩ t =
      Reader.reject t (.callOf module symbol) := by
  dsimp only [Reader.take]
  split
  · next hk => exact absurd hk ht
  · rfl

/-- An operand that may be called goes on with a call. -/
theorem complete_openParen {e : Node} (ht : t.kind = .symbol .openParen)
    (he : Reader.isCallable e = true) :
    r.complete limit p e t = Reader.deepen limit t (r.blocks.length + p.levels + 1)
      (r.goto (.operand (p.enter ((Listing.call e).bracket [])))) := by
  rw [← levels_enter r.blocks p ((Listing.call e).bracket [])]
  unfold Reader.complete
  rw [ht]
  exact if_pos he

theorem complete_uncallable {e : Node} (ht : t.kind = .symbol .openParen)
    (he : ¬ Reader.isCallable e = true) :
    r.complete limit p e t = .error ⟨.invalidCallee,
      (Span.between e.span (some t.span)).getD t.span, some t.span.start.line⟩ := by
  unfold Reader.complete
  rw [ht]
  exact if_neg he

theorem complete_openBracket {e : Node} (ht : t.kind = .symbol .openBracket) :
    r.complete limit p e t = Reader.deepen limit t (r.blocks.length + p.levels + 1)
      (r.goto (.operand (p.enter (.index e)))) := by
  rw [← levels_enter r.blocks p (.index e)]
  unfold Reader.complete
  rw [ht]

theorem settle_index {object e : Node} :
    r.settle limit (p.enter (.index object)) e t =
      if t.kind = .symbol .closeBracket then
        .ok (r.goto (.complete p (.index (Span.between object.span (some t.span)) object e)))
      else Reader.reject t .closeBracket := by
  dsimp only [Reader.settle, Phrase.enter]
  split
  · next hk => rw [if_pos hk]
  · next hk => rw [if_neg hk]

theorem settle_group_closeParen {start : Span} {e : Node} (ht : t.kind = .symbol .closeParen) :
    r.settle limit (p.enter (.group start)) e t = .ok (r.goto (.complete p e)) := by
  dsimp only [Reader.settle, Phrase.enter]
  rw [ht]

theorem settle_group {start : Span} {e : Node} (ht : t.kind ≠ .symbol .closeParen) :
    r.settle limit (p.enter (.group start)) e t =
      if t.kind = .symbol .comma then
        .ok (r.goto (.operand (p.enter ((Listing.tuple start).bracket [e]))))
      else Reader.reject t .tupleEnd := by
  dsimp only [Reader.settle, Phrase.enter]
  split
  · next hk => exact absurd hk ht
  · next hk => rw [if_pos hk]; rfl
  · next hk => rw [if_neg hk]

theorem settle_listing_comma (l : Listing) (items : List Node) (e : Node)
    (ht : t.kind = .symbol .comma) :
    r.settle limit (p.enter (l.bracket items)) e t =
      .ok (r.goto (.operand (p.enter (l.bracket (e :: items))))) := by
  cases l <;> (dsimp only [Reader.settle, Phrase.enter, Listing.bracket]; rw [ht])

theorem settle_listing (l : Listing) (items : List Node) (e : Node)
    (ht : t.kind ≠ .symbol .comma) :
    r.settle limit (p.enter (l.bracket items)) e t =
      if t.kind = .symbol .closeParen then
        .ok (r.goto (.complete p (l.close (e :: items).reverse t.span)))
      else Reader.reject t l.expected := by
  cases l <;>
  · dsimp only [Reader.settle, Phrase.enter, Listing.bracket]
    split
    · next hk => rw [if_pos hk]; rfl
    · next hk => exact absurd hk ht
    · next hk _ => rw [if_neg hk]; rfl

end

/-! ## The functions, from the tokens that are left -/

section

variable {limit : Nat} {tokens : List Token} {done : List Node} {blocks : List OpenBlock} {i : Nat}
  (hends : firstEnd tokens < tokens.length)

include hends

/-- Where nothing goes on with it, an expression is the operand of the operator that waits for it. -/
theorem resume_close {p : Phrase} {w : Pending} (hi : i ≤ firstEnd tokens)
    (hsettled : Settled tokens i) (hloose : Loose tokens (w.strength + 1) i) (e : Node) :
    resume limit tokens done blocks (.complete ⟨w :: p.pending, p.brackets, p.head⟩ e) i =
      resume limit tokens done blocks (.complete p (w.close e)) i := by
  obtain ⟨t, ht⟩ := exists_at hends hi
  refine ht.resume_congr (complete_close (r := ⟨lastAt tokens i, done, blocks, .statement⟩)
    (hsettled t ht) (fun op hop => ?_) e)
  exact Nat.le_of_lt_succ (hloose t op ht hop)

/-- An expression inside of a bracket, up to the token that settles it. -/
theorem BinaryAt.inside {α : Type} {p : Phrase} {b : Bracket} {answer : Except Fault Reader}
    {f : Node → Reading α} {Q : α → Nat → Prop} (hbinary : BinaryAt limit tokens done blocks i)
    (hdue : Due tokens (p.enter b) i)
    (hanswer : answer = resume limit tokens done blocks (.operand (p.enter b)) i)
    (hf : ∀ e j u, i < j → At tokens j u →
      answer = resume limit tokens done blocks (.complete (p.enter b) e) j →
      Reader.take limit ⟨lastAt tokens j, done, blocks, .complete (p.enter b) e⟩ u =
        Reader.settle limit ⟨lastAt tokens j, done, blocks, .complete (p.enter b) e⟩ (p.enter b) e u →
      Ends tokens answer (f e) j Q) :
    Ends tokens answer (binary ⟨limit, tokens⟩ 1 (blocks.length + p.levels + 1) >>= f) i Q := by
  have he := hbinary (p.enter b) answer 1 hdue (by rintro w ⟨⟩) hanswer
  rw [levels_enter] at he
  refine he.bind ?_
  rintro e j hij hj ⟨hlt, hsettled, hloose, hanswer'⟩
  obtain ⟨u, hu⟩ := exists_at hends hj
  exact hf e j u hlt hu hanswer' (take_of_loose hsettled hloose hu rfl e)

variable (later : ∀ j, i < j → j ≤ firstEnd tokens → Expressions limit tokens done blocks j)

include later

theorem operations_at (hi : i ≤ firstEnd tokens) : OperationsAt limit tokens done blocks i := by
  intro p answer min left hsettled hpending hanswer
  obtain ⟨t, ht⟩ := exists_at hends hi
  rw [operations]
  refine ends_current ht ?_
  cases hop : t.kind.binary? with
  | none => exact ends_pure hi ⟨hsettled, ht.loose_of_none hop, hanswer⟩
  | some op =>
    dsimp only
    split_ifs with hmin
    · have hk : t.kind ≠ .eof := by
        intro hk
        rw [hk] at hop
        cases hop
      have htake : Reader.take limit ⟨lastAt tokens i, done, blocks, .complete p left⟩ t =
          .ok ⟨lastAt tokens i, done, blocks,
            .operand ⟨.binary left op :: p.pending, p.brackets, p.head⟩⟩ := by
        refine (Reader.complete_of_binary? hop limit _ p left).trans ?_
        rw [Reader.reduce_of_lt fun w hw => Nat.lt_of_lt_of_le (hpending w hw) hmin]
        rfl
      refine ends_taking hends ht hk hanswer htake fun u hu hanswer' => ?_
      have hright := (later (i + 1) (Nat.lt_succ_self i) hu.bound).binary
        ⟨.binary left op :: p.pending, p.brackets, p.head⟩ answer (op.precedence + 1)
        (due_of_mayEnd rfl) (by rintro w ⟨⟩; exact Nat.lt_succ_self _) hanswer'
      rw [levels_pend_binary] at hright
      refine hright.bind ?_
      rintro right j hij hj ⟨hlt, hsettled', hloose, hanswer''⟩
      -- what follows binds no tighter than `op`, so the reader closes `op` with it too
      have hclosed := hanswer''.trans (resume_close (w := .binary left op) hends hj hsettled'
        hloose right)
      exact (later j (by omega) hj).operations p answer min _ hsettled' hpending hclosed
    · exact ends_pure hi ⟨hsettled, ht.loose_of_lt hop (Nat.lt_of_not_le hmin), hanswer⟩

omit hends in
theorem binary_at (hunary : UnaryAt limit tokens done blocks i) :
    BinaryAt limit tokens done blocks i := by
  intro p answer min hdue hpending hanswer
  rw [binary]
  refine (hunary p answer hdue hanswer).bind ?_
  rintro e j hij hj ⟨hlt, hsettled, hanswer'⟩
  exact ((later j hlt hj).operations p answer min e hsettled hpending hanswer').past hlt

theorem elements_at (hi : i ≤ firstEnd tokens) (hbinary : BinaryAt limit tokens done blocks i) :
    ElementsAt limit tokens done blocks i := by
  intro p answer l items hanswer
  obtain ⟨t, ht⟩ := exists_at hends hi
  rw [elements]
  refine ends_accept hends ht (by decide) (fun hk u hu => ?_) fun hk => ?_
  · -- the list ends here
    rw [if_pos rfl]
    refine ends_pure hu.bound ⟨Nat.lt_succ_self i, ?_⟩
    rw [List.append_nil, ht.lastAt_succ]
    exact hanswer.trans (ht.resume_ok (by simp [hk]) (operand_listing l items hk))
  · rw [if_neg Bool.false_ne_true]
    have hdue : Due tokens (p.enter (l.bracket items)) i := fun _ u hu => hu.unique ht ▸ hk
    refine hbinary.inside hends hdue hanswer fun e j u hlt hu hanswer' htake => ?_
    refine ends_accept hends hu (by decide) (fun hcomma v hv => ?_) fun hcomma => ?_
    · rw [if_pos rfl]
      have hanswer'' := hanswer'.trans (hu.resume_ok (by simp [hcomma])
        (htake.trans (settle_listing_comma l items e hcomma)))
      refine ((later (j + 1) (by omega) hv.bound).elements p answer l (e :: items) hanswer'').bind ?_
      rintro es k hjk hk ⟨hlt', hanswer₃⟩
      refine ends_pure hk ⟨by omega, ?_⟩
      rw [List.reverse_cons, List.append_assoc, List.singleton_append] at hanswer₃
      exact hanswer₃
    · rw [if_neg Bool.false_ne_true]
      refine ends_expecting hends hu (by decide) hanswer'
        (htake.trans (settle_listing l items e hcomma)) fun v hv hanswer'' => ?_
      refine ends_pure hv.bound ⟨by omega, ?_⟩
      rw [hu.lastAt_succ]
      rw [List.reverse_cons] at hanswer''
      exact hanswer''

theorem suffixes_at (hi : i ≤ firstEnd tokens) : SuffixesAt limit tokens done blocks i := by
  intro p answer e hanswer
  obtain ⟨t, ht⟩ := exists_at hends hi
  rw [suffixes]
  refine ends_current ht ?_
  split
  · next hk =>
    split_ifs with hcallable
    · refine ends_opening hends ht (by simp [hk]) hanswer (complete_openParen hk hcallable)
        fun u hu hanswer' => ?_
      refine ((later (i + 1) (Nat.lt_succ_self i) hu.bound).elements p answer (.call e) []
        hanswer').bind ?_
      rintro es j hij hj ⟨hlt, hanswer''⟩
      refine ends_spanFrom hends hj ?_
      exact (later j (by omega) hj).suffixes p answer _ hanswer''
    · exact ends_throw (hanswer.trans (ht.resume_error (complete_uncallable hk hcallable)))
  · next hk =>
    refine ends_opening hends ht (by simp [hk]) hanswer (complete_openBracket hk)
      fun u hu hanswer' => ?_
    have hbinary := (later (i + 1) (Nat.lt_succ_self i) hu.bound).binary
    refine hbinary.inside hends (due_of_mayEnd rfl) hanswer'
      fun position j v hlt hv hanswer'' htake => ?_
    refine ends_expecting hends hv (by decide) hanswer'' (htake.trans settle_index)
      fun w hw hanswer₃ => ?_
    refine ends_spanFrom hends hw.bound ?_
    rw [hv.lastAt_succ]
    exact (later (j + 1) (by omega) hw.bound).suffixes p answer _ hanswer₃
  · next hparen hbracket => exact ends_pure hi ⟨ht.settled hparen hbracket, hanswer⟩

theorem group_at {p : Phrase} {answer : Except Fault Reader} {start : Span}
    (hi : i ≤ firstEnd tokens) (hbinary : BinaryAt limit tokens done blocks i)
    (hanswer : answer = resume limit tokens done blocks (.operand (p.enter (.group start))) i) :
    Ends tokens answer (group ⟨limit, tokens⟩ (blocks.length + p.levels + 1) start) i fun e j =>
      i < j ∧ answer = resume limit tokens done blocks (.complete p e) j := by
  obtain ⟨t, ht⟩ := exists_at hends hi
  rw [group]
  refine ends_accept hends ht (by decide) (fun hk u hu => ?_) fun hk => ?_
  · -- the tuple without elements
    rw [if_pos rfl]
    refine ends_spanFrom hends hu.bound (ends_pure hu.bound ⟨Nat.lt_succ_self i, ?_⟩)
    rw [ht.lastAt_succ]
    exact hanswer.trans (ht.resume_ok (by simp [hk]) (operand_group hk))
  · rw [if_neg Bool.false_ne_true]
    have hdue : Due tokens (p.enter (.group start)) i := fun _ u hu => hu.unique ht ▸ hk
    refine hbinary.inside hends hdue hanswer fun e j u hlt hu hanswer' htake => ?_
    refine ends_accept hends hu (by decide) (fun hclose v hv => ?_) fun hclose => ?_
    · rw [if_pos rfl]
      refine ends_pure hv.bound ⟨by omega, ?_⟩
      exact hanswer'.trans (hu.resume_ok (by simp [hclose])
        (htake.trans (settle_group_closeParen hclose)))
    · rw [if_neg Bool.false_ne_true]
      refine ends_expecting hends hu (by decide) hanswer' (htake.trans (settle_group hclose))
        fun v hv hanswer'' => ?_
      refine ((later (j + 1) (by omega) hv.bound).elements p answer (.tuple start) [e]
        hanswer'').bind ?_
      rintro es k hjk hk ⟨hlt', hanswer₃⟩
      exact ends_spanFrom hends hk (ends_pure hk ⟨by omega, hanswer₃⟩)

omit later in
theorem nameOrPath_at {p : Phrase} {answer : Except Fault Reader} {t : Token} {place : Span}
    {name : String} (ht : At tokens i t)
    (hanswer : answer = resume limit tokens done blocks (.name p place name) i) :
    Ends tokens answer (nameOrPath tokens place name) i fun e j =>
      answer = resume limit tokens done blocks (.complete p e) j := by
  unfold nameOrPath
  refine ends_accept hends ht (by decide) (fun hk u hu => ?_) fun hk => ?_
  · rw [if_pos rfl]
    have hpath := hanswer.trans (ht.resume_ok (by simp [hk]) (afterName_doubleColon hk))
    refine ends_naming hends hu hpath rfl fun symbol v hv hanswer' => ?_
    refine ends_current hv ?_
    split_ifs with hopen
    · refine ends_spanFrom hends hv.bound (ends_pure hv.bound (hanswer'.trans ?_))
      rw [hu.lastAt_succ]
      exact hv.resume_congr (take_pathCall hopen)
    · exact ends_refusing hv hanswer' (take_pathCall_of_ne hopen)
  · rw [if_neg Bool.false_ne_true]
    exact ends_pure ht.bound (hanswer.trans (ht.resume_congr (afterName_of_ne hk)))

theorem primary_at {p : Phrase} {answer : Except Fault Reader} {t : Token} (ht : At tokens i t)
    (hsign : sign? t.kind = none) (hdue : Due tokens p i)
    (hanswer : answer = resume limit tokens done blocks (.operand p) i) :
    Ends tokens answer (primary ⟨limit, tokens⟩ (blocks.length + p.levels)) i fun e j =>
      i < j ∧ answer = resume limit tokens done blocks (.complete p e) j := by
  rw [primary]
  refine ends_current ht ?_
  cases hv : literal? t.kind with
  | some v =>
    have hk : t.kind ≠ .eof := by
      intro hk
      rw [hk] at hv
      cases hv
    refine ends_taking hends ht hk hanswer (operand_literal hv) fun u hu hanswer' => ?_
    exact ends_pure hu.bound ⟨Nat.lt_succ_self i, hanswer'⟩
  | none =>
    dsimp only
    split
    · next name hk =>
      have htake : Reader.take limit ⟨lastAt tokens i, done, blocks, .operand p⟩ t =
          .ok ⟨lastAt tokens i, done, blocks, .name p t.span name⟩ := operand_ident hk
      refine ends_taking hends ht (by simp [hk]) hanswer htake fun u hu hanswer' => ?_
      exact (nameOrPath_at hends hu hanswer').past (Nat.lt_succ_self i)
    · next hk =>
      refine ends_opening hends ht (by simp [hk]) hanswer (operand_openParen hk)
        fun u hu hanswer' => ?_
      have hbinary := (later (i + 1) (Nat.lt_succ_self i) hu.bound).binary
      exact (group_at hends (fun j hij => later j (by omega)) hu.bound hbinary hanswer').since
        (Nat.le_succ i)
    · next hident hopen =>
      exact ends_refusing ht hanswer (operand_refuses hsign hv hident hopen fun hend => hdue hend t ht)

theorem unary_at (hi : i ≤ firstEnd tokens) : UnaryAt limit tokens done blocks i := by
  intro p answer hdue hanswer
  obtain ⟨t, ht⟩ := exists_at hends hi
  rw [unary]
  refine ends_current ht ?_
  cases hs : sign? t.kind with
  | some s =>
    refine ends_opening hends ht ?_ hanswer (operand_sign hs) fun u hu hanswer' => ?_
    · simp [(of_sign? hs).1]
    have hoperand := (later (i + 1) (Nat.lt_succ_self i) hu.bound).unary
      ⟨.unary t.span s :: p.pending, p.brackets, p.head⟩ answer (due_of_mayEnd rfl) hanswer'
    rw [levels_pend_unary] at hoperand
    refine hoperand.bind ?_
    rintro e j hij hj ⟨hlt, hsettled, hanswer''⟩
    refine ends_pure hj ⟨by omega, hsettled, hanswer''.trans ?_⟩
    exact resume_close (w := .unary t.span s) hends hj hsettled (loose_unary j) e
  | none =>
    refine (primary_at hends later ht hs hdue hanswer).bind ?_
    rintro e j hij hj ⟨hlt, hanswer'⟩
    exact ((later j hlt hj).suffixes p answer e hanswer').past hlt

end

/-- Begun at any place up to the first end of input, the functions for expressions do what the reader
does. -/
theorem expressions_at {limit : Nat} {tokens : List Token} {done : List Node}
    {blocks : List OpenBlock} (hends : firstEnd tokens < tokens.length) (i : Nat)
    (hi : i ≤ firstEnd tokens) : Expressions limit tokens done blocks i := by
  have later : ∀ j, i < j → j ≤ firstEnd tokens → Expressions limit tokens done blocks j :=
    fun j hij hj => expressions_at hends j hj
  have hunary := unary_at hends later hi
  have hbinary := binary_at later hunary
  exact ⟨hunary, hbinary, suffixes_at hends later hi, operations_at hends later hi,
    elements_at hends later hi hbinary⟩
termination_by firstEnd tokens - i

end Scriptlet.Descent
