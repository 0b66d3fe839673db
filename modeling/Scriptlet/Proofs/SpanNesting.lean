import Mathlib.Logic.Relation
import Scriptlet.Proofs.Positions
import Scriptlet.Proofs.Reading

/-!
# Nested spans

The span of a node runs over whole tokens, the spans of its children lie in it, and they come one after
another. The reader computes spans in several ways, so the argument is about ranges of offsets: each thing
that the reader holds has a range, and these ranges follow each other in the order of the source text.

* `Ranged r`: `r lo hi` says that something lies between two offsets, so it may be widened. Such relations are
  put one after another by composition, and in lists by `InTurn`.
* `Node.Placed ts n lo hi`: between two offsets, `n` and all nodes below it run over tokens of `ts` and are
  nested.
* `Reader.Placed ts r base here`: all that the reader holds, from the first token to the last one.
* `take_lays`: what one token does to it; `Stands.run`: what all tokens do.
* `spansNest_of_ofSourceWithin`: the trees of source texts.
-/

namespace Scriptlet

open Relation (Comp)

/-! ## Ranges -/

/-- Something lies between two offsets, and so it does between any offsets around them. -/
structure Ranged (r : Nat → Nat → Prop) : Prop where
  le : ∀ {lo hi : Nat}, r lo hi → lo ≤ hi
  widen : ∀ {lo hi lo' hi' : Nat}, r lo hi → lo' ≤ lo → hi ≤ hi' → r lo' hi'

theorem Ranged.widen_left {r : Nat → Nat → Prop} (hr : Ranged r) {lo hi lo' : Nat} (h : r lo hi)
    (hlo : lo' ≤ lo) : r lo' hi :=
  hr.widen h hlo (Nat.le_refl hi)

theorem Ranged.widen_right {r : Nat → Nat → Prop} (hr : Ranged r) {lo hi hi' : Nat} (h : r lo hi)
    (hhi : hi ≤ hi') : r lo hi' :=
  hr.widen h (Nat.le_refl lo) hhi

theorem Ranged.comp {r q : Nat → Nat → Prop} (hr : Ranged r) (hq : Ranged q) : Ranged (Comp r q) where
  le := by
    rintro lo hi ⟨mid, hleft, hright⟩
    exact (hr.le hleft).trans (hq.le hright)
  widen := by
    rintro lo hi lo' hi' ⟨mid, hleft, hright⟩ hlo hhi
    exact ⟨mid, hr.widen_left hleft hlo, hq.widen_right hright hhi⟩

/-- The members of a list lie one after another between two offsets. -/
inductive InTurn {α : Type} (P : α → Nat → Nat → Prop) : List α → Nat → Nat → Prop
  | nil {lo hi : Nat} : lo ≤ hi → InTurn P [] lo hi
  | cons {x : α} {xs : List α} {lo mid hi : Nat} : P x lo mid → InTurn P xs mid hi →
      InTurn P (x :: xs) lo hi

section

variable {α : Type} {P : α → Nat → Nat → Prop}

theorem InTurn.empty (lo : Nat) : InTurn P [] lo lo := .nil (Nat.le_refl lo)

theorem ranged_inTurn (hP : ∀ x, Ranged (P x)) (xs : List α) : Ranged (InTurn P xs) where
  le := by
    intro lo hi h
    induction h with
    | nil hle => exact hle
    | cons hx _ ih => exact ((hP _).le hx).trans ih
  widen := by
    intro lo hi lo' hi' h hlo hhi
    induction h generalizing lo' with
    | nil hle => exact .nil (by omega)
    | cons hx _ ih => exact .cons ((hP _).widen_left hx hlo) (ih (Nat.le_refl _) hhi)

theorem inTurn_concat_iff (hP : ∀ x, Ranged (P x)) {xs : List α} {x : α} {lo hi : Nat} :
    InTurn P (xs ++ [x]) lo hi ↔ Comp (InTurn P xs) (P x) lo hi := by
  constructor
  · intro h
    induction xs generalizing lo with
    | nil =>
      cases h with
      | cons hx hnil =>
        cases hnil with
        | nil hle => exact ⟨lo, .empty _, (hP x).widen_right hx hle⟩
    | cons y ys ih =>
      cases h with
      | cons hy hrest =>
        obtain ⟨mid, hys, hx⟩ := ih hrest
        exact ⟨mid, .cons hy hys, hx⟩
  · rintro ⟨mid, hxs, hx⟩
    induction hxs with
    | nil hle => exact .cons ((hP x).widen_left hx hle) (.empty _)
    | cons hy _ ih => exact .cons hy (ih hx)

/-- In a list with the newest member first, that member lies after the others. -/
theorem inTurn_reverse_cons_iff (hP : ∀ x, Ranged (P x)) {xs : List α} {x : α} {lo hi : Nat} :
    InTurn P (x :: xs).reverse lo hi ↔ Comp (InTurn P xs.reverse) (P x) lo hi := by
  rw [List.reverse_cons]
  exact inTurn_concat_iff hP

end

/-! ## Spans and nodes -/

/-- The span runs from the start of a token to the stop of a token, between two offsets. -/
structure Span.Placed (ts : List Token) (s : Span) (lo hi : Nat) : Prop where
  starts : ∃ t ∈ ts, t.span.start = s.start
  stops : ∃ t ∈ ts, t.span.stop = s.stop
  lo_le : lo ≤ s.start.offset
  nonempty : s.start.offset < s.stop.offset
  le_hi : s.stop.offset ≤ hi

/-- A node between two offsets, with its children one after another inside of its span. -/
inductive Node.Placed (ts : List Token) : Node → Nat → Nat → Prop
  | intro {n : Node} {s : Span} {lo hi : Nat} : n.span = some s → s.Placed ts lo hi →
      InTurn (Node.Placed ts) n.children s.start.offset s.stop.offset → Node.Placed ts n lo hi

variable {ts : List Token}

theorem ranged_span (s : Span) : Ranged (s.Placed ts) where
  le h := by
    have := h.lo_le
    have := h.nonempty
    have := h.le_hi
    omega
  widen h hlo hhi := ⟨h.starts, h.stops, hlo.trans h.lo_le, h.nonempty, h.le_hi.trans hhi⟩

theorem ranged_node (n : Node) : Ranged (n.Placed ts) where
  le := by
    rintro lo hi ⟨-, hs, -⟩
    exact (ranged_span _).le hs
  widen := by
    rintro lo hi lo' hi' ⟨hspan, hs, hchildren⟩ hlo hhi
    exact .intro hspan ((ranged_span _).widen hs hlo hhi) hchildren

theorem ranged_nodes (ns : List Node) : Ranged (InTurn (Node.Placed ts) ns) :=
  ranged_inTurn ranged_node ns

/-- A span is placed between its own ends. -/
theorem Span.Placed.tight {s : Span} {lo hi : Nat} (h : s.Placed ts lo hi) :
    s.Placed ts s.start.offset s.stop.offset :=
  ⟨h.starts, h.stops, Nat.le_refl _, h.nonempty, Nat.le_refl _⟩

/-- From the start of one span to the stop of a later one. -/
theorem Span.Placed.join {a b : Span} {lo mid hi : Nat} (ha : a.Placed ts lo mid)
    (hb : b.Placed ts mid hi) : (Span.mk a.start b.stop).Placed ts lo hi := by
  refine ⟨ha.starts, hb.stops, ha.lo_le, ?_, hb.le_hi⟩
  show a.start.offset < b.stop.offset
  have := ha.nonempty
  have := ha.le_hi
  have := hb.lo_le
  have := hb.nonempty
  omega

namespace Node

theorem placed_leaf {n : Node} {s : Span} {lo hi : Nat} (hs : s.Placed ts lo hi)
    (hspan : n.span = some s) (hchildren : n.children = []) : n.Placed ts lo hi := by
  refine .intro hspan hs ?_
  rw [hchildren]
  exact .nil (Nat.le_of_lt hs.nonempty)

theorem Placed.exists_span {n : Node} {lo hi : Nat} (h : n.Placed ts lo hi) :
    ∃ s, n.span = some s ∧ s.Placed ts lo hi ∧ n.Placed ts s.start.offset s.stop.offset := by
  obtain ⟨hspan, hs, hchildren⟩ := h
  exact ⟨_, hspan, hs, .intro hspan hs.tight hchildren⟩

/-- A node from an opening token to a closing one, with its children between them. -/
theorem placed_enclosed {n : Node} {a b : Span} {lo first last hi : Nat} (ha : a.Placed ts lo first)
    (hchildren : InTurn (Node.Placed ts) n.children first last) (hb : b.Placed ts last hi)
    (hspan : n.span = some ⟨a.start, b.stop⟩) : n.Placed ts lo hi := by
  have hle := (ranged_nodes _).le hchildren
  have hstart : a.start.offset ≤ first := ha.nonempty.le.trans ha.le_hi
  have hstop : last ≤ b.stop.offset := hb.lo_le.trans hb.nonempty.le
  exact .intro hspan (((ranged_span a).widen_right ha hle).join hb)
    ((ranged_nodes _).widen hchildren hstart hstop)

/-- A node that starts with its first child and ends with a closing token. -/
theorem placed_applied {n e : Node} {es : List Node} {b : Span} {lo first last hi : Nat}
    (he : e.Placed ts lo first) (hes : InTurn (Node.Placed ts) es first last)
    (hb : b.Placed ts last hi) (hspan : n.span = Span.between e.span (some b))
    (hchildren : n.children = e :: es) : n.Placed ts lo hi := by
  obtain ⟨s, hs, hplaced, htight⟩ := he.exists_span
  have hle := (ranged_nodes _).le hes
  have hstop : last ≤ b.stop.offset := hb.lo_le.trans hb.nonempty.le
  rw [hs, Span.between_some] at hspan
  refine .intro hspan (((ranged_span s).widen_right hplaced hle).join hb) ?_
  rw [hchildren]
  exact .cons ((ranged_node e).widen_right htight hplaced.le_hi)
    ((ranged_nodes es).widen_right hes hstop)

end Node

/-! ## What the reader holds -/

/-- The token lies between two offsets. The end of input has no width and may stand anywhere. -/
def Token.Placed (ts : List Token) (t : Token) (lo hi : Nat) : Prop :=
  lo ≤ hi ∧ (t.kind ≠ .eof → t.span.Placed ts lo hi)

theorem ranged_token (t : Token) : Ranged (t.Placed ts) where
  le h := h.1
  widen h hlo hhi :=
    ⟨hlo.trans (h.1.trans hhi), fun hk => (ranged_span _).widen (h.2 hk) hlo hhi⟩

namespace Reader

/-- The operator with the operand on its left. -/
def Pending.Placed (ts : List Token) : Pending → Nat → Nat → Prop
  | .unary place _ => place.Placed ts
  | .binary left _ => left.Placed ts

/-- The bracket with what was read before it and inside of it. -/
def Bracket.Placed (ts : List Token) : Bracket → Nat → Nat → Prop
  | .group start => start.Placed ts
  | .tuple start items => Comp (start.Placed ts) (InTurn (Node.Placed ts) items.reverse)
  | .call callee arguments =>
    Comp (callee.Placed ts) (InTurn (Node.Placed ts) arguments.reverse)
  | .index object => object.Placed ts

/-- The operators that wait around a bracket, and then the bracket. -/
def Enclosure (ts : List Token) (b : Bracket × List Pending) : Nat → Nat → Prop :=
  Comp (InTurn (Pending.Placed ts) b.2.reverse) (b.1.Placed ts)

/-- The phrase begins with a token, and all that it holds comes after the start of that token. -/
structure Phrase.Placed (ts : List Token) (p : Phrase) (lo hi : Nat) : Prop where
  starts : ∃ t ∈ ts, t.span.start = p.head.start.start
  lo_le : lo ≤ p.head.start.start.offset
  inside : Comp (InTurn (Enclosure ts) p.brackets.reverse)
    (InTurn (Pending.Placed ts) p.pending.reverse) p.head.start.start.offset hi

/-- What a mode remembers, in the order in which it was read. -/
def Mode.Placed (ts : List Token) : Mode → Nat → Nat → Prop
  | .statement => (· ≤ ·)
  | .leadingName place _ | .letName place | .letEquals place _ | .useModule place
  | .useColons place _ | .useSymbol place _ | .useTail place _ _ | .useAlias place _ _
  | .useDone place _ _ _ => place.Placed ts
  | .operand p => p.Placed ts
  | .name p place _ | .pathSymbol p place _ | .pathCall p place _ _ =>
    Comp (p.Placed ts) (place.Placed ts)
  | .complete p e => Comp (p.Placed ts) (e.Placed ts)

/-- The statements before a block, and then its brace. -/
def OpenBlock.Placed (ts : List Token) (b : OpenBlock) : Nat → Nat → Prop :=
  Comp (InTurn (Node.Placed ts) b.before.reverse) (b.start.Placed ts)

/-- The open blocks, and then the statements of the innermost one. -/
def Behind (ts : List Token) (r : Reader) : Nat → Nat → Prop :=
  Comp (InTurn (OpenBlock.Placed ts) r.blocks.reverse) (InTurn (Node.Placed ts) r.done.reverse)

/-- All that the reader holds, in the order in which it was read. -/
def Placed (ts : List Token) (r : Reader) : Nat → Nat → Prop :=
  Comp (r.Behind ts) (r.mode.Placed ts)

theorem ranged_pending (w : Pending) : Ranged (w.Placed ts) := by
  cases w with
  | unary place => exact ranged_span place
  | binary left => exact ranged_node left

theorem ranged_bracket (b : Bracket) : Ranged (b.Placed ts) := by
  cases b with
  | group start => exact ranged_span start
  | tuple start items => exact (ranged_span start).comp (ranged_nodes _)
  | call callee arguments => exact (ranged_node callee).comp (ranged_nodes _)
  | index object => exact ranged_node object

theorem ranged_pendings (ws : List Pending) : Ranged (InTurn (Pending.Placed ts) ws) :=
  ranged_inTurn ranged_pending ws

theorem ranged_enclosure (b : Bracket × List Pending) : Ranged (Enclosure ts b) :=
  (ranged_pendings _).comp (ranged_bracket b.1)

theorem ranged_phrase (p : Phrase) : Ranged (p.Placed ts) where
  le h :=
    h.lo_le.trans (((ranged_inTurn ranged_enclosure _).comp (ranged_pendings _)).le h.inside)
  widen h hlo hhi := by
    refine ⟨h.starts, hlo.trans h.lo_le, ?_⟩
    exact ((ranged_inTurn ranged_enclosure _).comp (ranged_pendings _)).widen_right h.inside hhi

theorem ranged_mode (m : Mode) : Ranged (m.Placed ts) := by
  cases m with
  | statement => exact ⟨id, fun h hlo hhi => hlo.trans (h.trans hhi)⟩
  | leadingName place | letName place | letEquals place | useModule place | useColons place
  | useSymbol place | useTail place | useAlias place | useDone place => exact ranged_span place
  | operand p => exact ranged_phrase p
  | name p place | pathSymbol p place | pathCall p place =>
    exact (ranged_phrase p).comp (ranged_span place)
  | complete p e => exact (ranged_phrase p).comp (ranged_node e)

theorem ranged_openBlock (b : OpenBlock) : Ranged (b.Placed ts) :=
  (ranged_nodes _).comp (ranged_span b.start)

theorem ranged_behind (r : Reader) : Ranged (r.Behind ts) :=
  (ranged_inTurn ranged_openBlock _).comp (ranged_nodes _)

/-! ## Phrases -/

theorem Pending.Placed.close {w : Pending} {e : Node} {lo mid hi : Nat} (hw : w.Placed ts lo mid)
    (he : e.Placed ts mid hi) : (w.close e).Placed ts lo hi := by
  obtain ⟨s, hs, hplaced, htight⟩ := he.exists_span
  cases w with
  | unary place operator =>
    refine .intro (s := ⟨place.start, s.stop⟩) ?_ (Span.Placed.join hw hplaced) ?_
    · show Span.between (some place) e.span = _
      rw [hs, Span.between_some]
    · have hstart : place.start.offset ≤ s.start.offset :=
        hw.nonempty.le.trans (hw.le_hi.trans hplaced.lo_le)
      exact .cons ((ranged_node e).widen_left htight hstart) (.empty _)
  | binary left operator =>
    obtain ⟨l, hl, hleft, hltight⟩ := Node.Placed.exists_span hw
    refine .intro (s := ⟨l.start, s.stop⟩) ?_ (hleft.join hplaced) ?_
    · show Span.between left.span e.span = _
      rw [hl, hs, Span.between_some]
    · have hmid : l.stop.offset ≤ s.start.offset := hleft.le_hi.trans hplaced.lo_le
      exact .cons hltight (.cons ((ranged_node e).widen_left htight hmid)
        (.empty _))

/-- The operators that go on waiting come before the operand that the others were applied to. -/
theorem reduce_placed (bound : Nat) {ws : List Pending} {e : Node} {lo mid hi : Nat}
    (hws : InTurn (Pending.Placed ts) ws.reverse lo mid) (he : e.Placed ts mid hi) :
    Comp (InTurn (Pending.Placed ts) (reduce bound ws e).1.reverse) ((reduce bound ws e).2.Placed ts)
      lo hi := by
  induction ws generalizing e mid with
  | nil => exact ⟨mid, hws, he⟩
  | cons w ws ih =>
    unfold reduce
    split_ifs
    · obtain ⟨z, hrest, hw⟩ := (inTurn_reverse_cons_iff ranged_pending).1 hws
      exact ih hrest (hw.close he)
    · exact ⟨mid, hws, he⟩

namespace Phrase.Placed

variable {p : Phrase} {lo mid hi : Nat}

/-- The phrase before its first operand. -/
theorem start (head : Head) (hs : head.start.Placed ts lo hi) :
    (Phrase.mk [] [] head).Placed ts lo head.start.start.offset :=
  ⟨hs.starts, hs.lo_le, _, .empty _, .empty _⟩

theorem enter {b : Bracket} (h : p.Placed ts lo mid) (hb : b.Placed ts mid hi) :
    (p.enter b).Placed ts lo hi := by
  obtain ⟨z, hbrackets, hpending⟩ := h.inside
  refine ⟨h.starts, h.lo_le, hi, ?_, .empty _⟩
  exact (inTurn_reverse_cons_iff ranged_enclosure).2 ⟨z, hbrackets, mid, hpending, hb⟩

theorem wait {w : Pending} (h : p.Placed ts lo mid) (hw : w.Placed ts mid hi) :
    ({ p with pending := w :: p.pending } : Phrase).Placed ts lo hi := by
  obtain ⟨z, hbrackets, hpending⟩ := h.inside
  refine ⟨h.starts, h.lo_le, z, hbrackets, ?_⟩
  exact (inTurn_reverse_cons_iff ranged_pending).2 ⟨mid, hpending, hw⟩

theorem reduce (bound : Nat) {e : Node} (h : p.Placed ts lo mid) (he : e.Placed ts mid hi) :
    Comp (Phrase.Placed ts { p with pending := (reduce bound p.pending e).1 })
      ((Reader.reduce bound p.pending e).2.Placed ts) lo hi := by
  obtain ⟨z, hbrackets, hpending⟩ := h.inside
  obtain ⟨y, hwaiting, hoperand⟩ := reduce_placed bound hpending he
  exact ⟨y, ⟨h.starts, h.lo_le, z, hbrackets, hwaiting⟩, hoperand⟩

/-- The phrase around the innermost bracket, and then that bracket. -/
theorem leave {b : Bracket} {outer : List Pending} {rest : List (Bracket × List Pending)}
    (h : p.Placed ts lo hi) (hp : p.brackets = (b, outer) :: rest) :
    Comp (Phrase.Placed ts ⟨outer, rest, p.head⟩) (b.Placed ts) lo hi := by
  obtain ⟨z, hbrackets, hpending⟩ := h.inside
  rw [hp] at hbrackets
  obtain ⟨y, hrest, x, houter, hb⟩ := (inTurn_reverse_cons_iff ranged_enclosure).1 hbrackets
  refine ⟨x, ⟨h.starts, h.lo_le, y, hrest, houter⟩, ?_⟩
  exact (ranged_bracket b).widen_right hb ((ranged_pendings _).le hpending)

end Phrase.Placed

/-! ## What a token does to it -/

/-- If the reader goes on, all that it holds is in its place; which token was taken last is noted later. -/
def Lays (ts : List Token) (last : Span) (base hi : Nat) : Except Fault Reader → Prop
  | .ok r => r.last = last ∧ r.Placed ts base hi
  | .error _ => True

variable {base lo mid here hi : Nat} {r : Reader} {p : Phrase} {t : Token}

theorem Behind.goto {mode : Mode} (hr : r.Behind ts base mid) (hmode : mode.Placed ts mid hi) :
    Lays ts r.last base hi (.ok (r.goto mode)) :=
  ⟨rfl, mid, hr, hmode⟩

theorem Behind.add {s : Node} (hr : r.Behind ts base mid) (hs : s.Placed ts mid hi) :
    (r.add s).Behind ts base hi := by
  obtain ⟨z, hblocks, hdone⟩ := hr
  exact ⟨z, hblocks, (inTurn_reverse_cons_iff ranged_node).2 ⟨mid, hdone, hs⟩⟩

theorem lays_reject (t : Token) (expected : Expected) (last : Span) :
    Lays ts last base hi (reject t expected) := by
  unfold reject
  split
  · trivial
  · trivial

theorem lays_deepen {limit levels : Nat} {last : Span} (h : Lays ts last base hi (.ok r)) :
    Lays ts last base hi (deepen limit t levels r) := by
  unfold deepen
  split_ifs
  · exact h
  · trivial

theorem operand_lays (limit : Nat) (hr : r.Behind ts base mid) (hp : p.Placed ts mid here)
    (ht : t.Placed ts here hi) : Lays ts r.last base hi (r.operand limit p t) := by
  unfold operand
  split
  · next hk => exact hr.goto ⟨here, hp, Node.placed_leaf (ht.2 (by simp [hk])) rfl rfl⟩
  · next hk => exact hr.goto ⟨here, hp, Node.placed_leaf (ht.2 (by simp [hk])) rfl rfl⟩
  · next hk => exact hr.goto ⟨here, hp, Node.placed_leaf (ht.2 (by simp [hk])) rfl rfl⟩
  · next hk => exact hr.goto ⟨here, hp, ht.2 (by simp [hk])⟩
  · next hk => exact lays_deepen (hr.goto (hp.enter (ht.2 (by simp [hk]))))
  · next hk =>
    have hstop := ht.2 (by simp [hk])
    split
    · next hbrackets =>
      obtain ⟨z, houter, hstart⟩ := hp.leave hbrackets
      exact hr.goto ⟨z, houter, Node.placed_enclosed hstart (.empty _) hstop rfl⟩
    · next hbrackets =>
      obtain ⟨z, houter, y, hstart, hitems⟩ := hp.leave hbrackets
      exact hr.goto ⟨z, houter, Node.placed_enclosed hstart hitems hstop rfl⟩
    · next hbrackets =>
      obtain ⟨z, houter, y, hcallee, harguments⟩ := hp.leave hbrackets
      exact hr.goto ⟨z, houter, Node.placed_applied hcallee harguments hstop rfl rfl⟩
    · exact lays_reject t _ _
  · next s hopen hclose hk =>
    split_ifs
    · exact lays_deepen (hr.goto (hp.wait (ht.2 (by simp [hk]))))
    · exact lays_reject t _ _
  · exact lays_reject t _ _

theorem statement_lays (limit : Nat) (hr : r.Behind ts base here) (ht : t.Placed ts here hi) :
    Lays ts r.last base hi (r.statement limit t) := by
  unfold statement
  split
  · exact hr.goto ht.1
  · next hk =>
    obtain ⟨z, hblocks, hdone⟩ := hr
    refine lays_deepen ⟨rfl, hi, ⟨hi, ?_, .empty _⟩, Nat.le_refl hi⟩
    exact (inTurn_reverse_cons_iff ranged_openBlock).2
      ⟨z, hblocks, here, hdone, ht.2 (by simp [hk])⟩
  · next hk =>
    obtain ⟨z, hblocks, hdone⟩ := hr
    split
    · exact lays_reject t _ _
    · next b bs hb =>
      rw [hb] at hblocks
      obtain ⟨y, hbs, x, hbefore, hstart⟩ := (inTurn_reverse_cons_iff ranged_openBlock).1 hblocks
      refine ⟨rfl, hi, ⟨y, hbs, ?_⟩, Nat.le_refl hi⟩
      exact (inTurn_reverse_cons_iff ranged_node).2
        ⟨x, hbefore, Node.placed_enclosed hstart hdone (ht.2 (by simp [hk])) rfl⟩
  · next hk => exact hr.goto (ht.2 (by simp [hk]))
  · next hk => exact hr.goto (ht.2 (by simp [hk]))
  · next n hk => exact hr.goto (ht.2 (by simp [hk]))
  · split_ifs
    · exact hr.goto ht.1
    · exact lays_reject t _ _
  · next heof =>
    have hplaced := ht.2 heof
    have hstart := Phrase.Placed.start (.expression t.span) hplaced
    have htoken := (ranged_span t.span).widen_right hplaced.tight hplaced.le_hi
    exact operand_lays limit hr hstart ⟨(ranged_span _).le htoken, fun _ => htoken⟩

/-- The last token that was taken stops at an offset. -/
def EndsAt (ts : List Token) (r : Reader) (here : Nat) : Prop :=
  (∃ t ∈ ts, t.span.stop = r.last.stop) ∧ r.last.stop.offset = here

/-- A statement stops with its semicolon, or else with the last token that was taken. -/
theorem terminate_lays (limit : Nat) {start : Span} {make : Option Span → Node}
    (hr : r.Behind ts base mid) (hlast : r.EndsAt ts here)
    (hmake : ∀ stop, (∃ t ∈ ts, t.span.stop = stop) → here ≤ stop.offset →
      (make (some ⟨start.start, stop⟩)).Placed ts mid stop.offset)
    (ht : t.Placed ts here hi) : Lays ts r.last base hi (r.terminate limit start make t) := by
  have hadd := hr.add (hmake _ hlast.1 hlast.2.ge)
  rw [hlast.2] at hadd
  unfold terminate
  split
  · next hk =>
    have hstop := ht.2 (by simp [hk])
    have hmade := hmake _ hstop.stops (hstop.lo_le.trans hstop.nonempty.le)
    have hadded := hr.add ((ranged_node _).widen_right hmade hstop.le_hi)
    exact ⟨rfl, hi, hadded, Nat.le_refl hi⟩
  · exact statement_lays limit hadd ht
  · exact statement_lays limit hadd ht
  · exact lays_reject t _ _

/-- A statement around an expression starts where its phrase does. -/
theorem placed_headClose {e : Node} {stop : Location} (hp : p.Placed ts lo mid)
    (he : e.Placed ts mid here) (hstops : ∃ t ∈ ts, t.span.stop = stop)
    (hle : here ≤ stop.offset) :
    (p.head.close e (some ⟨p.head.start.start, stop⟩)).Placed ts lo stop.offset := by
  have hstart : p.head.start.start.offset ≤ mid :=
    ((ranged_inTurn ranged_enclosure _).comp (ranged_pendings _)).le hp.inside
  obtain ⟨s, -, hplaced, -⟩ := he.exists_span
  have hspan : (Span.mk p.head.start.start stop).Placed ts lo stop.offset := by
    refine ⟨hp.starts, hstops, hp.lo_le, ?_, Nat.le_refl _⟩
    show p.head.start.start.offset < stop.offset
    have := hplaced.lo_le
    have := hplaced.nonempty
    have := hplaced.le_hi
    omega
  have hchildren : InTurn (Node.Placed ts) [e] p.head.start.start.offset stop.offset :=
    .cons ((ranged_node e).widen he hstart hle) (.empty _)
  cases hhead : p.head with
  | expression start =>
    rw [hhead] at hspan hchildren
    exact .intro rfl hspan hchildren
  | binding start name =>
    rw [hhead] at hspan hchildren
    exact .intro rfl hspan hchildren

theorem settle_lays (limit : Nat) {e : Node} (hr : r.Behind ts base lo) (hp : p.Placed ts lo mid)
    (he : e.Placed ts mid here) (hlast : r.EndsAt ts here) (ht : t.Placed ts here hi) :
    Lays ts r.last base hi (r.settle limit p e t) := by
  have hwide : e.Placed ts mid hi := (ranged_node e).widen_right he ht.1
  have hsnoc {es : List Node} {x y : Nat} (hes : InTurn (Node.Placed ts) es.reverse x mid)
      (hy : here ≤ y) : InTurn (Node.Placed ts) (e :: es).reverse x y :=
    (inTurn_reverse_cons_iff ranged_node).2
      ⟨mid, hes, (ranged_node e).widen_right he hy⟩
  unfold settle
  split
  · exact terminate_lays limit hr hlast (fun _ => placed_headClose hp he) ht
  · next hbrackets =>
    obtain ⟨z, houter, hstart⟩ := hp.leave hbrackets
    have hle := (ranged_span _).le hstart
    split
    · exact hr.goto ⟨z, houter, (ranged_node e).widen_left hwide hle⟩
    · exact hr.goto (houter.enter ⟨mid, hstart, hsnoc (.empty _) ht.1⟩)
    · exact lays_reject t _ _
  · next hbrackets =>
    obtain ⟨z, houter, y, hstart, hitems⟩ := hp.leave hbrackets
    split
    · next hk =>
      exact hr.goto ⟨z, houter, Node.placed_enclosed hstart (hsnoc hitems (Nat.le_refl _))
        (ht.2 (by simp [hk])) rfl⟩
    · exact hr.goto (houter.enter ⟨y, hstart, hsnoc hitems ht.1⟩)
    · exact lays_reject t _ _
  · next hbrackets =>
    obtain ⟨z, houter, y, hcallee, harguments⟩ := hp.leave hbrackets
    split
    · next hk =>
      exact hr.goto ⟨z, houter, Node.placed_applied hcallee (hsnoc harguments (Nat.le_refl _))
        (ht.2 (by simp [hk])) rfl rfl⟩
    · exact hr.goto (houter.enter ⟨y, hcallee, hsnoc harguments ht.1⟩)
    · exact lays_reject t _ _
  · next hbrackets =>
    obtain ⟨z, houter, hobject⟩ := hp.leave hbrackets
    split
    · next hk =>
      exact hr.goto ⟨z, houter, Node.placed_applied hobject (.cons he (.empty _))
        (ht.2 (by simp [hk])) rfl rfl⟩
    · exact lays_reject t _ _

theorem complete_lays (limit : Nat) {e : Node} (hr : r.Behind ts base lo) (hp : p.Placed ts lo mid)
    (he : e.Placed ts mid here) (hlast : r.EndsAt ts here) (ht : t.Placed ts here hi) :
    Lays ts r.last base hi (r.complete limit p e t) := by
  have hsettle : Lays ts r.last base hi (r.settle limit p (reduce 0 p.pending e).2 t) := by
    obtain ⟨z, hwaiting, hwhole⟩ := hp.reduce 0 he
    -- the operators that wait are of no account any more once they have their operand
    exact settle_lays limit (p := { p with pending := (reduce 0 p.pending e).1 }) hr hwaiting hwhole
      hlast ht
  have hwide : e.Placed ts mid hi := (ranged_node e).widen_right he ht.1
  unfold complete
  dsimp only
  split
  · split_ifs
    · exact lays_deepen (hr.goto (hp.enter ⟨hi, hwide, .empty _⟩))
    · trivial
  · exact lays_deepen (hr.goto (hp.enter hwide))
  · split
    · next operator hoperator =>
      obtain ⟨z, hwaiting, hleft⟩ := hp.reduce operator.precedence hwide
      exact hr.goto (hwaiting.wait hleft)
    · exact hsettle
  · exact hsettle

theorem afterName_lays (limit : Nat) {place : Span} (name : String) (hr : r.Behind ts base lo)
    (hp : p.Placed ts lo mid) (hplace : place.Placed ts mid here) (hlast : r.EndsAt ts here)
    (ht : t.Placed ts here hi) : Lays ts r.last base hi (r.afterName limit p place name t) := by
  unfold afterName
  split
  · exact hr.goto ⟨mid, hp, (ranged_span place).widen_right hplace ht.1⟩
  · exact complete_lays limit hr hp (Node.placed_leaf hplace rfl rfl) hlast ht

/-- A `use` statement starts where its first token does. -/
theorem placed_use {start : Span} {stop : Location} {module symbol : String}
    {newName : Option String} (hstart : start.Placed ts lo here)
    (hstops : ∃ t ∈ ts, t.span.stop = stop) (hle : here ≤ stop.offset) :
    (Node.use (some ⟨start.start, stop⟩) module symbol newName).Placed ts lo stop.offset := by
  have hlt : start.start.offset < stop.offset := hstart.nonempty.trans_le (hstart.le_hi.trans hle)
  exact Node.placed_leaf (s := ⟨start.start, stop⟩)
    ⟨hstart.starts, hstops, hstart.lo_le, hlt, Nat.le_refl _⟩ rfl rfl

/-- A token keeps all that the reader holds in its place. -/
theorem take_lays (limit : Nat) (hr : r.Placed ts base here)
    (hlast : r.mode ≠ .statement → r.EndsAt ts here) (ht : t.Placed ts here hi) :
    Lays ts r.last base hi (r.take limit t) := by
  obtain ⟨mid, hbehind, hmode⟩ := hr
  have hstart {head : Head} (h : head.start.Placed ts mid here) :
      (Phrase.mk [] [] head).Placed ts mid hi :=
    (ranged_phrase _).widen_right (Phrase.Placed.start head h) (h.nonempty.le.trans (h.le_hi.trans ht.1))
  have hspan {s : Span} (h : s.Placed ts mid here) : s.Placed ts mid hi :=
    (ranged_span s).widen_right h ht.1
  unfold take
  cases hm : r.mode with
  | statement =>
    rw [hm] at hmode
    exact statement_lays limit ((ranged_behind r).widen_right hbehind hmode) ht
  | leadingName place name =>
    rw [hm] at hmode hlast
    dsimp only
    split
    · exact hbehind.goto (hstart hmode)
    · have htight := (ranged_span place).widen_right hmode.tight hmode.le_hi
      exact afterName_lays limit name hbehind (Phrase.Placed.start (.expression place) hmode) htight
        (hlast (by simp)) ht
  | letEquals place name =>
    rw [hm] at hmode
    dsimp only
    split
    · exact hbehind.goto (hstart hmode)
    · exact lays_reject t _ _
  | letName place | useModule place | useColons place | useSymbol place | useAlias place =>
    rw [hm] at hmode
    dsimp only
    split
    · exact hbehind.goto (hspan hmode)
    · exact lays_reject t _ _
  | useTail place module symbol =>
    rw [hm] at hmode hlast
    dsimp only
    split
    · exact hbehind.goto (hspan hmode)
    · exact terminate_lays limit hbehind (hlast (by simp)) (fun _ => placed_use hmode) ht
  | useDone place module symbol newName =>
    rw [hm] at hmode hlast
    exact terminate_lays limit hbehind (hlast (by simp)) (fun _ => placed_use hmode) ht
  | operand p =>
    rw [hm] at hmode
    exact operand_lays limit hbehind hmode ht
  | name p place name =>
    rw [hm] at hmode hlast
    obtain ⟨z, hp, hplace⟩ := hmode
    exact afterName_lays limit name hbehind hp hplace (hlast (by simp)) ht
  | pathSymbol p place module =>
    rw [hm] at hmode
    obtain ⟨z, hp, hplace⟩ := hmode
    dsimp only
    split
    · next hk => exact hbehind.goto ⟨z, hp, hplace.join (ht.2 (by simp [hk]))⟩
    · exact lays_reject t _ _
  | pathCall p place module symbol =>
    rw [hm] at hmode hlast
    obtain ⟨z, hp, hplace⟩ := hmode
    dsimp only
    split
    · exact complete_lays limit hbehind hp (Node.placed_leaf hplace rfl rfl) (hlast (by simp)) ht
    · exact lays_reject t _ _
  | complete p e =>
    rw [hm] at hmode hlast
    obtain ⟨z, hp, he⟩ := hmode
    exact complete_lays limit hbehind hp he (hlast (by simp)) ht

/-! ## Runs -/

/-- The reader after some tokens. The last of them is where it stands, except that before the first token
it stands before that one. -/
structure Stands (ts : List Token) (base here : Nat) (r : Reader) : Prop where
  placed : r.Placed ts base here
  stops : ∃ t ∈ ts, t.span.stop = r.last.stop
  here_le : here ≤ r.last.stop.offset
  ends : r.mode ≠ .statement → r.last.stop.offset = here

theorem Stands.take (limit : Nat) (h : r.Stands ts base here) (ht : t.Placed ts here hi) :
    Lays ts r.last base hi (r.take limit t) :=
  take_lays limit h.placed (fun hmode => ⟨h.stops, h.ends hmode⟩) ht

/-- A token leads to where it stops. -/
theorem Stands.advance {limit : Nat} {r' : Reader} (h : r.Stands ts base here)
    (ht : t.span.Placed ts here hi) (hk : t.kind ≠ .eof) (hr' : r.advance limit t = .ok r') :
    r'.Stands ts base t.span.stop.offset := by
  have htight : t.span.Placed ts here t.span.stop.offset :=
    (ranged_span _).widen_left ht.tight ht.lo_le
  have hlays := h.take limit ⟨(ranged_span _).le htight, fun _ => htight⟩
  cases htake : r.take limit t with
  | error fault => rw [advance_error htake] at hr'; cases hr'
  | ok next =>
    rw [htake] at hlays
    rw [advance_of_ne_eof hk htake] at hr'
    cases hr'
    exact ⟨hlays.2, ht.stops, Nat.le_refl _, fun _ => rfl⟩

/-- The end of input takes no room: the reader stays where it stands. -/
theorem Stands.advance_eof {limit : Nat} {r' : Reader} (h : r.Stands ts base here)
    (hk : t.kind = .eof) (hr' : r.advance limit t = .ok r') :
    r'.last = r.last ∧ r'.Placed ts base here := by
  have ht : t.Placed ts here here := ⟨Nat.le_refl _, fun hne => absurd hk hne⟩
  have hlays := h.take limit ht
  have htake : r.take limit t = .ok r' := by
    rw [← hr', Reader.advance, hk]
  rw [htake] at hlays
  exact hlays

theorem Stands.run {limit : Nat} {tokens : List Token} {r' : Reader} {stop : Nat}
    (h : r.Stands ts base here) (htokens : InTurn (Token.Placed ts) tokens here stop)
    (hrun : r.run limit tokens = .ok r') :
    ∃ z, r'.Placed ts base z ∧ (∃ t ∈ ts, t.span.stop = r'.last.stop) ∧ z ≤ r'.last.stop.offset := by
  induction tokens generalizing r here with
  | nil =>
    cases hrun
    exact ⟨here, h.placed, h.stops, h.here_le⟩
  | cons t rest ih =>
    cases htokens with
    | cons ht hrest =>
      rw [Reader.run] at hrun
      cases hnext : r.advance limit t with
      | error fault => rw [hnext] at hrun; cases hrun
      | ok next =>
        rw [hnext] at hrun
        dsimp only at hrun
        split_ifs at hrun with hk
        · cases hrun
          obtain ⟨hlast, hplaced⟩ := h.advance_eof hk hnext
          rw [hlast]
          exact ⟨here, hplaced, h.stops, h.here_le⟩
        · have hspan := ht.2 hk
          exact ih (h.advance hspan hk hnext)
            ((ranged_inTurn ranged_token _).widen_left hrest hspan.le_hi) hrun

end Reader

/-! ## Tokens of source texts -/

theorem Token.IsIn.placed {source : List Char} {t : Token} (h : t.IsIn source) (ht : t ∈ ts) :
    t.Placed ts t.span.start.offset t.span.stop.offset := by
  refine ⟨h.span.ordered, fun hk => ⟨⟨t, ht, rfl⟩, ⟨t, ht, rfl⟩, Nat.le_refl _, ?_, Nat.le_refl _⟩⟩
  by_contra hle
  apply h.ne_empty hk
  have hslice : t.span.slice source = [] := by
    apply List.drop_eq_nil_of_le
    have := List.length_take_le t.span.stop.offset source
    omega
  rw [← String.toList_eq_nil_iff, h.lexeme_eq, hslice]

theorem Lexical.tiled_of_ofSource {source : String} {tokens : List Token}
    (h : Token.ofSource source = .ok tokens) : Tiled source.toList 0 tokens none := by
  have htiled : Tiled source.toList 0 (Token.scan .first source.toList).1
      (Token.scan .first source.toList).2 := scan_tiled [] source.toList
  rwa [splits_scan (splits_of_ofSource h)] at htiled

/-- Tokens that tile a source text come one after another, from the start of the first one on. -/
theorem Lexical.Tiles.inTurn {source : List Char} {start : Nat} {t : Token} {rest : List Token}
    (h : Tiles source start (t :: rest)) (htokens : ∀ u ∈ t :: rest, u ∈ ts ∧ u.IsIn source) :
    ∃ stop, InTurn (Token.Placed ts) (t :: rest) t.span.start.offset stop := by
  induction rest generalizing t start with
  | nil =>
    obtain ⟨hmem, hin⟩ := htokens t List.mem_cons_self
    exact ⟨_, .cons (hin.placed hmem) (.empty _)⟩
  | cons u rest ih =>
    obtain ⟨⟨hmem, hin⟩, hrest⟩ := List.forall_mem_cons.1 htokens
    obtain ⟨stop, hothers⟩ := ih h.2 hrest
    have hgap : t.span.stop.offset ≤ u.span.start.offset := h.2.1.1
    exact ⟨stop, .cons (hin.placed hmem)
      ((ranged_inTurn ranged_token _).widen_left hothers hgap)⟩

/-! ## Trees of source texts -/

/-- A span over whole tokens, with parts of it that come one after another. -/
structure Span.Holds (tokens : List Token) (s : Span) (parts : List Span) : Prop where
  starts : ∃ t ∈ tokens, t.span.start = s.start
  stops : ∃ t ∈ tokens, t.span.stop = s.stop
  ordered : s.start.offset ≤ s.stop.offset
  inside : ∀ a ∈ parts, s.start.offset ≤ a.start.offset ∧ a.start.offset < a.stop.offset ∧
    a.stop.offset ≤ s.stop.offset
  inOrder : parts.Pairwise fun a b => a.stop.offset ≤ b.start.offset

/-- A node has a span over whole tokens, and its children have theirs inside of it, in their order. -/
def Node.SpansNest (tokens : List Token) (n : Node) : Prop :=
  ∃ s parts, n.span = some s ∧ n.children.map Node.span = parts.map some ∧ s.Holds tokens parts

/-- Nodes that are placed one after another have spans one after another. -/
theorem InTurn.exists_spans {ns : List Node} {lo hi : Nat} (h : InTurn (Node.Placed ts) ns lo hi) :
    ∃ parts : List Span, ns.map Node.span = parts.map some ∧
      (∀ a ∈ parts, lo ≤ a.start.offset ∧ a.start.offset < a.stop.offset ∧ a.stop.offset ≤ hi) ∧
      parts.Pairwise fun a b => a.stop.offset ≤ b.start.offset := by
  induction h with
  | nil => exact ⟨[], rfl, List.forall_mem_nil _, .nil⟩
  | @cons n ns lo mid hi hn hns ih =>
    obtain ⟨parts, hparts, hinside, horder⟩ := ih
    obtain ⟨s, hs, hplaced, -⟩ := hn.exists_span
    have hle := (ranged_span s).le hplaced
    have hmid := (ranged_nodes ns).le hns
    refine ⟨s :: parts, ?_, List.forall_mem_cons.2 ⟨?_, fun a ha => ?_⟩,
      List.pairwise_cons.2 ⟨fun a ha => ?_, horder⟩⟩
    · rw [List.map_cons, List.map_cons, hs, hparts]
    · exact ⟨hplaced.lo_le, hplaced.nonempty, hplaced.le_hi.trans hmid⟩
    · obtain ⟨hstart, hsome, hstop⟩ := hinside a ha
      exact ⟨hle.trans hstart, hsome, hstop⟩
    · exact hplaced.le_hi.trans (hinside a ha).1

theorem Node.Placed.spansNest {n : Node} {lo hi : Nat} (h : n.Placed ts lo hi) : n.SpansNest ts := by
  obtain ⟨hspan, hs, hchildren⟩ := h
  obtain ⟨parts, hparts, hinside, horder⟩ := hchildren.exists_spans
  exact ⟨_, parts, hspan, hparts, hs.starts, hs.stops, hs.nonempty.le, hinside, horder⟩

theorem InTurn.exists_placed {ns : List Node} {n : Node} {lo hi : Nat}
    (h : InTurn (Node.Placed ts) ns lo hi) (hn : n ∈ ns) : ∃ lo hi, n.Placed ts lo hi := by
  induction h with
  | nil => cases hn
  | cons hfirst _ ih =>
    rcases List.mem_cons.1 hn with rfl | hn
    · exact ⟨_, _, hfirst⟩
    · exact ih hn

/-- All nodes below a node that is placed are placed. -/
theorem Node.Placed.exists_placed {n n' : Node} {lo hi : Nat} (h : n.Placed ts lo hi)
    (hn : Relation.ReflTransGen (fun a b => b ∈ a.children) n n') : ∃ lo hi, n'.Placed ts lo hi := by
  induction hn with
  | refl => exact ⟨lo, hi, h⟩
  | tail _ hchild ih =>
    obtain ⟨_, _, _, _, hchildren⟩ := ih
    exact hchildren.exists_placed hchild

namespace Program

/-- The statements of a program lie one after another between its first token and the last one before the
end of input. -/
theorem exists_inTurn_of_read {limit : Nat} {t : Token} {rest : List Token} {stop : Nat} {p : Program}
    (htokens : InTurn (Token.Placed ts) (t :: rest) t.span.start.offset stop) (ht : t ∈ ts)
    (hle : t.span.start.offset ≤ t.span.stop.offset) (h : read limit (t :: rest) = .ok p) :
    ∃ s, p.span = some s ∧ s.start = t.span.start ∧ (∃ u ∈ ts, u.span.stop = s.stop) ∧
      InTurn (Node.Placed ts) p.statements s.start.offset s.stop.offset := by
  rw [read] at h
  cases hrun : (Reader.initial t.span).run limit (t :: rest) with
  | error fault => rw [hrun] at h; cases h
  | ok r =>
    rw [hrun] at h
    cases h
    have hinitial : (Reader.initial t.span).Stands ts t.span.start.offset t.span.start.offset :=
      ⟨⟨_, ⟨_, .empty _, .empty _⟩, Nat.le_refl _⟩, ⟨t, ht, rfl⟩, hle, fun hne => absurd rfl hne⟩
    obtain ⟨z, ⟨y, ⟨x, hblocks, hdone⟩, hmode⟩, hstops, hz⟩ := hinitial.run htokens hrun
    have hstart := (ranged_inTurn Reader.ranged_openBlock _).le hblocks
    have hstop := (Reader.ranged_mode r.mode).le hmode
    exact ⟨_, rfl, rfl, hstops, (ranged_nodes _).widen hdone hstart (hstop.trans hz)⟩

/-- The tokens that a program was read from, and its statements among them. -/
theorem exists_inTurn_of_ofSourceWithin {limit : Nat} {source : String} {p : Program}
    (h : ofSourceWithin limit source = .ok p) :
    ∃ tokens s, Token.ofSource source = .ok tokens ∧ p.span = some s ∧
      (∃ t ∈ tokens, t.span.start = s.start) ∧ (∃ t ∈ tokens, t.span.stop = s.stop) ∧
      InTurn (Node.Placed tokens) p.statements s.start.offset s.stop.offset := by
  unfold ofSourceWithin at h
  split at h
  · cases h
  · next tokens htokens =>
    have htiled := Lexical.tiled_of_ofSource htokens
    split at h
    · next q hread =>
      cases h
      cases tokens with
      | nil =>
        obtain ⟨front, here, hempty, -⟩ := htiled.ended rfl
        simp at hempty
      | cons t rest =>
        have hin := (htiled.isIn t List.mem_cons_self).span
        obtain ⟨stop, hinTurn⟩ := htiled.tiles.inTurn fun u hu => ⟨hu, htiled.isIn u hu⟩
        obtain ⟨s, hs, hstart, hstops, hstatements⟩ :=
          exists_inTurn_of_read hinTurn List.mem_cons_self hin.ordered hread
        exact ⟨t :: rest, s, htokens, hs, ⟨t, List.mem_cons_self, hstart.symm⟩, hstops, hstatements⟩
    · cases h

/-- Every node of a program that is read from a source text has a span that starts where a token does and
stops where a token does. The children of a node have their spans inside of its span, and one after
another. -/
theorem spansNest_of_ofSourceWithin {limit : Nat} {source : String} {p : Program} {n : Node}
    (h : ofSourceWithin limit source = .ok p)
    (hn : Relation.ReflTransGen (fun a b => b ∈ a.children) p.node n) :
    ∃ tokens, Token.ofSource source = .ok tokens ∧ n.SpansNest tokens := by
  obtain ⟨tokens, s, htokens, hs, hstarts, hstops, hstatements⟩ := exists_inTurn_of_ofSourceWithin h
  refine ⟨tokens, htokens, ?_⟩
  -- the program itself stands apart: without statements its span may be empty
  rcases Relation.ReflTransGen.cases_head hn with rfl | ⟨statement, hstatement, hbelow⟩
  · obtain ⟨parts, hparts, hinside, horder⟩ := hstatements.exists_spans
    exact ⟨s, parts, hs, hparts, hstarts, hstops, (ranged_nodes _).le hstatements, hinside, horder⟩
  · obtain ⟨lo, hi, hplaced⟩ := hstatements.exists_placed hstatement
    obtain ⟨lo, hi, hplaced⟩ := hplaced.exists_placed hbelow
    exact hplaced.spansNest

/-- A product whose left operand stands in parentheses that do not belong to it: its span starts after the
first of them, where its statement starts. -/
theorem spansNest_of_ofSourceWithin_product :
    let source := "(a) * -f(b, (c))[0];\n\x7b y = 1 \x7d"
    ∃ p statement product tokens, ofSourceWithin 9 source = .ok p ∧
      statement ∈ p.node.children ∧ product ∈ statement.children ∧
      statement.span = some ⟨⟨1, 1, 0⟩, ⟨1, 21, 20⟩⟩ ∧
      product.span = some ⟨⟨1, 2, 1⟩, ⟨1, 20, 19⟩⟩ ∧
      Token.ofSource source = .ok tokens ∧ product.SpansNest tokens := by
  intro source
  have hspans : (ofSourceWithin 9 source).toOption.map
      (fun p => p.node.children.map fun s => (s.span, s.children.map Node.span)) =
      some [(some ⟨⟨1, 1, 0⟩, ⟨1, 21, 20⟩⟩, [some ⟨⟨1, 2, 1⟩, ⟨1, 20, 19⟩⟩]),
        (some ⟨⟨2, 1, 21⟩, ⟨2, 10, 30⟩⟩, [some ⟨⟨2, 3, 23⟩, ⟨2, 8, 28⟩⟩])] := by
    decide +kernel
  cases hp : ofSourceWithin 9 source with
  | error f => rw [hp] at hspans; cases hspans
  | ok p =>
    rw [hp] at hspans
    obtain ⟨statement, _, hchildren, hstatement, -⟩ := List.map_eq_cons_iff.1 (Option.some.inj hspans)
    obtain ⟨hspan, hbelow⟩ := Prod.mk.inj hstatement
    obtain ⟨product, _, hproducts, hproduct, -⟩ := List.map_eq_cons_iff.1 hbelow
    have hmem : statement ∈ p.node.children := by rw [hchildren]; exact List.mem_cons_self
    have hmem' : product ∈ statement.children := by rw [hproducts]; exact List.mem_cons_self
    obtain ⟨tokens, htokens, hnest⟩ :=
      spansNest_of_ofSourceWithin hp (.tail (.single hmem) hmem')
    exact ⟨p, statement, product, tokens, rfl, hmem, hmem', hspan, hproduct, htokens, hnest⟩

end Program

end Scriptlet
