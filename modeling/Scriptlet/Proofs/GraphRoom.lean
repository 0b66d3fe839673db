import Mathlib.Tactic.Common
import Scriptlet.Syntax.Graph

/-!
# The room that a drawing takes

A tree is drawn by calls within calls, so a drawing takes the more frames of the host the deeper the tree is.

* `Node.frames n`: how many frames that are, told from the tree alone.
* `Node.drawFrom_eq`: the graph is drawn if the host has so many frames, and otherwise nothing is.
-/

namespace Scriptlet

/-! ## Graphs that there is room for -/

namespace Graph

/-- The graph, if what it needs is there. -/
def fitting (need room : Nat) (g : Graph) : Option Graph := if need ≤ room then some g else none

variable {need need' room : Nat} {g h : Graph}

theorem fitting_zero (room : Nat) (g : Graph) : fitting 0 room g = some g := if_pos (Nat.zero_le room)

theorem fitting_map (f : Graph → Graph) : (fitting need room g).map f = fitting need room (f g) := by
  unfold fitting
  split <;> rfl

/-- Frames that are set aside are needed as well. -/
theorem fitting_sub {k : Nat} (hk : k ≤ room) : fitting need (room - k) g = fitting (k + need) room g := by
  unfold fitting
  congr 1
  exact propext (by omega)

/-- One graph after another needs what the more demanding of them needs. -/
theorem fitting_bind {f : Graph → Option Graph} (hf : f g = fitting need' room h) :
    fitting need room g >>= f = fitting (max need need') room h := by
  unfold fitting at hf ⊢
  by_cases hneed : need ≤ room
  · rw [if_pos hneed]
    simp only [Nat.max_le, hneed, true_and]
    exact hf
  · rw [if_neg hneed, if_neg fun hmax => hneed (Nat.max_le.1 hmax).1]
    rfl

theorem fitting_bind_pure (f : Graph → Graph) :
    (fitting need room g >>= fun x => pure (f x)) = fitting need room (f g) := by
  unfold fitting
  split <;> rfl

end Graph

namespace Node

open Scriptlet.Graph

variable {need room : Nat} {g : Graph} {below : Option Graph}

/-- A node on top needs room for its line, and only then it matters what is below. -/
theorem placed_eq {label : String} (hbelow : lineFrames ≤ room → below = fitting need room g) :
    placed room label below = fitting (max lineFrames need) room (onTop label g) := by
  unfold placed
  by_cases hroom : room < lineFrames
  · rw [if_pos hroom, fitting, if_neg fun hmax => Nat.not_lt.2 (Nat.max_le.1 hmax).1 hroom]
  · have hline : lineFrames ≤ room := Nat.not_lt.1 hroom
    rw [if_neg hroom, hbelow hline, fitting_map]
    simp only [fitting, Nat.max_le, hline, true_and]

/-! ## What a tree needs -/

mutual

/-- The frames that the drawing of a tree takes. -/
def frames : Node → Nat
  | .unary _ _ a | .binding _ _ a | .expression _ a => max lineFrames (3 + frames a)
  | .binary _ a _ b | .index _ a b => max lineFrames (max (3 + frames a) (3 + frames b))
  | .tuple _ es | .block _ es | .program _ es => max lineFrames (3 + framesAll es)
  | .call _ f es => max lineFrames (max (3 + frames f) (2 + framesAll es))
  | .literal _ v => max lineFrames (2 + v.frames)
  | .name _ _ | .path _ _ _ | .use _ _ _ _ | .blank _ _ => lineFrames

/-- The frames for any of several trees. -/
def framesAll : List Node → Nat
  | [] => 0
  | n :: ns => max (frames n) (framesAll ns)

end

mutual

/-- A tree is drawn exactly if the host has the frames for it, and then the drawing is its graph. -/
theorem drawFrom_eq : ∀ (n : Node) (room id : Nat),
    drawFrom room id n = fitting n.frames room (graphFrom id n)
  | .unary _ _ a, room, id | .binding _ _ a, room, id | .expression _ a, room, id => by
    rw [drawFrom, frames, graphFrom]
    refine placed_eq fun hroom => ?_
    rw [drawFrom_eq a, fitting_sub (Nat.le_trans (by decide) hroom), fitting_map]
  | .binary _ a _ b, room, id | .index _ a b, room, id => by
    rw [drawFrom, frames, graphFrom]
    refine placed_eq fun hroom => ?_
    have hsub : 3 ≤ room := Nat.le_trans (by decide) hroom
    rw [drawFrom_eq a, fitting_sub hsub]
    refine fitting_bind ?_
    dsimp only
    rw [drawFrom_eq b, fitting_sub hsub, fitting_bind_pure]
  | .tuple _ es, room, id | .block _ es, room, id | .program _ es, room, id => by
    rw [drawFrom, frames, graphFrom]
    refine placed_eq fun hroom => ?_
    rw [drawBelow_eq es, fitting_sub (Nat.le_trans (by decide) hroom)]
  | .call _ f es, room, id => by
    rw [drawFrom, frames, graphFrom]
    refine placed_eq fun hroom => ?_
    have hsub : 3 ≤ room := Nat.le_trans (by decide) hroom
    rw [drawFrom_eq f, fitting_sub hsub]
    refine fitting_bind ?_
    rw [drawArguments_eq es, fitting_sub (Nat.le_of_succ_le hsub), fitting_bind_pure]
  | .literal s v, room, id => by
    rw [drawFrom, frames, graphFrom]
    by_cases hshort : room < 2 + v.frames
    · rw [if_pos hshort, fitting, if_neg fun hmax => Nat.not_lt.2 (Nat.max_le.1 hmax).2 hshort]
    · rw [if_neg hshort]
      exact placed_eq fun _ => (if_pos (Nat.not_lt.1 hshort)).symm
  | .name _ _, room, id | .path _ _ _, room, id | .use _ _ _ _, room, id | .blank _ _, room, id => by
    rw [drawFrom, frames, graphFrom]
    exact placed_eq fun _ => (fitting_zero room _).symm

theorem drawBelow_eq : ∀ (cs : List Node) (room parent id : Nat),
    drawBelow room parent id cs = fitting (framesAll cs) room (graphBelow parent id cs)
  | [], room, _, _ => (fitting_zero room _).symm
  | c :: cs, room, parent, id => by
    rw [drawBelow, framesAll, graphBelow, drawFrom_eq c]
    refine fitting_bind ?_
    rw [drawBelow_eq cs, fitting_bind_pure]

theorem drawArguments_eq : ∀ (es : List Node) (room parent id position : Nat),
    drawArguments room parent id position es =
      fitting (framesAll es) room (graphArguments parent id position es)
  | [], room, _, _, _ => (fitting_zero room _).symm
  | e :: es, room, parent, id, position => by
    rw [drawArguments, framesAll, graphArguments, drawFrom_eq e]
    refine fitting_bind ?_
    dsimp only
    rw [drawArguments_eq es, fitting_bind_pure]

end

end Node

end Scriptlet
