/-!
# Sets of code points as range tables

A Unicode property is given by the list of its code point ranges, both ends included.
-/

namespace Scriptlet

/-- Code points from the first component to the second, both included. -/
abbrev CodeRange := Nat × Nat

namespace CodeRange

/-- Does `c` lie in one of the ranges of `table`? -/
def holds (table : List CodeRange) (c : Char) : Bool :=
  table.any fun r => r.1 ≤ c.toNat && c.toNat ≤ r.2

theorem holds_iff {table : List CodeRange} {c : Char} :
    holds table c = true ↔ ∃ r ∈ table, r.1 ≤ c.toNat ∧ c.toNat ≤ r.2 := by
  simp [holds]

end CodeRange

end Scriptlet
