/-!
# Insertion-ordered maps

A map from names is the list of its entries in the order in which their names first came in. `put`
keeps the place of a name that is already there.

* `get?_put_self`, `get?_put_of_ne` — `put` changes the map at its name and nowhere else.
* `mem_of_get?` — what is found is an entry.
* `keys_put` — `put` adds its name at the end if it is new.
-/

namespace Scriptlet

/-- Entries in insertion order. -/
abbrev Assoc (α : Type) := List (String × α)

namespace Assoc

variable {α : Type}

/-- The entry at `name`. -/
def get? (m : Assoc α) (name : String) : Option α :=
  match m with
  | [] => none
  | (key, a) :: rest => if name = key then some a else get? rest name

/-- The names of the entries, oldest first. -/
def keys (m : Assoc α) : List String := m.map (·.1)

/-- Sets the entry at `name`. -/
def put (m : Assoc α) (name : String) (a : α) : Assoc α :=
  match m with
  | [] => [(name, a)]
  | (key, b) :: rest => if key = name then (key, a) :: rest else (key, b) :: put rest name a

/-- The map of a list of entries; of two entries of one name the later counts. -/
def ofList (entries : List (String × α)) : Assoc α :=
  entries.foldl (fun m e => m.put e.1 e.2) []

@[simp] theorem get?_nil (name : String) : get? ([] : Assoc α) name = none := rfl

theorem get?_cons (key name : String) (b : α) (m : Assoc α) :
    get? ((key, b) :: m) name = if name = key then some b else get? m name := rfl

theorem mem_of_get? {m : Assoc α} {name : String} {a : α} (h : m.get? name = some a) :
    (name, a) ∈ m := by
  induction m with
  | nil => cases h
  | cons e m ih =>
    obtain ⟨key, b⟩ := e
    rw [get?_cons] at h
    by_cases hname : name = key
    · rw [if_pos hname] at h
      cases h
      exact hname ▸ List.mem_cons_self
    · rw [if_neg hname] at h
      exact List.mem_cons_of_mem _ (ih h)

@[simp] theorem get?_put_self (m : Assoc α) (name : String) (a : α) :
    (m.put name a).get? name = some a := by
  induction m with
  | nil => simp [put, get?_cons]
  | cons e m ih =>
    obtain ⟨key, b⟩ := e
    by_cases h : key = name
    · simp [put, h, get?_cons]
    · simp [put, h, get?_cons, ih, Ne.symm h]

theorem get?_put_of_ne (m : Assoc α) {name other : String} (a : α) (h : other ≠ name) :
    (m.put name a).get? other = m.get? other := by
  induction m with
  | nil => simp [put, get?_cons, h]
  | cons e m ih =>
    obtain ⟨key, b⟩ := e
    by_cases hk : key = name
    · subst hk; simp [put, get?_cons, h]
    · simp [put, hk, get?_cons, ih]

theorem eq_or_get?_of_put {m : Assoc α} {name other : String} {a b : α}
    (h : (m.put name a).get? other = some b) : (other = name ∧ b = a) ∨ m.get? other = some b := by
  by_cases hother : other = name
  · subst hother
    rw [get?_put_self] at h
    exact .inl ⟨rfl, (Option.some.inj h).symm⟩
  · rw [get?_put_of_ne m a hother] at h
    exact .inr h

theorem keys_put (m : Assoc α) (name : String) (a : α) :
    (m.put name a).keys = if name ∈ m.keys then m.keys else m.keys ++ [name] := by
  induction m with
  | nil => simp [put, keys]
  | cons e m ih =>
    obtain ⟨key, b⟩ := e
    simp only [keys] at ih
    by_cases hk : key = name
    · subst hk; simp [put, keys]
    · by_cases hm : name ∈ m.map (·.1) <;> simp_all [put, keys, Ne.symm hk]

end Assoc

end Scriptlet
