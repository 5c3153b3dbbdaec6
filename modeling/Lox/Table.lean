/-!
# Tables

A table maps names to values and keeps the order in which the names were first inserted. What is
looked up is the last value inserted (`find?_insert`).
-/

namespace Lox

structure Table (α : Type) where
  entries : List (String × α)
deriving Inhabited

namespace Table

variable {α : Type}

def empty : Table α := ⟨[]⟩

/-- The value of a name in a list of pairs. -/
def findIn (name : String) : List (String × α) → Option α
  | [] => none
  | (key, value) :: rest => if key = name then some value else findIn name rest

/-- The list of pairs in which the name has the given value. -/
def insertInto (name : String) (value : α) : List (String × α) → List (String × α)
  | [] => [(name, value)]
  | (key, old) :: rest =>
    if key = name then (name, value) :: rest else (key, old) :: insertInto name value rest

/-- The value of a name, if it has one. -/
def find? (t : Table α) (name : String) : Option α := findIn name t.entries

def contains (t : Table α) (name : String) : Bool := (t.find? name).isSome

/-- Gives the name a value, in place of the one it had. -/
def insert (t : Table α) (name : String) (value : α) : Table α :=
  ⟨insertInto name value t.entries⟩

/-- Inserts a list of pairs from left to right. -/
def insertAll (t : Table α) (pairs : List (String × α)) : Table α :=
  pairs.foldl (fun t (name, value) => t.insert name value) t

/-- The pairs in ascending order of their names. -/
def sorted (t : Table α) : List (String × α) :=
  t.entries.mergeSort fun (a, _) (b, _) => a ≤ b

@[simp] theorem find?_empty (name : String) : (empty : Table α).find? name = none := rfl

theorem find?_insert (t : Table α) (name other : String) (value : α) :
    (t.insert name value).find? other = if name = other then some value else t.find? other := by
  obtain ⟨entries⟩ := t
  simp only [find?, insert]
  induction entries with
  | nil => rfl
  | cons entry rest ih =>
    obtain ⟨key, old⟩ := entry
    by_cases hkey : key = name
    · subst hkey
      by_cases hother : key = other <;> simp [insertInto, findIn, hother]
    · by_cases hother : key = other
      · subst hother
        simp [insertInto, findIn, hkey, Ne.symm hkey]
      · simp [insertInto, findIn, hkey, hother, ih]

@[simp] theorem find?_insert_self (t : Table α) (name : String) (value : α) :
    (t.insert name value).find? name = some value := by
  simp [find?_insert]

theorem find?_insert_of_ne (t : Table α) {name other : String} (value : α) (h : name ≠ other) :
    (t.insert name value).find? other = t.find? other := by
  simp [find?_insert, h]

theorem contains_insert (t : Table α) (name other : String) (value : α) :
    (t.insert name value).contains other = (decide (name = other) || t.contains other) := by
  by_cases h : name = other <;> simp [contains, find?_insert, h]

end Table

end Lox
