import Lox.Scope.Resolution

/-!
# Distances

The distances of all mentions of local names in a session, by the number of the mention. A mention
without a distance is global.
-/

namespace Lox

/-- The distance of the mention with number `n` stands in place `n`. -/
structure Distances where
  entries : Array (Option Nat)
deriving Inhabited

namespace Distances

def empty : Distances := ⟨#[]⟩

def find? (d : Distances) (mention : Nat) : Option Nat := d.entries[mention]?.join

/-- Gives a mention a distance, in place of the one it had. -/
def insert (d : Distances) (mention distance : Nat) : Distances :=
  let missing := mention + 1 - d.entries.size
  ⟨(d.entries ++ Array.replicate missing none).setIfInBounds mention (some distance)⟩

/-- Adds what resolution found. -/
def addAll (d : Distances) (bindings : List Binding) : Distances :=
  bindings.foldl (fun d b => d.insert b.mention.id b.distance) d

@[simp] theorem find?_empty (mention : Nat) : empty.find? mention = none := by
  simp [find?, empty]

theorem find?_insert (d : Distances) (mention other distance : Nat) :
    (d.insert mention distance).find? other =
      if mention = other then some distance else d.find? other := by
  simp only [find?, insert, Array.getElem?_setIfInBounds, Array.size_append, Array.size_replicate]
  by_cases h : mention = other
  · have hsize : other < d.entries.size + (other + 1 - d.entries.size) := by omega
    simp [h, hsize]
  · simp only [h, if_false, Array.getElem?_append, Array.getElem?_replicate]
    by_cases hsize : other < d.entries.size
    · simp [hsize]
    · have hnone : d.entries[other]? = none := by simp; omega
      simp only [hsize, hnone, if_false]
      split <;> rfl

end Distances

end Lox
