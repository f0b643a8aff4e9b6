/-!
# Slots

Values by small numbers that are given out elsewhere.  Slots start empty and grow
on demand.
-/

namespace Boxlang

structure Slots (α : Type) where
  cells : Array (Option α) := #[]
  deriving Inhabited

namespace Slots

variable {α : Type}

def ofSize (n : Nat) : Slots α where
  cells := Array.replicate n none

def size (s : Slots α) : Nat :=
  s.cells.size

def isEmpty (s : Slots α) : Bool :=
  s.cells.isEmpty

def get? (s : Slots α) (i : Nat) : Option α :=
  s.cells[i]?.join

/-- The slots, as many more as it takes for slot `i` to be there. -/
def grow (s : Slots α) (i : Nat) : Array (Option α) :=
  s.cells ++ Array.replicate (i + 1 - s.cells.size) none

def set (s : Slots α) (i : Nat) (a : α) : Slots α where
  cells := (s.grow i).set! i (some a)

@[simp]
theorem get?_ofSize (n i : Nat) : (ofSize n : Slots α).get? i = none := by
  simp only [ofSize, get?, Array.getElem?_replicate]
  split <;> rfl

theorem get?_set_self (s : Slots α) (i : Nat) (a : α) : (s.set i a).get? i = some a := by
  have h : i < (s.grow i).size := by
    simp [grow]
    omega
  simp [set, get?, h]

theorem get?_set_of_ne (s : Slots α) {i j : Nat} (h : j ≠ i) (a : α) :
    (s.set i a).get? j = s.get? j := by
  simp only [set, get?, grow, Array.set!_eq_setIfInBounds,
    Array.getElem?_setIfInBounds_ne (Ne.symm h), Array.getElem?_append]
  split
  next => rfl
  next hj =>
    rw [Array.getElem?_eq_none (Nat.le_of_not_lt hj), Array.getElem?_replicate]
    split <;> rfl

end Slots

end Boxlang
