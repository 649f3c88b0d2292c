import Mathlib.Data.List.Basic

/-! # A stored value with a queue of writes

Writes to a `Cell` are stored one after the other, in the order in which they were issued. A read
finds the last value issued, whether it is stored or not; what has not been stored when the program
ends is lost. -/

namespace KamuSinavi.Lib

/-- What is stored, and the writes on their way, the oldest first. -/
structure Cell (β : Type*) where
  stored : β
  issued : List β
  deriving DecidableEq

namespace Cell

variable {β : Type*}

/-- The value a read finds. -/
def read (c : Cell β) : β := c.issued.getLast?.getD c.stored

/-- A write is issued. -/
def write (c : Cell β) (b : β) : Cell β := { c with issued := c.issued ++ [b] }

/-- The oldest write is stored. -/
def store (c : Cell β) : Option (Cell β) :=
  match c.issued with
  | [] => none
  | b :: bs => some { stored := b, issued := bs }

/-- The writes on their way are lost. -/
def lose (c : Cell β) : Cell β := { c with issued := [] }

@[simp] theorem read_write (c : Cell β) (b : β) : (c.write b).read = b := by
  simp [read, write]

theorem read_of_issued_nil {c : Cell β} (h : c.issued = []) : c.read = c.stored := by
  rw [read, h]; rfl

theorem read_lose {c : Cell β} (h : c.issued = []) : c.lose.read = c.read := by
  rw [read_of_issued_nil h]; rfl

/-- Storing a write does not change what a read finds. -/
theorem read_store {c d : Cell β} (h : c.store = some d) : d.read = c.read := by
  obtain ⟨stored, issued⟩ := c
  cases issued with
  | nil => cases h
  | cons b bs =>
    obtain rfl := Option.some.inj h
    cases bs with
    | nil => rfl
    | cons b' bs =>
      have hlast := List.getLast?_eq_some_getLast (List.cons_ne_nil b' bs)
      simp only [read, List.getLast?_cons_cons, hlast, Option.getD_some]

end Cell

end KamuSinavi.Lib
