import KamuSinavi.Lib.Cell
import KamuSinavi.Lib.Runs
import Mathlib.Data.List.Infix
import Mathlib.Logic.Function.Basic

/-! # Stored values with one queue of writes

A `Cells` stores a value for each key. Writes for all keys are stored one after the other, in the order
in which they were issued, so that each key alone is a `Cell` (`cell`). A component that uses one key
is run on its cell, and what it has issued there is adopted (`adopt`).

`stored_moment` is about systems whose steps use their cells in these ways: what is stored, and so what
is left when the writes on their way are lost, is for all keys what reads found at one moment. -/

namespace KamuSinavi.Lib

open Runs

/-- What is stored for each key, and the writes on their way, the oldest first. -/
structure Cells {κ : Type*} (β : κ → Type*) where
  stored : (k : κ) → β k
  issued : List ((k : κ) × β k)

namespace Cells

variable {κ : Type*} [DecidableEq κ] {β : κ → Type*}

/-- The value of a write, if it is one for the key. -/
def valueOf (k : κ) (e : (k : κ) × β k) : Option (β k) :=
  if h : e.1 = k then some (h ▸ e.2) else none

/-- The cell of a key. -/
def cell (c : Cells β) (k : κ) : Cell (β k) where
  stored := c.stored k
  issued := c.issued.filterMap (valueOf k)

/-- A write is issued. -/
def write (c : Cells β) (k : κ) (b : β k) : Cells β := { c with issued := c.issued ++ [⟨k, b⟩] }

/-- The oldest write is stored. -/
def store (c : Cells β) : Option (Cells β) :=
  match c.issued with
  | [] => none
  | e :: es => some { stored := Function.update c.stored e.1 e.2, issued := es }

/-- The writes on their way are lost. -/
def lose (c : Cells β) : Cells β := { c with issued := [] }

/-- What has been issued in the cell of a key is issued. -/
def adopt (c : Cells β) (k : κ) (d : Cell (β k)) : Cells β :=
  { c with issued := c.issued ++ (d.issued.drop (c.cell k).issued.length).map fun b => ⟨k, b⟩ }

variable {c d : Cells β} {k j : κ}

/-! ### What becomes of a cell -/

@[simp] theorem valueOf_self (b : β k) : valueOf k ⟨k, b⟩ = some b := dif_pos rfl

theorem valueOf_of_ne (h : j ≠ k) (b : β j) : valueOf k ⟨j, b⟩ = none := dif_neg h

@[simp] theorem cell_write_self (c : Cells β) (k : κ) (b : β k) :
    (c.write k b).cell k = (c.cell k).write b := by
  unfold write cell Cell.write
  simp

theorem cell_write_of_ne (h : j ≠ k) (c : Cells β) (b : β j) : (c.write j b).cell k = c.cell k := by
  unfold write cell
  simp [valueOf_of_ne h]

@[simp] theorem cell_lose (c : Cells β) (k : κ) : c.lose.cell k = (c.cell k).lose := rfl

/-- **A write that is stored is stored in its cell**, and in no other. -/
theorem cell_store (h : c.store = some d) (k : κ) :
    d.cell k = c.cell k ∨ (c.cell k).store = some (d.cell k) := by
  obtain ⟨stored, issued⟩ := c
  cases issued with
  | nil => cases h
  | cons e es =>
    obtain rfl := Option.some.inj h
    obtain ⟨j, b⟩ := e
    by_cases hj : j = k
    · subst hj
      refine Or.inr ?_
      unfold cell Cell.store
      simp
    · refine Or.inl ?_
      have hk : k ≠ j := fun he => hj he.symm
      unfold cell
      simp [valueOf_of_ne hj, Function.update_of_ne hk]

theorem issued_cell_of_nil (h : c.issued = []) (k : κ) : (c.cell k).issued = [] := by
  unfold cell
  rw [h]
  rfl

/-- A component that has issued nothing. -/
theorem adopt_cell (c : Cells β) (k : κ) : c.adopt k (c.cell k) = c := by
  unfold adopt
  rw [List.drop_length, List.map_nil, List.append_nil]

/-- A component that has issued one write. -/
theorem adopt_write (c : Cells β) (k : κ) (b : β k) : c.adopt k ((c.cell k).write b) = c.write k b := by
  unfold adopt write Cell.write
  rw [List.drop_left]
  rfl

/-! ### What is stored is what was once read -/

/-- **What a step does with the cells**: nothing, issue or store a write, or lose those on their
way. -/
inductive Uses (c : Cells β) : Cells β → Prop
  | same : Uses c c
  | write (k : κ) (b : β k) : Uses c (c.write k b)
  | store {d : Cells β} (h : c.store = some d) : Uses c d
  | lose : Uses c c.lose

/-- **A component that has issued at most one write** has used its cell, and no other. -/
theorem uses_adopt {e : Cell (β k)} (h : e = c.cell k ∨ ∃ b, e = (c.cell k).write b) :
    Uses c (c.adopt k e) ∧ (c.adopt k e).cell k = e ∧ ∀ j, j ≠ k → (c.adopt k e).cell j = c.cell j := by
  rcases h with rfl | ⟨b, rfl⟩
  · rw [adopt_cell]
    exact ⟨.same, rfl, fun _ _ => rfl⟩
  · rw [adopt_write]
    exact ⟨.write k b, cell_write_self c k b, fun j hj => cell_write_of_ne (Ne.symm hj) c b⟩

/-- What is stored when the first `n` writes have been. -/
def after (c : Cells β) (n : ℕ) : (k : κ) → β k :=
  (c.issued.take n).foldl (fun m e => Function.update m e.1 e.2) c.stored

theorem after_write_of_le (c : Cells β) (k : κ) (b : β k) {n : ℕ} (hn : n ≤ c.issued.length) :
    (c.write k b).after n = c.after n := by
  unfold after write
  rw [List.take_append_of_le_length hn]

theorem after_store (h : c.store = some d) (n : ℕ) :
    d.after n = c.after (n + 1) ∧ c.issued.length = d.issued.length + 1 := by
  obtain ⟨stored, issued⟩ := c
  cases issued with
  | nil => cases h
  | cons e es =>
    obtain rfl := Option.some.inj h
    exact ⟨rfl, rfl⟩

/-- **When all writes have been stored, what is stored is what is read.** -/
theorem after_length (c : Cells β) (k : κ) : c.after c.issued.length k = (c.cell k).read := by
  obtain ⟨stored, issued⟩ := c
  unfold after
  rw [List.take_length]
  induction issued generalizing stored with
  | nil => rfl
  | cons e es ih =>
    have hstore : Cells.store ⟨stored, e :: es⟩ = some ⟨Function.update stored e.1 e.2, es⟩ := rfl
    have hread : (cell ⟨Function.update stored e.1 e.2, es⟩ k).read = (cell ⟨stored, e :: es⟩ k).read := by
      rcases cell_store hstore k with heq | hcell
      · rw [heq]
      · exact Cell.read_store hcell
    rw [← hread]
    exact ih _

variable {σ α : Type*} {step : σ → α → Option σ} {cells : σ → Cells β}

/-- What is stored when the first `n` writes have been is what all reads found at a moment of the
run. -/
def Moments (step : σ → α → Option σ) (cells : σ → Cells β) (s : σ) (as : List α) (t : σ) : Prop :=
  ∀ n ≤ (cells t).issued.length, ∃ as' u, as' <+: as ∧ run step s as' = some u ∧
    ∀ k, (cells t).after n k = ((cells u).cell k).read

theorem moments_step (huses : ∀ s a t, step s a = some t → Uses (cells s) (cells t)) {s t u : σ}
    {as : List α} {a : α} (ht : run step s as = some t) (hJ : Moments step cells s as t)
    (hu : step t a = some u) : Moments step cells s (as ++ [a]) u := by
  have hold : ∀ n ≤ (cells t).issued.length, ∃ as' v, as' <+: as ++ [a] ∧ run step s as' = some v ∧
      ∀ k, (cells t).after n k = ((cells v).cell k).read := by
    intro n hn
    obtain ⟨as', v, hpre, hv, hread⟩ := hJ n hn
    exact ⟨as', v, hpre.trans (List.prefix_append _ _), hv, hread⟩
  have hnow : run step s (as ++ [a]) = some u := by
    rw [run_append, ht, Option.bind_some, run_singleton, hu]
  have hstep := huses t a u hu
  intro n hn
  generalize hd : cells u = d at hstep hn ⊢
  cases hstep with
  | same => exact hold n hn
  | write k b =>
    rcases Nat.lt_or_ge (cells t).issued.length n with hlt | hle
    · -- all writes have been stored
      have hlen : ((cells t).write k b).issued.length = n := by
        unfold write at hn ⊢
        rw [List.length_append, List.length_singleton] at hn ⊢
        omega
      refine ⟨as ++ [a], u, List.prefix_rfl, hnow, fun j => ?_⟩
      rw [hd, ← hlen]
      exact after_length _ j
    · rw [after_write_of_le _ _ _ hle]
      exact hold n hle
  | store h =>
    obtain ⟨hafter, hlen⟩ := after_store h n
    rw [hafter]
    exact hold (n + 1) (by omega)
  | lose =>
    obtain rfl : n = 0 := Nat.le_zero.mp hn
    exact hold 0 (Nat.zero_le _)

/-- **What is stored is what all reads found at one moment of the run**, if at its start no write is on
its way. -/
theorem stored_moment (cells : σ → Cells β)
    (huses : ∀ s a t, step s a = some t → Uses (cells s) (cells t)) {s t : σ}
    (hidle : (cells s).issued = []) {as : List α} (h : run step s as = some t) :
    ∃ as' u, as' <+: as ∧ run step s as' = some u ∧
      ∀ k, (cells t).stored k = ((cells u).cell k).read := by
  have hstart : Moments step cells s [] s := by
    intro n hn
    rw [hidle] at hn
    obtain rfl : n = 0 := Nat.le_zero.mp hn
    refine ⟨[], s, List.prefix_rfl, rfl, fun k => ?_⟩
    rw [Cell.read_of_issued_nil (issued_cell_of_nil hidle k)]
    rfl
  exact run_history hstart (fun _ _ _ _ ht hJ hu => moments_step huses ht hJ hu) h 0 (Nat.zero_le _)

end Cells

end KamuSinavi.Lib
