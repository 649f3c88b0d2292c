import KamuSinavi.Lib.Runs
import Mathlib.Data.List.Perm.Basic

/-! # Running calls

A list of running calls, one of which goes on (`List.set`) or ends (`List.eraseIdx`). The others stay;
if there is one of a kind before, it is the call itself or is there after.

`Suspending` says of a system that its steps let such calls go on with the outcome of what they await.
`Suspending.run_last` follows the last call through the outcomes of a run in which nothing else
happens. -/

namespace KamuSinavi.Lib.Calls

open Runs

variable {α : Type*} {l : List α} {k : ℕ} {c d : α}

/-- A call is the one that goes on, or is left alone. -/
theorem eq_or_mem_set (hc : l[k]? = some c) (b : α) (hd : d ∈ l) : d = c ∨ d ∈ l.set k b := by
  obtain ⟨i, hi⟩ := List.mem_iff_getElem?.mp hd
  by_cases h : k = i
  · subst h
    rw [hc] at hi
    exact Or.inl (Option.some.inj hi).symm
  · exact Or.inr (List.mem_iff_getElem?.mpr ⟨i, by rw [List.getElem?_set_ne h, hi]⟩)

/-- The call that goes on is there. -/
theorem mem_set_self (hc : l[k]? = some c) (b : α) : b ∈ l.set k b :=
  List.mem_set (List.getElem?_eq_some_iff.mp hc).1 b

/-- A call is the one that ends, or is left alone. -/
theorem eq_or_mem_eraseIdx (hc : l[k]? = some c) (hd : d ∈ l) : d = c ∨ d ∈ l.eraseIdx k := by
  obtain ⟨i, hi⟩ := List.mem_iff_getElem?.mp hd
  by_cases h : i = k
  · subst h
    rw [hc] at hi
    exact Or.inl (Option.some.inj hi).symm
  · exact Or.inr (List.mem_eraseIdx_iff_getElem?.mpr ⟨i, h, hi⟩)

/-- The calls are the one that ends and those left. -/
theorem perm_cons_eraseIdx (hc : l[k]? = some c) : l.Perm (c :: l.eraseIdx k) := by
  obtain ⟨hk, rfl⟩ := List.getElem?_eq_some_iff.mp hc
  exact (List.getElem_cons_eraseIdx_perm hk).symm

/-- The calls after one has gone on are its next state and those left. -/
theorem set_perm (hc : l[k]? = some c) (b : α) : (l.set k b).Perm (b :: l.eraseIdx k) :=
  List.set_perm_cons_eraseIdx (List.getElem?_eq_some_iff.mp hc).1 b

/-- The calls of a kind when one has gone on. -/
theorem countP_set (hc : l[k]? = some c) (b : α) (P : α → Bool) :
    (l.set k b).countP P + (if P c then 1 else 0) = l.countP P + if P b then 1 else 0 := by
  rw [(set_perm hc b).countP_eq, (perm_cons_eraseIdx hc).countP_eq P, List.countP_cons,
    List.countP_cons]
  omega

/-- What holds of all calls and of the next state of one holds of all when it has gone on. -/
theorem forall_mem_set {P : α → Prop} {b : α} (h : ∀ d ∈ l, P d) (hb : P b) :
    ∀ d ∈ l.set k b, P d :=
  fun d hd => (List.mem_or_eq_of_mem_set hd).elim (h d) fun e => e ▸ hb

/-- What holds of all calls holds of those left. -/
theorem forall_mem_eraseIdx {P : α → Prop} (h : ∀ d ∈ l, P d) : ∀ d ∈ l.eraseIdx k, P d :=
  fun d hd => h d (List.mem_of_mem_eraseIdx hd)

/-- Anything holds of all calls when there is none. -/
theorem forall_mem_of_nil {P : α → Prop} (h : l = []) : ∀ d ∈ l, P d :=
  fun _ hd => absurd (h ▸ hd) List.not_mem_nil

/-- What holds of all calls and of a new one holds of all when it has been made. -/
theorem forall_mem_concat {P : α → Prop} {b : α} (h : ∀ d ∈ l, P d) (hb : P b) :
    ∀ d ∈ l ++ [b], P d :=
  fun d hd => (List.mem_append.mp hd).elim (h d) fun e => List.mem_singleton.mp e ▸ hb

/-! ### Letting a call go on -/

variable {σ κ ο : Type*}

/-- **A system with running calls**: `next k o` lets the `k`-th one go on with the outcome `o`, to what
it awaits then or to its end. -/
structure Suspending (step : σ → α → Option σ) (next : ℕ → ο → α) (calls : σ → List κ)
    (put : σ → List κ → σ) (resume : σ → κ → ο → Option (σ × Option κ)) : Prop where
  step_next : ∀ s k o, step s (next k o) = (calls s)[k]?.bind fun c => (resume s c o).map fun r =>
    put r.1 (r.2.elim ((calls s).eraseIdx k) fun c' => (calls s).set k c')
  calls_put : ∀ s cs, calls (put s cs) = cs

namespace Suspending

variable {step : σ → α → Option σ} {next : ℕ → ο → α} {calls : σ → List κ} {put : σ → List κ → σ}
  {resume : σ → κ → ο → Option (σ × Option κ)} (hS : Suspending step next calls put resume)
include hS

/-- The last call goes on. -/
theorem step_last (u : σ) (c : κ) (o : ο) :
    step (put u (calls u ++ [c])) (next (calls u).length o) =
      (resume (put u (calls u ++ [c])) c o).map fun r => put r.1 (calls u ++ r.2.toList) := by
  rw [hS.step_next, hS.calls_put, List.getElem?_concat_length, Option.bind_some]
  refine congrArg (Option.map · _) (funext fun r => congrArg (put r.1) ?_)
  rcases r.2 with _ | c'
  · simp [List.eraseIdx_append_of_length_le]
  · simp

/-- When the last call has ended there is none to go on. -/
theorem run_ended {s t : σ} {os : List ο} {k : ℕ} (hk : (calls s).length = k)
    (h : run step s (os.map (next k)) = some t) : os = [] ∧ t = s := by
  cases os with
  | nil => exact ⟨rfl, (Option.some.inj h).symm⟩
  | cons o os =>
    have hnone : (calls s)[k]? = none := List.getElem?_eq_none_iff.mpr (Nat.le_of_eq hk)
    rw [List.map_cons, run_cons, hS.step_next, hnone] at h
    cases h

/-- **The last call has an outcome, with which it ends or goes on.** -/
theorem run_last {u t : σ} {c : κ} {os : List ο}
    (h : run step (put u (calls u ++ [c])) (os.map (next (calls u).length)) = some t)
    (hend : calls t = calls u) :
    ∃ o os' v n, os = o :: os' ∧ resume (put u (calls u ++ [c])) c o = some (v, n) ∧
      (n = none ∧ os' = [] ∧ t = put v (calls u) ∨
        ∃ c', n = some c' ∧
          run step (put v (calls u ++ [c'])) (os'.map (next (calls u).length)) = some t) := by
  cases os with
  | nil =>
    obtain rfl := Option.some.inj h
    rw [hS.calls_put] at hend
    exact absurd hend (by simp)
  | cons o os =>
    rw [List.map_cons, run_cons, hS.step_last] at h
    obtain ⟨x, hx, h⟩ := Option.bind_eq_some_iff.mp h
    obtain ⟨⟨v, n⟩, hr, rfl⟩ := Option.map_eq_some_iff.mp hx
    refine ⟨o, os, v, n, rfl, hr, ?_⟩
    cases n with
    | none =>
      rw [Option.toList_none, List.append_nil] at h
      obtain ⟨rfl, rfl⟩ := hS.run_ended (congrArg List.length (hS.calls_put v (calls u))) h
      exact Or.inl ⟨rfl, rfl, rfl⟩
    | some c' => exact Or.inr ⟨c', rfl, h⟩

/-- The last call goes on or ends, and the run goes on. -/
theorem run_next {u v : σ} {c : κ} {o : ο} {n : Option κ} {as : List α}
    (h : resume (put u (calls u ++ [c])) c o = some (v, n)) :
    run step (put u (calls u ++ [c])) (next (calls u).length o :: as) =
      run step (put v (calls u ++ n.toList)) as := by
  rw [run_cons, hS.step_last, h, Option.map_some, Option.bind_some]

end Suspending

end KamuSinavi.Lib.Calls
