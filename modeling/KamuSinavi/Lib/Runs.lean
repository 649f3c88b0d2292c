import Mathlib.Data.List.Basic
import Mathlib.Data.List.Induction
import Mathlib.Order.Basic

/-! # Runs of a system that is stepped by actions

A system is given by a partial function `step : σ → α → Option σ`: `step s a` is the state after the
action `a`, and `none` if `a` is not enabled in `s`. Whatever the system does not decide itself (what
a user does, in which order calls resume, whether a call fails) is part of the action, so a run is a
list of actions.

* `EachStep step Q s as`: every step of the run of `as` from `s` satisfies `Q`, a relation between
  the state before, the action and the state after.
* `Along step C s as`: every step is taken from a state and by an action with `C`.
* `Always step P s as`: `P` holds in every state the run visits.

The rules reduce these to facts about one step: `eachStep_of_along` and `always_of_along` carry an
invariant along the runs that meet a condition, `eachStep_iff_along` and `always_iff_along` say that
a run is good exactly if its steps meet the condition. `ReachedAlong.concat` takes the steps of a larger
system to runs of its parts. -/

namespace KamuSinavi.Lib.Runs

variable {σ α : Type*}

/-- The state after the actions `as`, if each of them is enabled when its turn comes. -/
def run (step : σ → α → Option σ) : σ → List α → Option σ
  | s, [] => some s
  | s, a :: as => (step s a).bind fun t => run step t as

/-- Every step of the run satisfies `Q`. -/
def EachStep (step : σ → α → Option σ) (Q : σ → α → σ → Prop) : σ → List α → Prop
  | _, [] => True
  | s, a :: as => match step s a with
    | none => True
    | some t => Q s a t ∧ EachStep step Q t as

/-- Every step of the run is taken from a state and by an action with `C`. -/
def Along (step : σ → α → Option σ) (C : σ → α → Prop) (s : σ) (as : List α) : Prop :=
  EachStep step (fun s a _ => C s a) s as

/-- `P` holds in every state of the run, the first one included. -/
def Always (step : σ → α → Option σ) (P : σ → Prop) (s : σ) (as : List α) : Prop :=
  P s ∧ EachStep step (fun _ _ t => P t) s as

variable {step : σ → α → Option σ}

@[simp] theorem run_nil (s : σ) : run step s [] = some s := rfl

theorem run_cons (s : σ) (a : α) (as : List α) :
    run step s (a :: as) = (step s a).bind fun t => run step t as := rfl

theorem run_append (s : σ) (as bs : List α) :
    run step s (as ++ bs) = (run step s as).bind fun t => run step t bs := by
  induction as generalizing s with
  | nil => rfl
  | cons a as ih =>
    rw [List.cons_append, run_cons, run_cons, Option.bind_assoc]
    exact congrArg _ (funext ih)

theorem run_singleton (s : σ) (a : α) : run step s [a] = step s a := Option.bind_fun_some _

theorem eachStep_cons {Q : σ → α → σ → Prop} {s t : σ} {a : α} {as : List α}
    (h : step s a = some t) :
    EachStep step Q s (a :: as) ↔ Q s a t ∧ EachStep step Q t as := by
  simp only [EachStep, h]

theorem eachStep_cons_none {Q : σ → α → σ → Prop} {s : σ} {a : α} {as : List α}
    (h : step s a = none) : EachStep step Q s (a :: as) := by
  simp only [EachStep, h]

instance decidableEachStep {Q : σ → α → σ → Prop} [∀ s a t, Decidable (Q s a t)] :
    ∀ (s : σ) (as : List α), Decidable (EachStep step Q s as)
  | _, [] => isTrue trivial
  | s, a :: as =>
    match h : step s a with
    | none => isTrue (eachStep_cons_none h)
    | some t =>
      have := decidableEachStep (Q := Q) t as
      decidable_of_iff (Q s a t ∧ EachStep step Q t as) (eachStep_cons h).symm

instance {C : σ → α → Prop} [∀ s a, Decidable (C s a)] (s : σ) (as : List α) :
    Decidable (Along step C s as) :=
  inferInstanceAs (Decidable (EachStep step (fun s a _ => C s a) s as))

instance {P : σ → Prop} [DecidablePred P] (s : σ) (as : List α) :
    Decidable (Always step P s as) :=
  inferInstanceAs (Decidable (P s ∧ EachStep step (fun _ _ t => P t) s as))

/-! ### Invariants -/

/-- **The invariant rule**: what the steps that meet `C` keep holds at the end of every run along
`C`. -/
theorem run_inv {J : σ → Prop} {C : σ → α → Prop}
    (hstep : ∀ s a t, J s → C s a → step s a = some t → J t) :
    ∀ {as : List α} {s t : σ}, J s → Along step C s as → run step s as = some t → J t
  | [], s, t, hJ, _, h => by
    simp only [run_nil, Option.some.injEq] at h
    exact h ▸ hJ
  | a :: as, s, t, hJ, hC, h => by
    rw [run_cons] at h
    obtain ⟨s', hs', ht⟩ := Option.bind_eq_some_iff.mp h
    rw [Along, eachStep_cons hs'] at hC
    exact run_inv hstep (hstep s a s' hJ hC.1 hs') hC.2 ht

/-- **The conditional rule**: if the steps that meet `C` keep `J` and satisfy `Q`, then every step of
a run along `C` satisfies `Q`. -/
theorem eachStep_of_along {J : σ → Prop} {C : σ → α → Prop} {Q : σ → α → σ → Prop}
    (hstep : ∀ s a t, J s → C s a → step s a = some t → J t ∧ Q s a t) :
    ∀ {as : List α} {s : σ}, J s → Along step C s as → EachStep step Q s as
  | [], _, _, _ => trivial
  | a :: as, s, hJ, hC => by
    rcases h : step s a with _ | t
    · exact eachStep_cons_none h
    · rw [Along, eachStep_cons h] at hC
      obtain ⟨hJt, hQ⟩ := hstep s a t hJ hC.1 h
      exact (eachStep_cons h).mpr ⟨hQ, eachStep_of_along hstep hJt hC.2⟩

/-- An invariant that holds along `C` and gives `P` gives `P` in every state of the run. -/
theorem always_of_along {J P : σ → Prop} {C : σ → α → Prop}
    (hstep : ∀ s a t, J s → C s a → step s a = some t → J t) (hP : ∀ s, J s → P s)
    {as : List α} {s : σ} (hJ : J s) (hC : Along step C s as) : Always step P s as :=
  ⟨hP s hJ, eachStep_of_along
    (fun s a t hs hc h => ⟨hstep s a t hs hc h, hP t (hstep s a t hs hc h)⟩) hJ hC⟩

/-- `t` is the end of a run from `s` along `C`. -/
def ReachedAlong (step : σ → α → Option σ) (C : σ → α → Prop) (s t : σ) : Prop :=
  ∃ as, Along step C s as ∧ run step s as = some t

theorem reachedAlong_refl (C : σ → α → Prop) (s : σ) : ReachedAlong step C s s := ⟨[], trivial, rfl⟩

theorem along_concat {C : σ → α → Prop} {a : α} {t : σ} (ha : C t a) :
    ∀ {as : List α} {s : σ}, Along step C s as → run step s as = some t → Along step C s (as ++ [a])
  | [], s, _, h => by
    obtain rfl := Option.some.inj h
    rcases hs : step s a with _ | u
    · exact eachStep_cons_none hs
    · exact (eachStep_cons hs).mpr ⟨ha, trivial⟩
  | b :: as, s, hC, h => by
    rw [run_cons] at h
    obtain ⟨s', hs', ht⟩ := Option.bind_eq_some_iff.mp h
    rw [Along, eachStep_cons hs'] at hC
    exact (eachStep_cons hs').mpr ⟨hC.1, along_concat ha hC.2 ht⟩

/-- **The projection rule**: what a step of a larger system makes of one of its parts is reached there if
it is a step of that part, or leaves it alone. -/
theorem ReachedAlong.concat {C : σ → α → Prop} {s t u : σ} (h : ReachedAlong step C s t)
    (hu : u = t ∨ ∃ a, step t a = some u ∧ C t a) : ReachedAlong step C s u := by
  obtain ⟨as, hC, hrun⟩ := h
  rcases hu with rfl | ⟨a, hstep, ha⟩
  · exact ⟨as, hC, hrun⟩
  · refine ⟨as ++ [a], along_concat ha hC hrun, ?_⟩
    rw [run_append, hrun, Option.bind_some, run_singleton, hstep]

/-- The invariant rule for what is reached. -/
theorem ReachedAlong.inv {J : σ → Prop} {C : σ → α → Prop}
    (hstep : ∀ s a t, J s → C s a → step s a = some t → J t) {s t : σ} (h : ReachedAlong step C s t)
    (hJ : J s) : J t :=
  let ⟨_, hC, hrun⟩ := h
  run_inv hstep hJ hC hrun

/-- A condition that every action meets in every state. -/
theorem along_of_forall {C : σ → α → Prop} (hC : ∀ s a, C s a) :
    ∀ (as : List α) (s : σ), Along step C s as
  | [], _ => trivial
  | a :: as, s => by
    rcases h : step s a with _ | t
    · exact eachStep_cons_none h
    · exact (eachStep_cons h).mpr ⟨hC s a, along_of_forall hC as t⟩

/-- What every step keeps holds at the end of every run. -/
theorem run_of_keeps {J : σ → Prop} (hstep : ∀ s a t, J s → step s a = some t → J t) {as : List α}
    {s t : σ} (hJ : J s) (h : run step s as = some t) : J t :=
  run_inv (C := fun _ _ => True) (fun s a t hs _ => hstep s a t hs) hJ
    (along_of_forall (fun _ _ => trivial) as s) h

/-- **The rule for what a run leaves**: what holds of the start, and of a run with one more step if it
holds of the run, holds of every run. -/
theorem run_history {s : σ} {J : List α → σ → Prop} (hstart : J [] s)
    (hstep : ∀ as t a u, run step s as = some t → J as t → step t a = some u → J (as ++ [a]) u) :
    ∀ {as : List α} {t : σ}, run step s as = some t → J as t := by
  intro as
  induction as using List.reverseRecOn with
  | nil =>
    intro t h
    obtain rfl := Option.some.inj h
    exact hstart
  | append_singleton as a ih =>
    intro u h
    rw [run_append] at h
    obtain ⟨t, ht, hu⟩ := Option.bind_eq_some_iff.mp h
    rw [run_singleton] at hu
    exact hstep as t a u ht (ih ht) hu

/-- If every step keeps `J` and satisfies `Q`, then every step of every run satisfies `Q`. -/
theorem eachStep_of_keeps {J : σ → Prop} {Q : σ → α → σ → Prop}
    (hstep : ∀ s a t, J s → step s a = some t → J t ∧ Q s a t) (as : List α) {s : σ} (hJ : J s) :
    EachStep step Q s as :=
  eachStep_of_along (C := fun _ _ => True) (fun s a t hs _ => hstep s a t hs) hJ
    (along_of_forall (fun _ _ => trivial) as s)

/-- An invariant that every step keeps and that gives `P` gives `P` in every state. -/
theorem always_of_keeps {J P : σ → Prop} (hstep : ∀ s a t, J s → step s a = some t → J t)
    (hP : ∀ s, J s → P s) (as : List α) {s : σ} (hJ : J s) : Always step P s as :=
  always_of_along (C := fun _ _ => True) (fun s a t hs _ => hstep s a t hs) hP hJ
    (along_of_forall (fun _ _ => trivial) as s)

/-- **The exact rule**: if under the invariant a step is good exactly if it meets `C`, and good steps
keep the invariant, then a run is good exactly if its steps meet `C`. -/
theorem eachStep_iff_along {J : σ → Prop} {C : σ → α → Prop} {Q : σ → α → σ → Prop}
    (hkeep : ∀ s a t, J s → step s a = some t → Q s a t → J t)
    (hiff : ∀ s a t, J s → step s a = some t → (Q s a t ↔ C s a)) :
    ∀ {as : List α} {s : σ}, J s → (EachStep step Q s as ↔ Along step C s as)
  | [], _, _ => Iff.rfl
  | a :: as, s, hJ => by
    rcases h : step s a with _ | t
    · exact ⟨fun _ => eachStep_cons_none h, fun _ => eachStep_cons_none h⟩
    · have hat := hiff s a t hJ h
      rw [Along, eachStep_cons h, eachStep_cons h]
      constructor
      · rintro ⟨hQ, hrest⟩
        exact ⟨hat.mp hQ, (eachStep_iff_along hkeep hiff (hkeep s a t hJ h hQ)).mp hrest⟩
      · rintro ⟨hC, hrest⟩
        have hQ := hat.mpr hC
        exact ⟨hQ, (eachStep_iff_along hkeep hiff (hkeep s a t hJ h hQ)).mpr hrest⟩

/-- The exact rule for a property of states. -/
theorem always_iff_along {J P : σ → Prop} {C : σ → α → Prop}
    (hkeep : ∀ s a t, J s → P s → step s a = some t → P t → J t)
    (hiff : ∀ s a t, J s → P s → step s a = some t → (P t ↔ C s a))
    {as : List α} {s : σ} (hJ : J s) (hP : P s) :
    Always step P s as ↔ Along step C s as := by
  have key : EachStep step (fun _ _ t => P t) s as ↔ Along step C s as :=
    eachStep_iff_along (J := fun s => J s ∧ P s)
      (fun s a t hs h hPt => ⟨hkeep s a t hs.1 hs.2 h hPt, hPt⟩)
      (fun s a t hs h => hiff s a t hs.1 hs.2 h) ⟨hJ, hP⟩
  exact ⟨fun h => key.mp h.2, fun h => ⟨hP, key.mpr h⟩⟩

/-- Properties that are the same at each step. -/
theorem eachStep_congr {Q Q' : σ → α → σ → Prop} :
    ∀ {as : List α} {s : σ}, EachStep step (fun s a t => Q s a t ↔ Q' s a t) s as →
      (EachStep step Q s as ↔ EachStep step Q' s as)
  | [], _, _ => Iff.rfl
  | a :: as, s, h => by
    rcases hs : step s a with _ | t
    · exact iff_of_true (eachStep_cons_none hs) (eachStep_cons_none hs)
    · rw [eachStep_cons hs] at h ⊢
      rw [eachStep_cons hs]
      exact and_congr h.1 (eachStep_congr h.2)

theorem eachStep_mono {Q Q' : σ → α → σ → Prop} (hQ : ∀ s a t, Q s a t → Q' s a t) :
    ∀ {as : List α} {s : σ}, EachStep step Q s as → EachStep step Q' s as
  | [], _, _ => trivial
  | a :: as, s, h => by
    rcases hs : step s a with _ | t
    · exact eachStep_cons_none hs
    · rw [eachStep_cons hs] at h ⊢
      exact ⟨hQ s a t h.1, eachStep_mono hQ h.2⟩

theorem always_mono {P P' : σ → Prop} (hP : ∀ s, P s → P' s) {as : List α} {s : σ}
    (h : Always step P s as) : Always step P' s as :=
  ⟨hP s h.1, eachStep_mono (fun _ _ t => hP t) h.2⟩

end KamuSinavi.Lib.Runs
