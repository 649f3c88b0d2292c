import KamuSinavi.Account.Device

/-! # Deleting an account

`_deleteAccount` (`pages/settingsPage.dart`) deletes the `users` document, the node `presence/uid` and
the account, in this order, and shows one message for every failure.

`Ends` lists how the calls of a deletion can end. `atomic_iff` says when a deletion that fails has
changed nothing: what was deleted before the call that failed was not there. The nodes are of an
arbitrary type. -/

namespace KamuSinavi.Account.Delete

open KamuSinavi.Lib KamuSinavi.Lib.Runs

/-- What a running `_deleteAccount` awaits. -/
inductive Awaits where
  | deleteUserDoc (uid : ℕ)
  | removePresence (uid : ℕ)
  | deleteUser (uid : ℕ)
  deriving DecidableEq

/-- The backend and the settings page of the account `user`. `left` is set when the page has led to the
login page. -/
structure State (ν : Type*) where
  users : LinkedMap ℕ UserDoc
  presence : LinkedMap ℕ ν
  accounts : LinkedMap ℕ AuthAccount
  user : Option ℕ
  snackBar : Option String
  left : Bool
  calls : List Awaits
  deriving DecidableEq

/-- `Evet, Sil`, and a call of the backend ends. -/
inductive Action where
  | deleteAccount
  | next (call : ℕ) (outcome : Outcome)

variable {ν : Type*}

/-- The `catch` of `_deleteAccount`. -/
def fails (s : State ν) : State ν :=
  { s with snackBar := some "Hesap silinirken bir hata oluştu." }

/-- The `_deleteAccount` that awaits `w` goes on: the state, and what it awaits next. An account that
does not exist cannot be deleted. -/
def resume (s : State ν) (w : Awaits) (o : Outcome) : Option (State ν × Option Awaits) :=
  match w, o with
  | .deleteUserDoc uid, .ok => some ({ s with users := s.users.erase uid }, some (.removePresence uid))
  | .removePresence uid, .ok => some ({ s with presence := s.presence.erase uid }, some (.deleteUser uid))
  | .deleteUser uid, .ok =>
    if s.accounts.contains uid then
      some ({ s with
        accounts := s.accounts.erase uid
        snackBar := some "Hesabınız silindi."
        left := true }, none)
    else none
  | _, _ => some (fails s, none)

def step (s : State ν) : Action → Option (State ν)
  | .deleteAccount =>
    if s.left then none
    else match s.user with
      | none => some (fails s)
      | some uid => some { s with calls := s.calls ++ [.deleteUserDoc uid] }
  | .next k o =>
    s.calls[k]?.bind fun w => (resume s w o).map fun r =>
      { r.1 with calls := match r.2 with
          | some awaits => s.calls.set k awaits
          | none => s.calls.eraseIdx k }

/-- The deletion is confirmed, and its calls end with the given outcomes. -/
def deletion (s : State ν) (outcomes : List Outcome) : Option (State ν) :=
  run step s (.deleteAccount :: outcomes.map (.next s.calls.length))

/-- The document, the node and the account are as they were. -/
structure Unchanged (s t : State ν) : Prop where
  users : t.users = s.users
  presence : t.presence = s.presence
  accounts : t.accounts = s.accounts

/-- **A deletion is atomic**: if it shows the error the document, the node and the account are as they
were, and if no call fails all three are gone. -/
structure Atomic (s : State ν) (uid : ℕ) (outcomes : List Outcome) (t : State ν) : Prop where
  failed : (∃ o ∈ outcomes, o ≠ .ok) →
    t.snackBar = some "Hesap silinirken bir hata oluştu." ∧ Unchanged s t
  gone : (∀ o ∈ outcomes, o = .ok) →
    t.users.get? uid = none ∧ t.presence.get? uid = none ∧ t.accounts.get? uid = none

/-- If a call fails, what the calls before it deleted was not there. -/
def NothingLost (s : State ν) (uid : ℕ) (outcomes : List Outcome) : Prop :=
  (∃ o ∈ outcomes, o ≠ .ok) →
    (outcomes[0]? = some .ok → s.users.get? uid = none) ∧
      (outcomes[1]? = some .ok → s.presence.get? uid = none)

/-! ### How a deletion ends -/

/-- The state without the document, and without the node. -/
def withoutDoc (s : State ν) (uid : ℕ) : State ν := { s with users := s.users.erase uid }

def withoutNode (s : State ν) (uid : ℕ) : State ν :=
  { withoutDoc s uid with presence := s.presence.erase uid }

def deleted (s : State ν) (uid : ℕ) : State ν :=
  { withoutNode s uid with
    accounts := s.accounts.erase uid
    snackBar := some "Hesabınız silindi."
    left := true }

/-- **How the calls of a deletion can end.** -/
inductive Ends (s : State ν) (uid : ℕ) : List Outcome → State ν → Prop
  | atDocument {o : Outcome} (ho : o ≠ .ok) : Ends s uid [o] (fails s)
  | atNode {o : Outcome} (ho : o ≠ .ok) : Ends s uid [.ok, o] (fails (withoutDoc s uid))
  | atAccount {o : Outcome} (ho : o ≠ .ok) : Ends s uid [.ok, .ok, o] (fails (withoutNode s uid))
  | success : Ends s uid [.ok, .ok, .ok] (deleted s uid)

theorem suspending : Calls.Suspending (step : State ν → Action → Option (State ν)) Action.next State.calls
    (fun s calls => { s with calls := calls }) resume where
  step_next s k o := by
    refine congrArg (Option.bind _) (funext fun w => congrArg (Option.map · _) (funext fun r => ?_))
    rcases r with ⟨t, _ | w'⟩ <;> rfl
  calls_put _ _ := rfl

/-- The last call fails and ends the deletion, or goes on or ends with success. -/
theorem run_last {u t : State ν} {w : Awaits} {os : List Outcome}
    (h : run step { u with calls := u.calls ++ [w] } (os.map (.next u.calls.length)) = some t)
    (hend : t.calls = u.calls) :
    (∃ o, o ≠ .ok ∧ os = [o] ∧ t = fails u) ∨
    ∃ os' v n, os = .ok :: os' ∧ resume { u with calls := u.calls ++ [w] } w .ok = some (v, n) ∧
      (n = none ∧ os' = [] ∧ t = { v with calls := u.calls } ∨
        ∃ w', n = some w' ∧ run step { v with calls := u.calls ++ [w'] }
          (os'.map (.next u.calls.length)) = some t) := by
  obtain ⟨o, os', v, n, rfl, hr, hn⟩ := suspending.run_last h hend
  by_cases ho : o = .ok
  · subst ho
    exact Or.inr ⟨os', v, n, rfl, hr, hn⟩
  · have hfail : resume { u with calls := u.calls ++ [w] } w o =
        some (fails { u with calls := u.calls ++ [w] }, none) := by
      cases o with
      | ok => exact absurd rfl ho
      | authException code message | exception => cases w <;> rfl
    obtain ⟨rfl, rfl⟩ := Prod.mk.inj (Option.some.inj (hfail.symm.trans hr))
    obtain ⟨-, rfl, rfl⟩ | ⟨w', hw, -⟩ := hn
    · exact Or.inl ⟨o, ho, rfl, rfl⟩
    · cases hw

/-- **A deletion whose calls have ended has ended in one of four ways.** -/
theorem ends_of_deletion {s t : State ν} {uid : ℕ} {outcomes : List Outcome}
    (huser : s.user = some uid) (h : deletion s outcomes = some t) (hend : t.calls = s.calls) :
    Ends s uid outcomes t := by
  rw [deletion, run_cons] at h
  obtain ⟨u, hu, h⟩ := Option.bind_eq_some_iff.mp h
  simp only [step] at hu
  split_ifs at hu
  split at hu
  · rename_i hnone
    cases huser.symm.trans hnone
  rename_i uid' huid
  obtain rfl := Option.some.inj (huser.symm.trans huid)
  obtain rfl := Option.some.inj hu
  -- the document
  obtain ⟨o, ho, rfl, rfl⟩ | ⟨os, v, n, rfl, hr, hn⟩ := run_last h hend
  · exact .atDocument ho
  obtain ⟨rfl, rfl⟩ := Prod.mk.inj (Option.some.inj hr)
  obtain ⟨hw, -⟩ | ⟨w, hw, h⟩ := hn
  · cases hw
  obtain rfl := Option.some.inj hw
  -- the node
  obtain ⟨o, ho, rfl, rfl⟩ | ⟨os, v, n, rfl, hr, hn⟩ := run_last (u := withoutDoc s uid) h hend
  · exact .atNode ho
  obtain ⟨rfl, rfl⟩ := Prod.mk.inj (Option.some.inj hr)
  obtain ⟨hw, -⟩ | ⟨w, hw, h⟩ := hn
  · cases hw
  obtain rfl := Option.some.inj hw
  -- the account
  obtain ⟨o, ho, rfl, rfl⟩ | ⟨os, v, n, rfl, hr, hn⟩ := run_last (u := withoutNode s uid) h hend
  · exact .atAccount ho
  simp only [resume, Option.ite_none_right_eq_some, Option.some.injEq, Prod.mk.injEq] at hr
  obtain ⟨-, rfl, rfl⟩ := hr
  obtain ⟨-, rfl, rfl⟩ | ⟨w, hw, -⟩ := hn
  · exact .success
  · cases hw

/-! ### When nothing is lost -/

/-- A deletion that fails is atomic exactly if the stores are as they were. -/
theorem atomic_of_failed {s t : State ν} {uid : ℕ} {outcomes : List Outcome}
    (hfail : ∃ o ∈ outcomes, o ≠ .ok)
    (hbar : t.snackBar = some "Hesap silinirken bir hata oluştu.") :
    Atomic s uid outcomes t ↔ Unchanged s t := by
  refine ⟨fun h => (h.failed hfail).2, fun h => ⟨fun _ => ⟨hbar, h⟩, fun hall => ?_⟩⟩
  obtain ⟨o, ho, hne⟩ := hfail
  exact absurd (hall o ho) hne

theorem unchanged_fails (s : State ν) : Unchanged s (fails s) := ⟨rfl, rfl, rfl⟩

theorem unchanged_withoutDoc_iff {s : State ν} {uid : ℕ} :
    Unchanged s (fails (withoutDoc s uid)) ↔ s.users.get? uid = none :=
  ⟨fun h => LinkedMap.erase_eq_self_iff.mp h.users,
    fun h => ⟨LinkedMap.erase_eq_self_iff.mpr h, rfl, rfl⟩⟩

theorem unchanged_withoutNode_iff {s : State ν} {uid : ℕ} :
    Unchanged s (fails (withoutNode s uid)) ↔
      s.users.get? uid = none ∧ s.presence.get? uid = none :=
  ⟨fun h => ⟨LinkedMap.erase_eq_self_iff.mp h.users, LinkedMap.erase_eq_self_iff.mp h.presence⟩,
    fun h => ⟨LinkedMap.erase_eq_self_iff.mpr h.1, LinkedMap.erase_eq_self_iff.mpr h.2, rfl⟩⟩

/-- **A deletion is atomic exactly if what its calls delete before one fails is not there.** -/
theorem atomic_iff {s t : State ν} {uid : ℕ} {outcomes : List Outcome} (huser : s.user = some uid)
    (h : deletion s outcomes = some t) (hend : t.calls = s.calls) :
    Atomic s uid outcomes t ↔ NothingLost s uid outcomes := by
  cases ends_of_deletion huser h hend with
  | atDocument ho =>
    rename_i o
    have hfail : ∃ o' ∈ [o], o' ≠ Outcome.ok := ⟨o, by simp, ho⟩
    rw [atomic_of_failed hfail rfl]
    exact iff_of_true (unchanged_fails s) fun _ =>
      ⟨fun he => absurd (Option.some.inj he) ho, fun he => by cases he⟩
  | atNode ho =>
    rename_i o
    have hfail : ∃ o' ∈ [.ok, o], o' ≠ Outcome.ok := ⟨o, by simp, ho⟩
    rw [atomic_of_failed hfail rfl, unchanged_withoutDoc_iff]
    exact ⟨fun hdoc _ => ⟨fun _ => hdoc, fun he => absurd (Option.some.inj he) ho⟩,
      fun hlost => (hlost hfail).1 rfl⟩
  | atAccount ho =>
    rename_i o
    have hfail : ∃ o' ∈ [.ok, .ok, o], o' ≠ Outcome.ok := ⟨o, by simp, ho⟩
    rw [atomic_of_failed hfail rfl, unchanged_withoutNode_iff]
    exact ⟨fun hnone _ => ⟨fun _ => hnone.1, fun _ => hnone.2⟩,
      fun hlost => ⟨(hlost hfail).1 rfl, (hlost hfail).2 rfl⟩⟩
  | success =>
    have hno : ¬ ∃ o ∈ [Outcome.ok, .ok, .ok], o ≠ .ok := by simp
    refine iff_of_true ⟨fun hfail => absurd hfail hno, fun _ => ⟨?_, ?_, ?_⟩⟩
      fun hfail => absurd hfail hno
    all_goals exact (LinkedMap.get?_erase _ _ _).trans (if_pos rfl)

/-- A user with a document and a node. -/
def signedIn : State Bool where
  users := LinkedMap.empty.set 0
    { full_name := "Ayşe", email := "ayse@example.com", role := some "user" }
  presence := LinkedMap.empty.set 0 true
  accounts := LinkedMap.empty.set 0
    { email := "ayse@example.com", password := "Sifre1234", verified := true }
  user := some 0
  snackBar := none
  left := false
  calls := []

theorem atomic_iff_signedIn :
    Atomic signedIn 0 [.ok, .ok, .ok] (deleted signedIn 0) ↔ NothingLost signedIn 0 [.ok, .ok, .ok] :=
  atomic_iff rfl rfl rfl

/-- **A deletion that demands a recent login** has deleted the document and the node. -/
theorem requiresRecentLogin_not_atomic :
    ∃ t, deletion signedIn [.ok, .ok, .authException "requires-recent-login" ""] = some t ∧
      t.calls = signedIn.calls ∧
      ¬ Atomic signedIn 0 [.ok, .ok, .authException "requires-recent-login" ""] t := by
  refine ⟨fails (withoutNode signedIn 0), rfl, rfl, fun h => ?_⟩
  have hdoc := unchanged_withoutNode_iff.mp
    (h.failed ⟨.authException "requires-recent-login" "", by simp, by simp⟩).2
  exact absurd hdoc.1 (by decide)

end KamuSinavi.Account.Delete
