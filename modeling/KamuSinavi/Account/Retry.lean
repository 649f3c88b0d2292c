import KamuSinavi.Account.Verified

/-! # Repeating a registration

`_register` (`pages/registerPage.dart`) creates the account, writes its `users` document and sends the
verification mail, one call after the other, and catches the exceptions of Firebase Auth only.

`Ends` lists how an attempt can end. `repeatable_iff` says after which ends the account is complete or
does not exist, with a message if a call failed; `not_created_again` says that no attempt creates an
account while there is one with the e-mail. -/

namespace KamuSinavi.Account

open KamuSinavi.Lib KamuSinavi.Lib.Runs

/-- The form is submitted, and the calls of this `_register` end with the given outcomes. -/
def attempt (s : State) (form : RegisterForm) (outcomes : List Outcome) : Option State :=
  run step s (.pressRegister form :: outcomes.map (.next s.calls.length))

/-- There are an account with the e-mail, its document and its mail. -/
def Registered (s : State) (email : String) : Prop :=
  ∃ e ∈ s.accounts.entries, e.2.email = email ∧ s.users.contains e.1 = true ∧ e.1 ∈ s.mails

/-- No account has the e-mail. -/
def Free (s : State) (email : String) : Prop := ∀ e ∈ s.accounts.entries, e.2.email ≠ email

/-- **The attempt can be repeated**: the account is complete, or there is none and the form can be
submitted again with success; if a call failed there is a message. -/
structure Repeatable (form : RegisterForm) (email : String) (outcomes : List Outcome) (t : State) :
    Prop where
  state : Registered t email ∨ Free t email ∧
    ∃ u, attempt t form [.ok, .ok, .ok] = some u ∧ Registered u email
  message : (∃ o ∈ outcomes, o ≠ .ok) → t.errorMessage ≠ none

/-- No call fails, or Firebase Auth refuses to create the account while no account, or a complete one,
has the e-mail. -/
def Recovers (s : State) (email : String) (outcomes : List Outcome) : Prop :=
  (∀ o ∈ outcomes, o = .ok) ∨
    (∃ code message, outcomes = [.authException code message]) ∧
      (Registered s email ∨ Free s email)

/-! ### Numbers of accounts -/

/-- The account whose registration the call goes on with. -/
def Awaits.registers : Awaits → Option ℕ
  | .setUserDoc uid _ => some uid
  | .sendEmailVerification uid => some uid
  | _ => none

/-- No mail has been sent, and none is about to be, to an account that does not exist yet. -/
structure Fresh (s : State) : Prop where
  mails : ∀ uid ∈ s.mails, uid < s.nextUid
  calls : ∀ c ∈ s.calls, ∀ uid ∈ c.awaits.registers, uid < s.nextUid

/-- What a call that goes on does to the mails and the numbers: the mails are those before and one to
the account of its registration. -/
structure Numbers (s : State) (w : Awaits) (t : State) (n : Option Awaits) : Prop where
  nextUid : s.nextUid ≤ t.nextUid
  mails : ∀ uid ∈ t.mails, uid ∈ s.mails ∨ uid ∈ w.registers
  registers : ∀ w' ∈ n, ∀ uid ∈ w'.registers, uid ∈ w.registers ∨ uid < t.nextUid

theorem numbers_of_eq {s t : State} {w : Awaits} {n : Option Awaits} (hnext : t.nextUid = s.nextUid)
    (hmails : t.mails = s.mails) (hn : ∀ w' ∈ n, w'.registers = none) : Numbers s w t n :=
  ⟨hnext.ge, fun _ hu => Or.inl (hmails ▸ hu), fun w' hw uid hu => by rw [hn w' hw] at hu; cases hu⟩

theorem finish_numbers (s : State) (c : Call) (message : Option String) :
    (finish s c message).nextUid = s.nextUid ∧ (finish s c message).mails = s.mails := by
  unfold finish
  split_ifs <;> exact ⟨rfl, rfl⟩

theorem finishTo_numbers (s : State) (c : Call) (page : Page) :
    (finishTo s c page).nextUid = s.nextUid ∧ (finishTo s c page).mails = s.mails := by
  unfold finishTo
  split_ifs <;> exact ⟨rfl, rfl⟩

theorem numbers_of_resume {s t : State} {c : Call} {o : Outcome} {n : Option Awaits}
    (h : resume s c o = some (t, n)) : Numbers s c.awaits t n := by
  by_cases ho : o = .ok
  · subst ho
    obtain ⟨page, w⟩ := c
    cases w with
    | createUser r =>
      simp only [resume, Option.ite_none_left_eq_some, Option.some.injEq, Prod.mk.injEq] at h
      obtain ⟨-, rfl, rfl⟩ := h
      refine ⟨Nat.le_succ _, fun _ hu => Or.inl hu, fun w' hw uid hu => Or.inr ?_⟩
      obtain rfl := Option.some.inj hw
      obtain rfl := Option.some.inj hu
      exact Nat.lt_succ_self _
    | setUserDoc uid r =>
      obtain ⟨rfl, rfl⟩ := Prod.mk.inj (Option.some.inj h)
      refine ⟨le_rfl, fun _ hu => Or.inl hu, fun w' hw uid hu => Or.inl ?_⟩
      obtain rfl := Option.some.inj hw
      exact hu
    | sendEmailVerification uid =>
      obtain ⟨rfl, rfl⟩ := Prod.mk.inj (Option.some.inj h)
      obtain ⟨hnext, hmails⟩ := finishTo_numbers { s with mails := s.mails ++ [uid] }
        ⟨page, .sendEmailVerification uid⟩ .login
      refine ⟨hnext.ge, fun v hv => ?_, fun w' hw => by cases hw⟩
      rw [hmails, List.mem_append, List.mem_singleton] at hv
      exact hv.imp_right fun e => congrArg some e.symm
    | signInWithPassword email password =>
      obtain ⟨e, -, he⟩ := Option.map_eq_some_iff.mp h
      obtain ⟨rfl, rfl⟩ := Prod.mk.inj he
      exact numbers_of_eq rfl rfl fun w' hw => by obtain rfl := Option.some.inj hw; rfl
    | getUserDoc uid v =>
      simp only [resume] at h
      split_ifs at h <;>
      · obtain ⟨rfl, rfl⟩ := Prod.mk.inj (Option.some.inj h)
        exact numbers_of_eq rfl rfl fun w' hw => by obtain rfl := Option.some.inj hw; rfl
    | signOut uid =>
      obtain ⟨rfl, rfl⟩ := Prod.mk.inj (Option.some.inj h)
      obtain ⟨hnext, hmails⟩ := finish_numbers { s with currentUser := none } ⟨page, .signOut uid⟩ _
      exact numbers_of_eq hnext hmails fun w' hw => by cases hw
    | setRememberMe role =>
      obtain ⟨rfl, rfl⟩ := Prod.mk.inj (Option.some.inj h)
      exact numbers_of_eq rfl rfl fun w' hw => by obtain rfl := Option.some.inj hw; rfl
    | setPresence role =>
      obtain ⟨rfl, rfl⟩ := Prod.mk.inj (Option.some.inj h)
      obtain ⟨hnext, hmails⟩ := finishTo_numbers s ⟨page, .setPresence role⟩ _
      exact numbers_of_eq hnext hmails fun w' hw => by cases hw
  · obtain ⟨message, hf⟩ := exists_finish s c ho
    obtain ⟨rfl, rfl⟩ := Prod.mk.inj (Option.some.inj (hf.symm.trans h))
    obtain ⟨hnext, hmails⟩ := finish_numbers s c message
    exact numbers_of_eq hnext hmails fun w' hw => by cases hw

theorem fresh_of_same {s t : State} (h : Fresh s) (hnext : t.nextUid = s.nextUid)
    (hmails : t.mails = s.mails)
    (hcalls : ∀ c ∈ t.calls, c ∈ s.calls ∨ c.awaits.registers = none) : Fresh t := by
  refine ⟨fun uid hu => hnext ▸ h.mails uid (hmails ▸ hu), fun c hc uid hu => ?_⟩
  rcases hcalls c hc with hc | hno
  · exact hnext ▸ h.calls c hc uid hu
  · rw [hno] at hu; cases hu

/-- **Mails are for accounts that exist.** -/
theorem fresh_step {s t : State} {a : Action} (h : Fresh s) (hs : step s a = some t) : Fresh t := by
  cases steps_of_step hs with
  | navigated page | toggled value | rejected | verified | signedOut =>
    exact fresh_of_same h rfl rfl fun c hc => Or.inl hc
  | registers | signsIn =>
    refine fresh_of_same h rfl rfl fun c hc => (List.mem_append.mp hc).imp_right fun hc => ?_
    rw [List.mem_singleton.mp hc]; rfl
  | restarted => exact fresh_of_same h rfl rfl fun c hc => absurd hc List.not_mem_nil
  | resumed hk hr =>
    rename_i k o c r
    obtain ⟨u, n⟩ := r
    have hn := numbers_of_resume hr
    have hc := h.calls c (List.mem_of_getElem? hk)
    have hold : ∀ d ∈ s.calls, ∀ uid ∈ d.awaits.registers, uid < u.nextUid :=
      fun d hd uid hu => (h.calls d hd uid hu).trans_le hn.nextUid
    refine ⟨fun uid hu => ?_, ?_⟩
    · exact ((hn.mails uid hu).elim (h.mails uid) (hc uid)).trans_le hn.nextUid
    · cases n with
      | none => exact Calls.forall_mem_eraseIdx hold
      | some w =>
        refine Calls.forall_mem_set hold fun uid hu => ?_
        exact (hn.registers w rfl uid hu).elim (fun hu => (hc uid hu).trans_le hn.nextUid) id

theorem fresh_run {s t : State} {as : List Action} (h : Fresh s) (hrun : run step s as = some t) :
    Fresh t :=
  run_of_keeps (fun _ _ _ hI hs => fresh_step hI hs) h hrun

/-! ### How an attempt ends -/

/-- `_register` has ended with a failed call. -/
def failed (s : State) (o : Outcome) : State :=
  { s with isLoading := false, errorMessage := registerError o }

/-- The account of the registration, with its document. -/
def documented (s : State) (r : Registration) : State := setUserDoc (createUser s r) s.nextUid r

/-- The mail has been sent, too. -/
def mailed (s : State) (r : Registration) : State :=
  { documented s r with mails := s.mails ++ [s.nextUid] }

/-- **How an attempt can end.** -/
inductive Ends (s : State) (r : Registration) : List Outcome → State → Prop
  | notCreated {o : Outcome} (ho : o ≠ .ok) : Ends s r [o] (failed s o)
  | notDocumented {o : Outcome} (hfree : Free s r.email) (ho : o ≠ .ok) :
    Ends s r [.ok, o] (failed (createUser s r) o)
  | notMailed {o : Outcome} (hfree : Free s r.email) (ho : o ≠ .ok) :
    Ends s r [.ok, .ok, o] (failed (documented s r) o)
  | registered (hfree : Free s r.email) :
    Ends s r [.ok, .ok, .ok] (goTo (mailed s r) .login)

/-- The state with one more running call. -/
def withCall (s : State) (c : Call) : State := { s with calls := s.calls ++ [c] }

/-- What the call awaits when it goes on. -/
def resumeCall (s : State) (c : Call) (o : Outcome) : Option (State × Option Call) :=
  (resume s c o).map fun r => (r.1, r.2.map fun awaits => { c with awaits := awaits })

theorem suspending : Calls.Suspending step Action.next State.calls
    (fun s calls => { s with calls := calls }) resumeCall where
  step_next s k o := by
    refine congrArg (Option.bind _) (funext fun c => ?_)
    rw [resumeCall, Option.map_map]
    refine congrArg (Option.map · _) (funext fun r => ?_)
    rcases r with ⟨t, _ | w⟩ <;> rfl
  calls_put _ _ := rfl

theorem free_iff {s : State} {r : Registration} :
    (¬ ∃ e ∈ s.accounts.entries, e.2.email = r.email) ↔ Free s r.email := by
  simp only [Free, not_exists, not_and, ne_eq]

/-- The state in which `_register` awaits its first call. -/
def pressed (s : State) : State := { s with errorMessage := none, isLoading := true }

/-- A form without mistakes is submitted. -/
theorem attempt_eq {s : State} {form : RegisterForm} {r : Registration}
    (hv : validate form = .ok r) (outcomes : List Outcome) :
    attempt s form outcomes =
      if s.page = .register ∧ s.isLoading = false then
        run step (withCall (pressed s) { page := s.pageId, awaits := .createUser r })
          (outcomes.map (.next s.calls.length))
      else none := by
  rw [attempt, run_cons]
  simp only [step, hv]
  split_ifs
  · rfl
  · rfl

/-- The call is one of `_register`. -/
def Awaits.isRegister : Awaits → Bool
  | .createUser _ | .setUserDoc .. | .sendEmailVerification _ => true
  | _ => false

/-- A call of `_register` that fails ends it. -/
theorem resume_failed {u : State} {c : Call} {o : Outcome} (hpage : c.page = u.pageId)
    (hc : c.awaits.isRegister = true) (ho : o ≠ .ok) :
    resume (withCall u c) c o = some ({ failed u o with calls := u.calls ++ [c] }, none) := by
  have hfinish : finish (withCall u c) c (registerError o) =
      { withCall u c with isLoading := false, errorMessage := registerError o } := if_pos hpage
  have hfail : resume (withCall u c) c o =
      some (finish (withCall u c) c (registerError o), none) := by
    obtain ⟨page, w⟩ := c
    cases w with
    | createUser r | setUserDoc uid r | sendEmailVerification uid =>
      cases o with
      | ok => exact absurd rfl ho
      | authException code message | exception => rfl
    | _ => cases hc
  rw [hfail, hfinish]
  rfl

/-- **The last call of `_register` fails and ends it, or goes on or ends with success.** -/
theorem run_withCall {u t : State} {c : Call} {os : List Outcome} (hpage : c.page = u.pageId)
    (hc : c.awaits.isRegister = true)
    (h : run step (withCall u c) (os.map (.next u.calls.length)) = some t)
    (hend : t.calls = u.calls) :
    (∃ o, o ≠ .ok ∧ os = [o] ∧ t = failed u o) ∨
    ∃ os' v n, os = .ok :: os' ∧ resume (withCall u c) c .ok = some (v, n) ∧
      (n = none ∧ os' = [] ∧ t = { v with calls := u.calls } ∨
        ∃ w, n = some w ∧ run step (withCall { v with calls := u.calls } { c with awaits := w })
          (os'.map (.next u.calls.length)) = some t) := by
  obtain ⟨o, os', v, n, rfl, hr, hn⟩ := suspending.run_last h hend
  obtain ⟨⟨v, m⟩, hres, heq⟩ := Option.map_eq_some_iff.mp hr
  obtain ⟨rfl, rfl⟩ := Prod.mk.inj heq
  by_cases ho : o = .ok
  · subst ho
    refine Or.inr ⟨os', v, m, rfl, hres, hn.imp ?_ ?_⟩
    · rintro ⟨hm, hos, ht⟩
      exact ⟨Option.map_eq_none_iff.mp hm, hos, ht⟩
    · rintro ⟨c', hc', hrun⟩
      obtain ⟨w, hw, rfl⟩ := Option.map_eq_some_iff.mp hc'
      exact ⟨w, hw, hrun⟩
  · obtain ⟨rfl, rfl⟩ := Prod.mk.inj (Option.some.inj ((resume_failed hpage hc ho).symm.trans hres))
    obtain ⟨-, rfl, rfl⟩ | ⟨c', hc', -⟩ := hn
    · exact Or.inl ⟨o, ho, rfl, rfl⟩
    · cases hc'

/-- **An attempt whose calls have ended has ended in one of four ways.** -/
theorem ends_of_attempt {s t : State} {form : RegisterForm} {r : Registration}
    {outcomes : List Outcome} (hv : validate form = .ok r)
    (h : attempt s form outcomes = some t) (hend : t.calls = s.calls) : Ends s r outcomes t := by
  rw [attempt_eq hv] at h
  split_ifs at h
  -- the creation of the account
  obtain ⟨o, ho, rfl, rfl⟩ | ⟨os, v, n, rfl, hr, hn⟩ :=
    run_withCall (u := pressed s) rfl rfl h hend
  · exact .notCreated ho
  simp only [resume, Option.ite_none_left_eq_some, Option.some.injEq, Prod.mk.injEq] at hr
  obtain ⟨hfree, rfl, rfl⟩ := hr
  replace hfree : Free s r.email := free_iff.mp hfree
  obtain ⟨hw, -⟩ | ⟨w, hw, h⟩ := hn
  · cases hw
  obtain rfl := Option.some.inj hw
  -- the document
  obtain ⟨o, ho, rfl, rfl⟩ | ⟨os, v, n, rfl, hr, hn⟩ :=
    run_withCall (u := createUser (pressed s) r) rfl rfl h hend
  · exact .notDocumented hfree ho
  obtain ⟨rfl, rfl⟩ := Prod.mk.inj (Option.some.inj hr)
  obtain ⟨hw, -⟩ | ⟨w, hw, h⟩ := hn
  · cases hw
  obtain rfl := Option.some.inj hw
  -- the mail
  obtain ⟨o, ho, rfl, rfl⟩ | ⟨os, v, n, rfl, hr, hn⟩ :=
    run_withCall (u := documented (pressed s) r) rfl rfl h hend
  · exact .notMailed hfree ho
  obtain ⟨rfl, rfl⟩ := Prod.mk.inj (Option.some.inj hr)
  obtain ⟨-, rfl, rfl⟩ | ⟨w, hw, -⟩ := hn
  · rw [finishTo, if_pos (by rfl)]
    exact .registered hfree
  · cases hw

/-! ### Submitting the form again -/

/-- The last call goes on, or ends, and so does the run. -/
theorem run_next {u v : State} {c : Call} {o : Outcome} {n : Option Awaits} {as : List Action}
    (h : resume (withCall u c) c o = some (v, n)) :
    run step (withCall u c) (.next u.calls.length o :: as) =
      run step { v with calls := u.calls ++ (n.map fun w => { c with awaits := w }).toList } as :=
  suspending.run_next (congrArg (Option.map _) h)

/-- **An attempt succeeds if the e-mail is free.** -/
theorem attempt_ok {s : State} {form : RegisterForm} {r : Registration} (hv : validate form = .ok r)
    (hpage : s.page = .register) (hload : s.isLoading = false) (hfree : Free s r.email) :
    attempt s form [.ok, .ok, .ok] = some (goTo (mailed s r) .login) := by
  have hcreate : resume (withCall (pressed s) { page := s.pageId, awaits := .createUser r })
      { page := s.pageId, awaits := .createUser r } .ok =
      some (createUser (withCall (pressed s) _) r, some (.setUserDoc s.nextUid r)) :=
    if_neg (free_iff.mpr hfree)
  have hmail : resume (withCall (documented (pressed s) r)
        { page := s.pageId, awaits := .sendEmailVerification s.nextUid })
      { page := s.pageId, awaits := .sendEmailVerification s.nextUid } .ok =
      some (goTo (withCall (mailed (pressed s) r) _) .login, none) :=
    congrArg (fun u => some (u, none)) (if_pos rfl)
  rw [attempt_eq hv, if_pos ⟨hpage, hload⟩]
  refine (run_next (u := pressed s) hcreate).trans ?_
  refine (run_next (u := createUser (pressed s) r) rfl).trans ?_
  refine (run_next (u := documented (pressed s) r) hmail).trans ?_
  rw [Option.map_none, Option.toList_none, List.append_nil]
  rfl

theorem mem_createUser (s : State) (r : Registration) :
    ∃ a, (s.nextUid, a) ∈ (createUser s r).accounts.entries ∧ a.email = r.email :=
  ⟨_, LinkedMap.get?_eq_some_iff.mp (LinkedMap.get?_set_self ..), rfl⟩

/-- The only account with the e-mail is the new one. -/
theorem eq_of_mem_createUser {s : State} {r : Registration} (hfree : Free s r.email)
    {e : ℕ × AuthAccount} (he : e ∈ (createUser s r).accounts.entries) (hemail : e.2.email = r.email) :
    e.1 = s.nextUid := by
  obtain ⟨uid, a⟩ := e
  by_contra hne
  have hget := LinkedMap.get?_eq_some_iff.mpr he
  rw [createUser, LinkedMap.get?_set_of_ne _ hne] at hget
  exact hfree _ (LinkedMap.get?_eq_some_iff.mp hget) hemail

theorem registered_mailed (s : State) (r : Registration) : Registered (mailed s r) r.email := by
  obtain ⟨a, ha, hemail⟩ := mem_createUser s r
  refine ⟨_, ha, hemail, ?_, List.mem_append_right _ (List.mem_singleton_self _)⟩
  exact LinkedMap.contains_iff.mpr ⟨_, LinkedMap.get?_set_self ..⟩

/-- **A half-made registration** is neither complete nor free, whatever became of its document. -/
theorem not_repeatable_of_created {s t : State} {form : RegisterForm} {r : Registration}
    {outcomes : List Outcome} (hs : Fresh s) (hfree : Free s r.email)
    (haccounts : t.accounts = (createUser s r).accounts) (hmails : t.mails = s.mails) :
    ¬ Repeatable form r.email outcomes t := by
  rintro ⟨⟨e, he, hemail, -, hmail⟩ | ⟨hno, -⟩, -⟩
  · have huid := eq_of_mem_createUser hfree (haccounts ▸ he) hemail
    rw [hmails, huid] at hmail
    exact absurd (hs.mails _ hmail) (lt_irrefl _)
  · obtain ⟨a, ha, hemail⟩ := mem_createUser s r
    exact hno _ (haccounts ▸ ha) hemail

/-- **An attempt can be repeated exactly if no call fails, or Firebase Auth refuses to create the
account while no account, or a complete one, has the e-mail.** -/
theorem repeatable_iff_of_ends {s t : State} {form : RegisterForm} {r : Registration}
    {outcomes : List Outcome} (hs : Fresh s) (hv : validate form = .ok r) (hpage : s.page = .register)
    (h : Ends s r outcomes t) :
    Repeatable form r.email outcomes t ↔ Recovers s r.email outcomes := by
  have hfails : ∀ {os : List Outcome} {o : Outcome}, o ∈ os → o ≠ .ok → os.length ≠ 1 →
      ¬ Recovers s r.email os := by
    rintro os o ho hne hlen (hok | ⟨⟨code, message, rfl⟩, -⟩)
    · exact hne (hok o ho)
    · exact hlen rfl
  cases h with
  | notCreated ho =>
    rename_i o
    cases o with
    | ok => exact absurd rfl ho
    | exception =>
      refine iff_of_false (fun hr => hr.message ⟨_, List.mem_singleton_self _, ho⟩ rfl) ?_
      rintro (hok | ⟨⟨code, message, he⟩, -⟩)
      · exact ho (hok _ (List.mem_singleton_self _))
      · cases he
    | authException code message =>
      constructor
      · exact fun hr => Or.inr ⟨⟨code, message, rfl⟩, hr.state.imp id And.left⟩
      · rintro (hok | ⟨-, hstate⟩)
        · exact absurd (hok _ (List.mem_singleton_self _)) ho
        · refine ⟨hstate.imp id fun hfree => ⟨hfree, _, attempt_ok hv hpage rfl hfree, ?_⟩,
            fun _ => Option.some_ne_none _⟩
          exact registered_mailed _ r
  | notDocumented hfree ho =>
    exact iff_of_false (not_repeatable_of_created hs hfree rfl rfl)
      (hfails (List.mem_cons_of_mem _ (List.mem_singleton_self _)) ho (by simp))
  | notMailed hfree ho =>
    exact iff_of_false (not_repeatable_of_created hs hfree rfl rfl)
      (hfails (List.mem_cons_of_mem _ (List.mem_cons_of_mem _ (List.mem_singleton_self _))) ho (by simp))
  | registered hfree =>
    have hall : ∀ o ∈ [Outcome.ok, .ok, .ok], o = .ok := by simp
    refine iff_of_true ⟨Or.inl (registered_mailed s r), ?_⟩ (Or.inl hall)
    rintro ⟨o, ho, hne⟩
    exact absurd (hall o ho) hne

/-- **While an account has the e-mail no attempt creates one.** -/
theorem not_created_again {s t : State} {form : RegisterForm} {r : Registration}
    {outcomes : List Outcome} (hv : validate form = .ok r) (hused : ¬ Free s r.email)
    (h : attempt s form outcomes = some t) (hend : t.calls = s.calls) :
    ∃ o, o ≠ .ok ∧ outcomes = [o] ∧ t = failed s o := by
  cases ends_of_attempt hv h hend with
  | notCreated ho => exact ⟨_, ho, rfl, rfl⟩
  | notDocumented hfree | notMailed hfree | registered hfree => exact absurd hfree hused

theorem page_of_attempt {s t : State} {form : RegisterForm} {r : Registration}
    {outcomes : List Outcome} (hv : validate form = .ok r)
    (h : attempt s form outcomes = some t) : s.page = .register := by
  rw [attempt_eq hv] at h
  split_ifs at h with hpage
  exact hpage.1

/-- **In every run, a registration can be repeated exactly if no call of it fails, or Firebase Auth
refuses to create the account while no account, or a complete one, has the e-mail.** -/
theorem register_repeatable_iff {s₀ s t : State} (h₀ : Fresh s₀) {as : List Action}
    (hrun : run step s₀ as = some s) {form : RegisterForm} {r : Registration}
    {outcomes : List Outcome} (hv : validate form = .ok r)
    (h : attempt s form outcomes = some t) (hend : t.calls = s.calls) :
    Repeatable form r.email outcomes t ↔ Recovers s r.email outcomes :=
  repeatable_iff_of_ends (fresh_run h₀ hrun) hv (page_of_attempt hv h) (ends_of_attempt hv h hend)

/-! ### A document that is not written -/

def fatma : RegisterForm :=
  { fullName := "Fatma", email := "fatma@example.com", password := "Kelime9012",
    confirmPassword := "Kelime9012", hasUppercase := true, hasDigit := true, agreedToTerms := true }

theorem fresh_installed : Fresh installed := ⟨by decide, by decide⟩

theorem register_repeatable_iff_fatma :
    Repeatable fatma "fatma@example.com" [.authException "network-request-failed" "Ağ hatası"]
        (failed (goTo installed .register) (.authException "network-request-failed" "Ağ hatası")) ↔
      Recovers (goTo installed .register) "fatma@example.com"
        [.authException "network-request-failed" "Ağ hatası"] :=
  register_repeatable_iff (r := ⟨"Fatma", "fatma@example.com", "Kelime9012"⟩) fresh_installed
    (show run step installed [.navigate .register] = some (goTo installed .register) from rfl)
    rfl rfl rfl

/-- **A registration whose document is not written** leaves an account that cannot be registered
again, and no message. -/
theorem halfMade_not_repeatable :
    ∃ t, attempt (goTo installed .register) fatma [.ok, .exception] = some t ∧
      t.calls = (goTo installed .register).calls ∧
      ¬ Repeatable fatma "fatma@example.com" [.ok, .exception] t :=
  ⟨failed (createUser (goTo installed .register) ⟨"Fatma", "fatma@example.com", "Kelime9012"⟩)
      .exception, rfl, rfl,
    fun h => h.message ⟨.exception, by simp, by simp⟩ rfl⟩

end KamuSinavi.Account
