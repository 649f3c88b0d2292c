import KamuSinavi.Account.Retry

/-! # Who gets to the dashboard

`_signIn` (`pages/loginPage.dart`) and `AuthGate` (`main.dart`) open the dashboard if the `users`
document of the account has the role `'admin'`; no other link leads there. In the list of users
(`buildUsersList` in `pages/adminDashboard.dart`) an admin deletes the document of a user who is none;
the account stays.

`admins_same` says that no run makes anyone an admin, or takes the role from one. `dashboard_proven`
says who has signed in when a device shows the dashboard, and `deleted_signsIn` that a user who has been
deleted signs in as before. -/

namespace KamuSinavi.Account.Roles

open KamuSinavi.Lib KamuSinavi.Lib.Runs KamuSinavi.Lib.Dart

/-- What is done on a device, and by the admins meanwhile. `remembered` is what `isRemembered` has
given to the gate. -/
inductive Action where
  | device (a : Account.Action)
  | gate (isWeb remembered : Bool)
  | deleteUser (uid : ℕ)

/-- The page `AuthGate` shows. -/
def gatePage (s : State) (isWeb remembered : Bool) : Page :=
  match s.currentUser with
  | none => .home
  | some uid => if remembered = true ∧ roleOf s uid = "admin" ∧ isWeb = true then .admin else .home

def step (s : State) : Action → Option State
  -- the app has no link to the dashboard
  | .device (.navigate .admin) => none
  | .device a => Account.step s a
  | .gate isWeb remembered =>
    if s.page = .home then some (goTo s (gatePage s isWeb remembered)) else none
  -- the list does not show the admins
  | .deleteUser uid =>
    if roleOf s uid = "admin" then none else some { s with users := s.users.erase uid }

/-- What is done on a device is a step of the device. -/
theorem step_device {a : Account.Action} (hlink : a ≠ .navigate .admin) (s : State) :
    step s (.device a) = Account.step s a := by
  cases a with
  | navigate page =>
    cases page with
    | admin => exact absurd rfl hlink
    | home | login | register | settings => rfl
  | toggleRemember value | pressRegister form | pressSignIn email password | next k o
  | verifyEmail uid | signOut | restart => rfl

/-- No call is running and the dashboard is not shown; what comes gets new ids. -/
structure Starts (s : State) : Prop where
  calls : s.calls = []
  page : s.page ≠ .admin
  accounts : ∀ uid ∈ s.accounts.keys, uid < s.nextUid
  users : ∀ uid ∈ s.users.keys, uid < s.nextUid

/-- **The account was signed in at the start, or its e-mail and its password have been typed on the
login page.** -/
def Proven (s₀ : State) (as : List Action) (uid : ℕ) : Prop :=
  s₀.currentUser = some uid ∨ ∃ a email password, s₀.accounts.get? uid = some a ∧
    .device (.pressSignIn email password) ∈ as ∧ trim email = a.email ∧ trim password = a.password

/-- An admin has signed in. -/
def AdminProven (s₀ : State) (as : List Action) : Prop := ∃ uid, isAdmin s₀ uid ∧ Proven s₀ as uid

/-- What is known when a call awaits this. -/
def Backed (s₀ : State) (as : List Action) : Awaits → Prop
  | .setUserDoc uid _ => s₀.nextUid ≤ uid
  | .signInWithPassword e p => ∃ email password, .device (.pressSignIn email password) ∈ as ∧
      trim email = e ∧ trim password = p
  | .getUserDoc uid _ => isAdmin s₀ uid → Proven s₀ as uid
  | .setRememberMe role | .setPresence role => role = "admin" → AdminProven s₀ as
  | .createUser _ | .sendEmailVerification _ | .signOut _ => True

/-- The admins are those of the start, and the session and the page are those of an admin only if one
has signed in. -/
structure Secure (s₀ : State) (as : List Action) (t : State) : Prop where
  nextUid : s₀.nextUid ≤ t.nextUid
  admins : ∀ uid, isAdmin t uid ↔ isAdmin s₀ uid
  accounts : ∀ uid a, t.accounts.get? uid = some a → uid < s₀.nextUid →
    ∃ a₀, s₀.accounts.get? uid = some a₀ ∧ a.email = a₀.email ∧ a.password = a₀.password
  session : ∀ uid, t.currentUser = some uid → isAdmin s₀ uid → Proven s₀ as uid
  page : t.page = .admin → AdminProven s₀ as

structure Inv (s₀ : State) (as : List Action) (t : State) : Prop extends Secure s₀ as t where
  calls : ∀ c ∈ t.calls, Backed s₀ as c.awaits

variable {s₀ s t : State} {as : List Action}

/-! ### What is known stays known -/

theorem Proven.mono {uid : ℕ} (h : Proven s₀ as uid) (b : Action) : Proven s₀ (as ++ [b]) uid := by
  rcases h with h | ⟨a, email, password, ha, hmem, htyped⟩
  · exact Or.inl h
  · exact Or.inr ⟨a, email, password, ha, List.mem_append_left _ hmem, htyped⟩

theorem AdminProven.mono (h : AdminProven s₀ as) (b : Action) : AdminProven s₀ (as ++ [b]) := by
  obtain ⟨uid, hadmin, hproven⟩ := h
  exact ⟨uid, hadmin, hproven.mono b⟩

theorem Backed.mono {w : Awaits} (h : Backed s₀ as w) (b : Action) : Backed s₀ (as ++ [b]) w := by
  cases w with
  | setUserDoc uid r => exact h
  | signInWithPassword e p =>
    obtain ⟨email, password, hmem, htyped⟩ := h
    exact ⟨email, password, List.mem_append_left _ hmem, htyped⟩
  | getUserDoc uid v => exact fun hadmin => (h hadmin).mono b
  | setRememberMe role | setPresence role => exact fun hrole => (h hrole).mono b
  | createUser r | sendEmailVerification uid | signOut uid => trivial

theorem Secure.mono (h : Secure s₀ as t) (b : Action) : Secure s₀ (as ++ [b]) t :=
  ⟨h.nextUid, h.admins, h.accounts, fun uid hu hadmin => (h.session uid hu hadmin).mono b,
    fun hpage => (h.page hpage).mono b⟩

/-- An admin's account is one of the start. -/
theorem lt_nextUid (hstart : Starts s₀) {uid : ℕ} (h : isAdmin s₀ uid) : uid < s₀.nextUid := by
  refine hstart.users uid ?_
  by_contra hno
  have hnone := LinkedMap.get?_eq_none_iff.mpr hno
  unfold isAdmin roleOf at h
  rw [hnone] at h
  exact absurd h (by decide)

theorem secure_start (hstart : Starts s₀) : Secure s₀ [] s₀ :=
  ⟨le_rfl, fun _ => Iff.rfl, fun _ a ha _ => ⟨a, ha, rfl, rfl⟩, fun _ hu _ => Or.inl hu,
    fun hpage => absurd hpage hstart.page⟩

/-! ### What keeps it -/

theorem isAdmin_congr (hs : SameSession s t) (uid : ℕ) : isAdmin t uid ↔ isAdmin s uid := by
  unfold isAdmin roleOf
  rw [hs.users]

/-- The session stays, and the page is not the dashboard unless it was or an admin has signed in. -/
theorem Secure.frame (h : Secure s₀ as s) (hs : SameSession s t)
    (hpage : t.page = .admin → s.page = .admin ∨ AdminProven s₀ as) : Secure s₀ as t := by
  refine ⟨hs.nextUid ▸ h.nextUid, fun uid => ?_, fun uid a ha => ?_, fun uid hu => ?_, fun hp => ?_⟩
  · rw [isAdmin_congr hs]
    exact h.admins uid
  · rw [hs.accounts] at ha
    exact h.accounts uid a ha
  · rw [hs.currentUser] at hu
    exact h.session uid hu
  · exact (hpage hp).elim h.page id

/-- The session ends. -/
theorem Secure.signedOut (h : Secure s₀ as s) : Secure s₀ as { s with currentUser := none } :=
  ⟨h.nextUid, h.admins, h.accounts, fun _ hu => (by cases hu), h.page⟩

theorem finish_page (s : State) (c : Call) (message : Option String) :
    (finish s c message).page = s.page := by
  unfold finish
  split_ifs <;> rfl

theorem finishTo_page (s : State) (c : Call) (page : Page) :
    (finishTo s c page).page = s.page ∨ (finishTo s c page).page = page := by
  unfold finishTo
  split_ifs
  · exact Or.inr rfl
  · exact Or.inl rfl

theorem Secure.finish (h : Secure s₀ as s) (c : Call) (message : Option String) :
    Secure s₀ as (Account.finish s c message) :=
  h.frame (sameSession_finish s c message) fun hp => Or.inl ((finish_page s c message) ▸ hp)

theorem Secure.finishTo (h : Secure s₀ as s) (c : Call) {page : Page}
    (hpage : page = .admin → AdminProven s₀ as) : Secure s₀ as (Account.finishTo s c page) := by
  refine h.frame (sameSession_finishTo s c page) fun hp => ?_
  rcases finishTo_page s c page with heq | heq
  · exact Or.inl (heq ▸ hp)
  · exact Or.inr (hpage (heq ▸ hp))

/-- A new account is nobody's of the start. -/
theorem Secure.created (h : Secure s₀ as s) (hstart : Starts s₀) (r : Registration) :
    Secure s₀ as (createUser s r) := by
  refine ⟨h.nextUid.trans (Nat.le_succ _), h.admins, fun uid a ha hlt => ?_, fun uid hu hadmin => ?_,
    h.page⟩
  · have hne : uid ≠ s.nextUid := by
      have := h.nextUid
      omega
    have hold := (LinkedMap.get?_set_of_ne s.accounts hne _).symm.trans ha
    exact h.accounts uid a hold hlt
  · obtain rfl := Option.some.inj hu
    have := lt_nextUid hstart hadmin
    have := h.nextUid
    omega

/-- The document of a new account makes nobody an admin. -/
theorem Secure.documented (h : Secure s₀ as s) (hstart : Starts s₀) {uid : ℕ} (hnew : s₀.nextUid ≤ uid)
    (r : Registration) : Secure s₀ as (setUserDoc s uid r) := by
  refine ⟨h.nextUid, fun v => ?_, h.accounts, h.session, h.page⟩
  by_cases hv : v = uid
  · subst hv
    refine iff_of_false (fun hadmin => ?_) fun hadmin => ?_
    · unfold isAdmin roleOf setUserDoc at hadmin
      simp only [LinkedMap.get?_set_self, Option.bind_some, Option.getD_some] at hadmin
      exact absurd hadmin (by decide)
    · have := lt_nextUid hstart hadmin
      omega
  · rw [← h.admins v]
    unfold isAdmin roleOf setUserDoc
    rw [LinkedMap.get?_set_of_ne _ hv]

/-- An account is found by the e-mail and the password that were typed. -/
theorem Secure.signedIn (h : Secure s₀ as s) (hstart : Starts s₀) {uid : ℕ} {a : AuthAccount}
    (ha : s.accounts.get? uid = some a)
    (hback : Backed s₀ as (.signInWithPassword a.email a.password)) :
    Backed s₀ as (.getUserDoc uid a.verified) ∧ Secure s₀ as { s with currentUser := some uid } := by
  have hproven : isAdmin s₀ uid → Proven s₀ as uid := by
    intro hadmin
    obtain ⟨a₀, ha₀, hemail, hpassword⟩ := h.accounts uid a ha (lt_nextUid hstart hadmin)
    obtain ⟨email, password, hmem, htyped, htyped'⟩ := hback
    exact Or.inr ⟨a₀, email, password, ha₀, hmem, htyped.trans hemail, htyped'.trans hpassword⟩
  refine ⟨hproven, h.nextUid, h.admins, h.accounts, fun v hv => ?_, h.page⟩
  obtain rfl := Option.some.inj hv
  exact hproven

/-- `signInWithEmailAndPassword` finds the account. -/
theorem Secure.found (h : Secure s₀ as s) (hstart : Starts s₀) {email password : String}
    (hback : Backed s₀ as (.signInWithPassword email password)) {e : ℕ × AuthAccount}
    (he : (s.accounts.entries.find? fun e => e.2.email = email ∧ e.2.password = password) = some e) :
    Backed s₀ as (.getUserDoc e.1 e.2.verified) ∧ Secure s₀ as { s with currentUser := some e.1 } := by
  have hfound := List.find?_some he
  rw [decide_eq_true_eq] at hfound
  obtain ⟨rfl, rfl⟩ := hfound
  exact h.signedIn hstart (LinkedMap.get?_eq_some_iff.mpr (List.mem_of_find?_eq_some he)) hback

/-- The role that is read is one of the start. -/
theorem Secure.role (h : Secure s₀ as s) {uid : ℕ} {v : Bool}
    (hback : Backed s₀ as (.getUserDoc uid v)) : Backed s₀ as (.setRememberMe (roleOf s uid)) := by
  intro hadmin
  have hadmin' : isAdmin s₀ uid := (h.admins uid).mp hadmin
  exact ⟨uid, hadmin', hback hadmin'⟩

/-- **A call that goes on knows what it needs.** -/
theorem secure_resume (h : Secure s₀ as s) (hstart : Starts s₀) {c : Call} {o : Outcome}
    {n : Option Awaits} (hback : Backed s₀ as c.awaits) (hr : resume s c o = some (t, n)) :
    Secure s₀ as t ∧ ∀ w ∈ n, Backed s₀ as w := by
  have hnone : ∀ w ∈ (none : Option Awaits), Backed s₀ as w := fun w hw => by cases hw
  have hsome : ∀ w, Backed s₀ as w → ∀ v ∈ some w, Backed s₀ as v := fun w hw v hv =>
    Option.some.inj hv ▸ hw
  by_cases ho : o = .ok
  · subst ho
    obtain ⟨page, w⟩ := c
    cases w with
    | createUser r =>
      simp only [resume, Option.ite_none_left_eq_some, Option.some.injEq, Prod.mk.injEq] at hr
      obtain ⟨-, rfl, rfl⟩ := hr
      exact ⟨h.created hstart r, hsome _ h.nextUid⟩
    | setUserDoc uid r =>
      obtain ⟨rfl, rfl⟩ := Prod.mk.inj (Option.some.inj hr)
      exact ⟨h.documented hstart hback r, hsome _ trivial⟩
    | sendEmailVerification uid =>
      obtain ⟨rfl, rfl⟩ := Prod.mk.inj (Option.some.inj hr)
      have hmail : Secure s₀ as { s with mails := s.mails ++ [uid] } :=
        h.frame ⟨rfl, rfl, rfl, rfl⟩ Or.inl
      exact ⟨hmail.finishTo _ fun hp => (by cases hp), hnone⟩
    | signInWithPassword email password =>
      obtain ⟨e, he, heq⟩ := Option.map_eq_some_iff.mp hr
      obtain ⟨rfl, rfl⟩ := Prod.mk.inj heq
      obtain ⟨hread, hsecure⟩ := h.found hstart hback he
      exact ⟨hsecure, hsome _ hread⟩
    | getUserDoc uid v =>
      simp only [resume] at hr
      split_ifs at hr with hrole
      · obtain ⟨rfl, rfl⟩ := Prod.mk.inj (Option.some.inj hr)
        exact ⟨h, hsome _ trivial⟩
      · obtain ⟨rfl, rfl⟩ := Prod.mk.inj (Option.some.inj hr)
        exact ⟨h, hsome _ (h.role hback)⟩
    | signOut uid =>
      obtain ⟨rfl, rfl⟩ := Prod.mk.inj (Option.some.inj hr)
      exact ⟨h.signedOut.finish _ _, hnone⟩
    | setRememberMe role =>
      obtain ⟨rfl, rfl⟩ := Prod.mk.inj (Option.some.inj hr)
      exact ⟨h.frame ⟨rfl, rfl, rfl, rfl⟩ Or.inl, hsome _ hback⟩
    | setPresence role =>
      obtain ⟨rfl, rfl⟩ := Prod.mk.inj (Option.some.inj hr)
      refine ⟨h.finishTo _ fun hp => ?_, hnone⟩
      split_ifs at hp with hrole
      exact hback hrole
  · obtain ⟨message, hf⟩ := exists_finish s c ho
    obtain ⟨rfl, rfl⟩ := Prod.mk.inj (Option.some.inj (hf.symm.trans hr))
    exact ⟨h.finish c message, hnone⟩

theorem Inv.mono (h : Inv s₀ as t) (b : Action) : Inv s₀ (as ++ [b]) t :=
  ⟨h.toSecure.mono b, fun c hc => (h.calls c hc).mono b⟩

/-- A page of the app is opened. -/
theorem Secure.opened (h : Secure s₀ as s) {page : Page} (hpage : page = .admin → AdminProven s₀ as) :
    Secure s₀ as (goTo s page) :=
  h.frame (sameSession_goTo s page) fun hp => Or.inr (hpage hp)

/-- **A step of the device keeps it**, if it does not follow a link to the dashboard. -/
theorem inv_device (h : Inv s₀ as s) (hstart : Starts s₀) {a : Account.Action}
    (hlink : a ≠ .navigate .admin) (hs : Account.step s a = some t) :
    Inv s₀ (as ++ [.device a]) t := by
  have hnow : Inv s₀ (as ++ [.device a]) s := h.mono _
  cases steps_of_step hs with
  | navigated page =>
    refine ⟨hnow.toSecure.opened fun hp => ?_, hnow.calls⟩
    subst hp
    exact absurd rfl hlink
  | toggled value | rejected =>
    exact ⟨hnow.toSecure.frame ⟨rfl, rfl, rfl, rfl⟩ Or.inl, hnow.calls⟩
  | registers =>
    refine ⟨hnow.toSecure.frame ⟨rfl, rfl, rfl, rfl⟩ Or.inl, ?_⟩
    exact Calls.forall_mem_concat hnow.calls trivial
  | signsIn =>
    rename_i email password _
    refine ⟨hnow.toSecure.frame ⟨rfl, rfl, rfl, rfl⟩ Or.inl, ?_⟩
    refine Calls.forall_mem_concat hnow.calls ⟨email, password, ?_, rfl, rfl⟩
    exact List.mem_append_right _ (List.mem_singleton_self _)
  | resumed hk hr =>
    rename_i k o c r
    obtain ⟨u, n⟩ := r
    obtain ⟨hsecure, hnext⟩ := secure_resume hnow.toSecure hstart
      (hnow.calls c (List.mem_of_getElem? hk)) hr
    refine ⟨hsecure.frame ⟨rfl, rfl, rfl, rfl⟩ Or.inl, ?_⟩
    cases n with
    | none => exact Calls.forall_mem_eraseIdx hnow.calls
    | some w => exact Calls.forall_mem_set hnow.calls (hnext w rfl)
  | verified _ ha =>
    rename_i uid a _
    refine ⟨⟨hnow.nextUid, hnow.admins, fun v b hb hlt => ?_, hnow.session, hnow.page⟩, hnow.calls⟩
    by_cases hv : v = uid
    · subst hv
      have hb' := (LinkedMap.get?_set_self s.accounts v { a with verified := true }).symm.trans hb
      obtain rfl := Option.some.inj hb'
      exact hnow.accounts v a ha hlt
    · have hold := (LinkedMap.get?_set_of_ne s.accounts hv { a with verified := true }).symm.trans hb
      exact hnow.accounts v b hold hlt
  | signedOut =>
    exact ⟨hnow.toSecure.signedOut.opened fun hp => (by cases hp), hnow.calls⟩
  | restarted =>
    refine ⟨(hnow.toSecure.opened fun hp => ?_).frame ⟨rfl, rfl, rfl, rfl⟩ Or.inl, ?_⟩
    · cases hp
    · exact Calls.forall_mem_of_nil rfl

/-- The gate opens the dashboard of the admin who is signed in. -/
theorem gatePage_admin {isWeb remembered : Bool} (h : gatePage s isWeb remembered = .admin) :
    ∃ uid, s.currentUser = some uid ∧ isAdmin s uid := by
  unfold gatePage at h
  cases hu : s.currentUser with
  | none =>
    rw [hu] at h
    cases h
  | some uid =>
    rw [hu] at h
    simp only at h
    split_ifs at h with hrole
    exact ⟨uid, rfl, hrole.2.1⟩

/-- A document is deleted that makes nobody an admin. -/
theorem Secure.deleted (h : Secure s₀ as s) {uid : ℕ} (hrole : ¬ roleOf s uid = "admin") :
    Secure s₀ as { s with users := s.users.erase uid } := by
  refine ⟨h.nextUid, fun v => ?_, h.accounts, h.session, h.page⟩
  rw [← h.admins v]
  unfold isAdmin
  by_cases hv : v = uid
  · subst hv
    refine iff_of_false (fun hadmin => ?_) hrole
    unfold roleOf at hadmin
    rw [LinkedMap.get?_erase, if_pos rfl] at hadmin
    exact absurd hadmin (by decide)
  · unfold roleOf
    rw [LinkedMap.get?_erase, if_neg hv]

theorem inv_step (h : Inv s₀ as s) (hstart : Starts s₀) {a : Action} (hs : step s a = some t) :
    Inv s₀ (as ++ [a]) t := by
  cases a with
  | device a =>
    have hlink : a ≠ .navigate .admin := by
      rintro rfl
      cases hs
    rw [step_device hlink] at hs
    exact inv_device h hstart hlink hs
  | gate isWeb remembered =>
    have hnow : Inv s₀ (as ++ [.gate isWeb remembered]) s := h.mono _
    simp only [step, Option.ite_none_right_eq_some, Option.some.injEq] at hs
    obtain ⟨-, rfl⟩ := hs
    refine ⟨hnow.toSecure.opened fun hp => ?_, hnow.calls⟩
    obtain ⟨uid, hu, hadmin⟩ := gatePage_admin hp
    have hadmin' : isAdmin s₀ uid := (hnow.admins uid).mp hadmin
    exact ⟨uid, hadmin', hnow.session uid hu hadmin'⟩
  | deleteUser uid =>
    have hnow : Inv s₀ (as ++ [.deleteUser uid]) s := h.mono _
    simp only [step, Option.ite_none_left_eq_some, Option.some.injEq] at hs
    obtain ⟨hrole, rfl⟩ := hs
    exact ⟨hnow.toSecure.deleted hrole, hnow.calls⟩

theorem inv_run (hstart : Starts s₀) (h : run step s₀ as = some t) : Inv s₀ as t :=
  run_history (J := Inv s₀) ⟨secure_start hstart, Calls.forall_mem_of_nil hstart.calls⟩
    (fun _ _ _ _ _ hI hs => inv_step hI hstart hs) h

/-- A user and an admin. -/
def office : State :=
  { Account.installed with
    accounts := (LinkedMap.empty.set 0
      { email := "ayse@example.com", password := "Sifre1234", verified := true }).set 1
      { email := "destek@example.com", password := "Destek5678", verified := false }
    users := (LinkedMap.empty.set 0
      { full_name := "Ayşe", email := "ayse@example.com", role := some "user" }).set 1
      { full_name := "Destek", email := "destek@example.com", role := some "admin" } }

theorem starts_office : Starts office := ⟨rfl, by decide, by decide, by decide⟩

/-- The admin signs in, and deletes the user. -/
def deletes : List Action :=
  [.device (.navigate .login), .device (.pressSignIn " destek@example.com" "Destek5678"),
    .device (.next 0 .ok), .device (.next 0 .ok), .device (.next 0 .ok), .device (.next 0 .ok),
    .deleteUser 0]

theorem run_deletes : ∃ t, run step office deletes = some t ∧ t.page = .admin :=
  Option.map_eq_some_iff.mp (show (run step office deletes).map State.page = some .admin by decide)

/-- **In every run the admins are those of the start.** -/
theorem admins_same (hstart : Starts s₀) (h : run step s₀ as = some t) (uid : ℕ) :
    isAdmin t uid ↔ isAdmin s₀ uid :=
  (inv_run hstart h).admins uid

theorem admins_same_office :
    ∃ t, run step office deletes = some t ∧ ∀ uid, isAdmin t uid ↔ isAdmin office uid := by
  obtain ⟨t, ht, -⟩ := run_deletes
  exact ⟨t, ht, admins_same starts_office ht⟩

/-- **When a device shows the dashboard, an admin has signed in**: one who was at the start, or whose
e-mail and password have been typed. -/
theorem dashboard_proven (hstart : Starts s₀) (h : run step s₀ as = some t) (hpage : t.page = .admin) :
    ∃ uid, isAdmin s₀ uid ∧ isAdmin t uid ∧ Proven s₀ as uid := by
  obtain ⟨uid, hadmin, hproven⟩ := (inv_run hstart h).page hpage
  exact ⟨uid, hadmin, ((inv_run hstart h).admins uid).mpr hadmin, hproven⟩

theorem dashboard_proven_office :
    ∃ t, run step office deletes = some t ∧
      ∃ uid, isAdmin office uid ∧ isAdmin t uid ∧ Proven office deletes uid := by
  obtain ⟨t, ht, hpage⟩ := run_deletes
  exact ⟨t, ht, dashboard_proven starts_office ht hpage⟩

/-! ### Users the admins delete -/

/-- The accounts have old ids and e-mails of their own. -/
structure WellFormed (s : State) : Prop where
  ids : ∀ uid ∈ s.accounts.keys, uid < s.nextUid
  emails : ∀ e ∈ s.accounts.entries, ∀ e' ∈ s.accounts.entries, e.2.email = e'.2.email → e = e'

/-- The document is gone, and the account is there. -/
structure Gone (uid : ℕ) (a : AuthAccount) (s : State) : Prop extends WellFormed s where
  users : s.users.get? uid = none
  account : ∃ a', s.accounts.get? uid = some a' ∧ a'.email = a.email ∧ a'.password = a.password ∧
    (a.verified = true → a'.verified = true)

/-- Nor is a registration about to write the document. -/
structure Removed (uid : ℕ) (a : AuthAccount) (s : State) : Prop extends Gone uid a s where
  calls : ∀ c ∈ s.calls, ∀ r, c.awaits ≠ .setUserDoc uid r

section Removed

variable {uid : ℕ} {a : AuthAccount}

theorem WellFormed.congr (h : WellFormed s) (haccounts : t.accounts = s.accounts)
    (hnext : t.nextUid = s.nextUid) : WellFormed t := by
  refine ⟨?_, ?_⟩
  · rw [haccounts, hnext]
    exact h.ids
  · rw [haccounts]
    exact h.emails

theorem Gone.congr (h : Gone uid a s) (haccounts : t.accounts = s.accounts) (husers : t.users = s.users)
    (hnext : t.nextUid = s.nextUid) : Gone uid a t := by
  obtain ⟨hw, hnone, haccount⟩ := h
  refine ⟨hw.congr haccounts hnext, ?_, ?_⟩
  · rw [husers]
    exact hnone
  · rw [haccounts]
    exact haccount

theorem Gone.same (h : Gone uid a s) (hs : SameSession s t) : Gone uid a t :=
  h.congr hs.accounts hs.users hs.nextUid

/-- The ids to come are not that of the account. -/
theorem Gone.lt (h : Gone uid a s) : uid < s.nextUid := by
  obtain ⟨a', ha', -⟩ := h.account
  exact h.ids uid (LinkedMap.mem_keys_iff.mpr ⟨a', ha'⟩)

/-- An account is created for an e-mail that no other has. -/
theorem WellFormed.created (h : WellFormed s) {r : Registration} (hfree : Free s r.email) :
    WellFormed (createUser s r) := by
  have hentry : ∀ e ∈ (createUser s r).accounts.entries,
      e = (s.nextUid, { email := r.email, password := r.password, verified := false }) ∨
        e ∈ s.accounts.entries := by
    intro e he
    have hget := LinkedMap.get?_eq_some_iff.mpr he
    by_cases hid : e.1 = s.nextUid
    · rw [hid] at hget
      have hnew := (LinkedMap.get?_set_self s.accounts s.nextUid _).symm.trans hget
      exact Or.inl (Prod.ext hid (Option.some.inj hnew).symm)
    · have hold := (LinkedMap.get?_set_of_ne s.accounts hid _).symm.trans hget
      exact Or.inr (LinkedMap.get?_eq_some_iff.mp hold)
  refine ⟨fun v hv => ?_, fun e he e' he' heq => ?_⟩
  · change v < s.nextUid + 1
    rcases LinkedMap.mem_keys_set.mp hv with rfl | hv
    · omega
    · have := h.ids v hv
      omega
  · rcases hentry e he with rfl | hold <;> rcases hentry e' he' with rfl | hold'
    · rfl
    · exact absurd heq.symm (hfree e' hold')
    · exact absurd heq (hfree e hold)
    · exact h.emails e hold e' hold' heq

theorem Gone.created (h : Gone uid a s) {r : Registration} (hfree : Free s r.email) :
    Gone uid a (createUser s r) := by
  refine ⟨h.toWellFormed.created hfree, h.users, ?_⟩
  obtain ⟨a', ha', hsame⟩ := h.account
  have hne : uid ≠ s.nextUid := by
    have := h.lt
    omega
  exact ⟨a', (LinkedMap.get?_set_of_ne s.accounts hne _).trans ha', hsame⟩

/-- The e-mail of an account is verified. -/
theorem WellFormed.verified (h : WellFormed s) {v : ℕ} {b : AuthAccount}
    (hb : s.accounts.get? v = some b) :
    WellFormed { s with accounts := s.accounts.set v { b with verified := true } } := by
  -- the entries have the ids and e-mails they had
  have hentry : ∀ e ∈ (s.accounts.set v { b with verified := true }).entries,
      ∃ c, (e.1, c) ∈ s.accounts.entries ∧ c.email = e.2.email := by
    intro e he
    have hget := LinkedMap.get?_eq_some_iff.mpr he
    by_cases hid : e.1 = v
    · rw [hid] at hget ⊢
      have hnew := (LinkedMap.get?_set_self s.accounts v _).symm.trans hget
      refine ⟨b, LinkedMap.get?_eq_some_iff.mp hb, ?_⟩
      rw [← Option.some.inj hnew]
    · have hold := (LinkedMap.get?_set_of_ne s.accounts hid _).symm.trans hget
      exact ⟨e.2, LinkedMap.get?_eq_some_iff.mp hold, rfl⟩
  refine ⟨fun w hw => ?_, fun e he e' he' heq => ?_⟩
  · rcases LinkedMap.mem_keys_set.mp hw with rfl | hw
    · exact h.ids w (LinkedMap.mem_keys_iff.mpr ⟨b, hb⟩)
    · exact h.ids w hw
  · obtain ⟨c, hc, hmail⟩ := hentry e he
    obtain ⟨c', hc', hmail'⟩ := hentry e' he'
    have hsame := h.emails _ hc _ hc' (hmail.trans (heq.trans hmail'.symm))
    have hid : e.1 = e'.1 := (Prod.mk.inj hsame).1
    have hget := LinkedMap.get?_eq_some_iff.mpr he
    have hget' := LinkedMap.get?_eq_some_iff.mpr he'
    rw [hid] at hget
    exact Prod.ext hid (Option.some.inj (hget.symm.trans hget'))

theorem Gone.verified (h : Gone uid a s) {v : ℕ} {b : AuthAccount} (hb : s.accounts.get? v = some b) :
    Gone uid a { s with accounts := s.accounts.set v { b with verified := true } } := by
  refine ⟨h.toWellFormed.verified hb, h.users, ?_⟩
  obtain ⟨a', ha', hemail, hpassword, hverified⟩ := h.account
  by_cases hv : uid = v
  · subst hv
    obtain rfl := Option.some.inj (hb.symm.trans ha')
    exact ⟨_, LinkedMap.get?_set_self .., hemail, hpassword, fun _ => rfl⟩
  · exact ⟨a', (LinkedMap.get?_set_of_ne s.accounts hv _).trans ha', hemail, hpassword, hverified⟩

/-- `createUserWithEmailAndPassword` succeeds if the e-mail is free. -/
theorem free_of_created {c : Call} {o : Outcome} {r : Registration} {n : Option Awaits}
    (hw : c.awaits = .createUser r) (hr : resume s c o = some (createUser s r, n)) (hn : n ≠ none) :
    Free s r.email := by
  by_cases ho : o = .ok
  · subst ho
    obtain ⟨page, w⟩ := c
    subst hw
    simp only [resume, Option.ite_none_left_eq_some] at hr
    exact free_iff.mp hr.1
  · obtain ⟨message, hf⟩ := exists_finish s c ho
    obtain ⟨-, rfl⟩ := Prod.mk.inj (Option.some.inj (hf.symm.trans hr))
    exact absurd rfl hn

/-- **A call that goes on leaves the account, and does not write the document.** -/
theorem gone_resume (h : Gone uid a s) {c : Call} {o : Outcome} {n : Option Awaits}
    (hc : ∀ r, c.awaits ≠ .setUserDoc uid r) (hr : resume s c o = some (t, n)) :
    Gone uid a t ∧ ∀ w ∈ n, ∀ r, w ≠ .setUserDoc uid r := by
  cases resumes_of_resume hr with
  | created r hw =>
    refine ⟨h.created (free_of_created hw hr (Option.some_ne_none _)), fun w hw r' he => ?_⟩
    obtain rfl := Option.some.inj hw
    have hid := (Awaits.setUserDoc.inj he).1
    have := h.lt
    omega
  | documented v r hw =>
    have hv : uid ≠ v := by
      rintro rfl
      exact hc r hw
    refine ⟨⟨⟨h.ids, h.emails⟩, ?_, h.account⟩, fun w hw r' he => ?_⟩
    · exact (LinkedMap.get?_set_of_ne s.users hv _).trans h.users
    · obtain rfl := Option.some.inj hw
      cases he
  | signedIn v b hw hb | refused v b hw | passed v b hw hpass =>
    refine ⟨h.congr rfl rfl rfl, fun w hw r' he => ?_⟩
    obtain rfl := Option.some.inj hw
    cases he
  | remembered role _ hw ht =>
    refine ⟨h.same ht, fun w hw r' he => ?_⟩
    obtain rfl := Option.some.inj hw
    cases he
  | signedOut _ ht =>
    have hout : Gone uid a { s with currentUser := none } := h.congr rfl rfl rfl
    exact ⟨hout.same ht, fun w hw => by cases hw⟩
  | ended _ hw ht => exact ⟨h.same ht, fun w hw => by cases hw⟩

theorem removed_device (h : Removed uid a s) {b : Account.Action} (hs : Account.step s b = some t) :
    Removed uid a t := by
  have hgone : Gone uid a s := h.toGone
  cases steps_of_step hs with
  | navigated page => exact ⟨hgone.same (sameSession_goTo s page), h.calls⟩
  | toggled value | rejected => exact ⟨hgone.congr rfl rfl rfl, h.calls⟩
  | registers | signsIn =>
    refine ⟨hgone.congr rfl rfl rfl, Calls.forall_mem_concat h.calls fun r he => ?_⟩
    cases he
  | resumed hk hr =>
    rename_i k o c r
    obtain ⟨u, n⟩ := r
    obtain ⟨hgone', hnext⟩ := gone_resume hgone (h.calls c (List.mem_of_getElem? hk)) hr
    refine ⟨hgone'.congr rfl rfl rfl, ?_⟩
    cases n with
    | none => exact Calls.forall_mem_eraseIdx h.calls
    | some w => exact Calls.forall_mem_set h.calls (hnext w rfl)
  | verified _ hb => exact ⟨hgone.verified hb, h.calls⟩
  | signedOut =>
    have hout : Gone uid a { s with currentUser := none } := hgone.congr rfl rfl rfl
    exact ⟨hout.same (sameSession_goTo _ .home), h.calls⟩
  | restarted =>
    exact ⟨(hgone.same (sameSession_goTo s .home)).congr rfl rfl rfl, Calls.forall_mem_of_nil rfl⟩

theorem removed_step (h : Removed uid a s) {b : Action} (hs : step s b = some t) : Removed uid a t := by
  cases b with
  | device b =>
    have hlink : b ≠ .navigate .admin := by
      rintro rfl
      cases hs
    rw [step_device hlink] at hs
    exact removed_device h hs
  | gate isWeb remembered =>
    simp only [step, Option.ite_none_right_eq_some, Option.some.injEq] at hs
    obtain ⟨-, rfl⟩ := hs
    exact ⟨h.toGone.same (sameSession_goTo s _), h.calls⟩
  | deleteUser v =>
    simp only [step, Option.ite_none_left_eq_some, Option.some.injEq] at hs
    obtain ⟨-, rfl⟩ := hs
    refine ⟨⟨⟨h.ids, h.emails⟩, ?_, h.account⟩, h.calls⟩
    change (s.users.erase v).get? uid = none
    rw [LinkedMap.get?_erase]
    split_ifs
    · rfl
    · exact h.users

end Removed

/-! ### Documents that are about to be written -/

/-- The account whose document a registration writes next. -/
def Awaits.writes : Awaits → Option ℕ
  | .setUserDoc uid _ => some uid
  | _ => none

/-- The accounts whose documents the running registrations write next. -/
def written (calls : List Call) : List ℕ := calls.filterMap fun c => Awaits.writes c.awaits

/-- Each registration writes the document of an account of its own, which is not there yet. -/
structure Writing (s : State) : Prop extends WellFormed s where
  users : ∀ uid ∈ s.users.keys, uid < s.nextUid
  fresh : ∀ uid ∈ written s.calls, uid < s.nextUid ∧ uid ∉ s.users.keys
  nodup : (written s.calls).Nodup

theorem mem_written {calls : List Call} {c : Call} (hc : c ∈ calls) {uid : ℕ} {r : Registration}
    (hw : c.awaits = .setUserDoc uid r) : uid ∈ written calls :=
  List.mem_filterMap.mpr ⟨c, hc, by rw [hw]; rfl⟩

/-- What becomes of the calls when one goes on, or ends. -/
def after (calls : List Call) (k : ℕ) (c : Call) : Option Awaits → List Call
  | some w => calls.set k { c with awaits := w }
  | none => calls.eraseIdx k

theorem written_after {calls : List Call} {k : ℕ} {c : Call} (hc : calls[k]? = some c)
    (n : Option Awaits) :
    (written (after calls k c n)).Perm
      ((n.bind Awaits.writes).toList ++ written (calls.eraseIdx k)) := by
  cases n with
  | none => exact List.Perm.refl _
  | some w =>
    refine ((Calls.set_perm hc { c with awaits := w }).filterMap _).trans ?_
    rw [List.filterMap_cons]
    cases hw : Awaits.writes w <;> simp [hw, written]

theorem written_eraseIdx (calls : List Call) (k : ℕ) :
    (written (calls.eraseIdx k)).Subperm (written calls) :=
  ((List.eraseIdx_sublist _ _).filterMap _).subperm

/-- Nothing else is written. -/
theorem Writing.frame (h : Writing s) (hw : WellFormed t) (husers : t.users.keys ⊆ s.users.keys)
    (hnext : t.nextUid = s.nextUid) (hcalls : (written t.calls).Subperm (written s.calls)) :
    Writing t where
  toWellFormed := hw
  users uid hu := hnext ▸ h.users uid (husers hu)
  fresh uid hu := by
    obtain ⟨hlt, hno⟩ := h.fresh uid (hcalls.subset hu)
    exact ⟨hnext ▸ hlt, fun hmem => hno (husers hmem)⟩
  nodup := by
    obtain ⟨l, hperm, hsub⟩ := hcalls
    exact hperm.nodup_iff.mp (h.nodup.sublist hsub)

/-- The document of a new account is to be written. -/
theorem Writing.created (h : Writing s) {k : ℕ} {c : Call} (hc : s.calls[k]? = some c)
    {r : Registration} (hfree : Free s r.email) :
    Writing { createUser s r with calls := after s.calls k c (some (.setUserDoc s.nextUid r)) } := by
  have hperm : (written (after s.calls k c (some (.setUserDoc s.nextUid r)))).Perm
      (s.nextUid :: written (s.calls.eraseIdx k)) := written_after hc _
  have hleft := written_eraseIdx s.calls k
  refine ⟨(h.toWellFormed.created hfree).congr rfl rfl, fun uid hu => ?_, fun uid hu => ?_, ?_⟩
  · exact (h.users uid hu).trans (Nat.lt_succ_self _)
  · rcases List.mem_cons.mp (hperm.mem_iff.mp hu) with rfl | hu
    · exact ⟨Nat.lt_succ_self _, fun hmem => lt_irrefl _ (h.users _ hmem)⟩
    · exact (h.fresh uid (hleft.subset hu)).imp_left fun hlt => hlt.trans (Nat.lt_succ_self _)
  · obtain ⟨l, hl, hsub⟩ := hleft
    refine hperm.nodup_iff.mpr (List.nodup_cons.mpr ⟨fun hu => ?_, ?_⟩)
    · exact lt_irrefl _ (h.fresh _ (hsub.subset (hl.mem_iff.mpr hu))).1
    · exact hl.nodup_iff.mp (h.nodup.sublist hsub)

/-- The document of an account is written, and no other registration writes it. -/
theorem Writing.documented (h : Writing s) {k : ℕ} {c : Call} (hc : s.calls[k]? = some c) {uid : ℕ}
    {r : Registration} (hw : c.awaits = .setUserDoc uid r) :
    Writing { setUserDoc s uid r with
      calls := after s.calls k c (some (.sendEmailVerification uid)) } := by
  have hperm : (written (after s.calls k c (some (.sendEmailVerification uid)))).Perm
      (written (s.calls.eraseIdx k)) := written_after hc _
  have hbefore : (written s.calls).Perm (uid :: written (s.calls.eraseIdx k)) := by
    refine ((Calls.perm_cons_eraseIdx hc).filterMap _).trans ?_
    rw [List.filterMap_cons_some (b := uid) (by rw [hw]; rfl)]
    exact List.Perm.refl _
  obtain ⟨huid, hnodup⟩ := List.nodup_cons.mp (hbefore.nodup_iff.mp h.nodup)
  have hold := h.fresh uid (hbefore.mem_iff.mpr (List.mem_cons_self ..))
  refine ⟨h.toWellFormed.congr rfl rfl, fun v hv => ?_, fun v hv => ?_, hperm.nodup_iff.mpr hnodup⟩
  · rcases LinkedMap.mem_keys_set.mp hv with rfl | hv
    · exact hold.1
    · exact h.users v hv
  · have hleft := hperm.mem_iff.mp hv
    obtain ⟨hlt, hno⟩ := h.fresh v (hbefore.mem_iff.mpr (List.mem_cons_of_mem _ hleft))
    refine ⟨hlt, fun hmem => ?_⟩
    rcases LinkedMap.mem_keys_set.mp hmem with rfl | hmem
    · exact huid hleft
    · exact hno hmem

/-- **A call that goes on leaves each registration a document of its own.** -/
theorem writing_resume (h : Writing s) {k : ℕ} {c : Call} (hc : s.calls[k]? = some c) {o : Outcome}
    {n : Option Awaits} (hr : resume s c o = some (t, n)) :
    Writing { t with calls := after s.calls k c n } := by
  have hless : n.bind Awaits.writes = none →
      (written (after s.calls k c n)).Subperm (written s.calls) := fun hn => by
    have hperm := written_after hc n
    rw [hn] at hperm
    exact hperm.subperm.trans (written_eraseIdx _ _)
  have hsame : ∀ u, SameSession s u → n.bind Awaits.writes = none →
      Writing { u with calls := after s.calls k c n } := fun u hu hn => by
    refine h.frame (h.toWellFormed.congr hu.accounts hu.nextUid) ?_ hu.nextUid (hless hn)
    change u.users.keys ⊆ _
    rw [hu.users]
    exact List.Subset.refl _
  cases resumes_of_resume hr with
  | created r hw => exact h.created hc (free_of_created hw hr (Option.some_ne_none _))
  | documented uid r hw => exact h.documented hc hw
  | signedIn uid a hw ha =>
    exact h.frame (h.toWellFormed.congr rfl rfl) (List.Subset.refl _) rfl (hless rfl)
  | refused uid v hw => exact hsame s (.refl s) rfl
  | passed uid v hw hpass => exact hsame s (.refl s) rfl
  | remembered role _ hw ht => exact hsame t ht rfl
  | signedOut _ ht =>
    refine h.frame (h.toWellFormed.congr ht.accounts ht.nextUid) ?_ ht.nextUid (hless rfl)
    change t.users.keys ⊆ _
    rw [ht.users]
    exact List.Subset.refl _
  | ended _ hw ht => exact hsame t ht rfl

theorem writing_device (h : Writing s) {b : Account.Action} (hs : Account.step s b = some t) :
    Writing t := by
  have hframe : ∀ calls, (written calls).Subperm (written s.calls) → ∀ u : State,
      u.accounts = s.accounts → u.users = s.users → u.nextUid = s.nextUid → u.calls = calls →
      Writing u := fun calls hcalls u haccounts husers hnext hu => by
    refine h.frame (h.toWellFormed.congr haccounts hnext) ?_ hnext (hu ▸ hcalls)
    rw [husers]
    exact List.Subset.refl _
  have hnew : ∀ c : Call, Awaits.writes c.awaits = none →
      (written (s.calls ++ [c])).Subperm (written s.calls) := fun c hc => by
    have hone : written [c] = [] := by simp [written, hc]
    unfold written at hone ⊢
    rw [List.filterMap_append, hone, List.append_nil]
  cases steps_of_step hs with
  | navigated page | signedOut | toggled value | rejected =>
    exact hframe s.calls (List.Subperm.refl _) _ rfl rfl rfl rfl
  | registers | signsIn => exact hframe _ (hnew _ rfl) _ rfl rfl rfl rfl
  | resumed hk hr =>
    rename_i k o c r
    obtain ⟨u, n⟩ := r
    have hafter := writing_resume h hk hr
    cases n <;> exact hafter
  | verified _ hb =>
    exact h.frame (h.toWellFormed.verified hb) (List.Subset.refl _) rfl (List.Subperm.refl _)
  | restarted => exact hframe [] List.nil_subperm _ rfl rfl rfl rfl

/-- **Every step does.** -/
theorem writing_step (h : Writing s) {b : Action} (hs : step s b = some t) : Writing t := by
  cases b with
  | device b =>
    have hlink : b ≠ .navigate .admin := by
      rintro rfl
      cases hs
    rw [step_device hlink] at hs
    exact writing_device h hs
  | gate isWeb remembered =>
    simp only [step, Option.ite_none_right_eq_some, Option.some.injEq] at hs
    obtain ⟨-, rfl⟩ := hs
    exact h.frame (h.toWellFormed.congr rfl rfl) (List.Subset.refl _) rfl (List.Subperm.refl _)
  | deleteUser uid =>
    simp only [step, Option.ite_none_left_eq_some, Option.some.injEq] at hs
    obtain ⟨-, rfl⟩ := hs
    refine h.frame (h.toWellFormed.congr rfl rfl) (fun v hv => ?_) rfl (List.Subperm.refl _)
    obtain ⟨doc, hdoc⟩ := LinkedMap.mem_keys_iff.mp hv
    rw [LinkedMap.get?_erase] at hdoc
    split_ifs at hdoc
    exact LinkedMap.mem_keys_iff.mpr ⟨doc, hdoc⟩

/-- At the start nothing is about to be written. -/
theorem writing_start (hstart : Starts s₀)
    (hemails : ∀ e ∈ s₀.accounts.entries, ∀ e' ∈ s₀.accounts.entries, e.2.email = e'.2.email → e = e') :
    Writing s₀ := by
  have hnone : written s₀.calls = [] := by rw [hstart.calls]; rfl
  refine ⟨⟨hstart.accounts, hemails⟩, hstart.users, ?_, ?_⟩
  · rw [hnone]
    exact fun _ hu => absurd hu List.not_mem_nil
  · rw [hnone]
    exact List.nodup_nil

/-! ### Signing in after that -/

/-- The login form is submitted, and no call of this `_signIn` fails. -/
def signIn (s : State) (email password : String) : Option State :=
  run Account.step s (.pressSignIn email password :: List.replicate 4 (.next s.calls.length .ok))

/-- **The e-mail and the password of an entitled account lead on**, to the dashboard for an admin. -/
theorem signIn_ok {email password : String} {e : ℕ × AuthAccount} (hpage : s.page = .login)
    (hload : s.isLoading = false)
    (hfind : (s.accounts.entries.find? fun e => e.2.email = trim email ∧ e.2.password = trim password) =
      some e) (hpass : ¬ (roleOf s e.1 ≠ "admin" ∧ e.2.verified = false)) :
    ∃ t, signIn s email password = some t ∧ t.currentUser = some e.1 ∧
      t.page = if roleOf s e.1 = "admin" then .admin else .home := by
  let c (w : Awaits) : Call := { page := s.pageId, awaits := w }
  let found : State := { pressed s with currentUser := some e.1 }
  let remembered : State := { found with rememberMe := rememberBox s s.pageId }
  have hsignIn : resume (withCall (pressed s) (c (.signInWithPassword (trim email) (trim password))))
      (c (.signInWithPassword (trim email) (trim password))) .ok =
      some (withCall found (c (.signInWithPassword (trim email) (trim password))),
        some (.getUserDoc e.1 e.2.verified)) := by
    change ((s.accounts.entries.find? _).map _) = _
    rw [hfind]
    rfl
  have hread : resume (withCall found (c (.getUserDoc e.1 e.2.verified)))
      (c (.getUserDoc e.1 e.2.verified)) .ok =
      some (withCall found (c (.getUserDoc e.1 e.2.verified)), some (.setRememberMe (roleOf s e.1))) :=
    if_neg hpass
  have hend : resume (withCall remembered (c (.setPresence (roleOf s e.1))))
      (c (.setPresence (roleOf s e.1))) .ok =
      some (goTo (withCall remembered (c (.setPresence (roleOf s e.1))))
        (if roleOf s e.1 = "admin" then .admin else .home), none) :=
    congrArg (fun u => some (u, none)) (if_pos rfl)
  have hpress : Account.step s (.pressSignIn email password) =
      some (withCall (pressed s) (c (.signInWithPassword (trim email) (trim password)))) :=
    if_pos ⟨hpage, hload⟩
  have hrun : signIn s email password =
      some { goTo (withCall remembered (c (.setPresence (roleOf s e.1))))
        (if roleOf s e.1 = "admin" then .admin else .home) with calls := s.calls ++ [] } := by
    unfold signIn
    rw [run_cons, hpress, Option.bind_some]
    refine (run_next (u := pressed s) hsignIn).trans ?_
    refine (run_next (u := found) hread).trans ?_
    refine (run_next (u := found) rfl).trans ?_
    exact run_next (u := remembered) hend
  exact ⟨_, hrun, rfl, rfl⟩

/-- The account is found by its e-mail and its password. -/
theorem WellFormed.find_eq (h : WellFormed s) {uid : ℕ} {a : AuthAccount}
    (ha : s.accounts.get? uid = some a) :
    (s.accounts.entries.find? fun e => e.2.email = a.email ∧ e.2.password = a.password) =
      some (uid, a) := by
  have hmem : (uid, a) ∈ s.accounts.entries := LinkedMap.get?_eq_some_iff.mp ha
  cases hf : s.accounts.entries.find? fun e => e.2.email = a.email ∧ e.2.password = a.password with
  | none =>
    have hno := List.find?_eq_none.mp hf (uid, a) hmem
    simp at hno
  | some e =>
    have hfound := List.find?_some hf
    rw [decide_eq_true_eq] at hfound
    rw [h.emails e (List.mem_of_find?_eq_some hf) (uid, a) hmem hfound.1]

theorem run_device {bs : List Account.Action} (hlink : ∀ b ∈ bs, b ≠ .navigate .admin) (s : State) :
    run step s (bs.map .device) = run Account.step s bs := by
  induction bs generalizing s with
  | nil => rfl
  | cons b bs ih =>
    obtain ⟨hb, hbs⟩ := List.forall_mem_cons.mp hlink
    rw [List.map_cons, run_cons, run_cons, step_device hb]
    exact congrArg _ (funext fun t => ih hbs t)

/-- **The account signs in** with texts that are its e-mail and its password when they are trimmed. -/
def SignsIn (s : State) (uid : ℕ) (a : AuthAccount) : Prop :=
  s.page = .login → s.isLoading = false → ∀ email password, trim email = a.email →
    trim password = a.password → ∃ t, run step s ((.pressSignIn email password ::
      List.replicate 4 (.next s.calls.length .ok)).map .device) = some t ∧
      t.currentUser = some uid ∧ t.page = .home

/-- A verified user whose document has been deleted signs in as before, if no registration is about to
write it. -/
theorem Removed.signsIn {uid : ℕ} {a : AuthAccount} (h : Removed uid a s) (hverified : a.verified = true) :
    SignsIn s uid a := by
  intro hpage hload email password hemail hpassword
  obtain ⟨a', ha', hemail', hpassword', hverified'⟩ := h.account
  have hrole : roleOf s uid = "user" := by
    unfold roleOf
    rw [h.users]
    rfl
  have hfind := h.find_eq ha'
  rw [hemail', hpassword', ← hemail, ← hpassword] at hfind
  have hpass : ¬ (roleOf s uid ≠ "admin" ∧ a'.verified = false) := by
    rw [hverified' hverified]
    simp
  obtain ⟨v, hv, huser, hhome⟩ := signIn_ok hpage hload hfind hpass
  rw [run_device (by simp)]
  refine ⟨v, hv, huser, hhome.trans ?_⟩
  rw [hrole]
  rfl

/-- **A verified user whose document has been deleted signs in as before**, and never gets a document
again: in every run that starts with one account for each e-mail, when the list of users shows one and
it is deleted there. -/
theorem deleted_signsIn {u : State} {uid : ℕ} {a : AuthAccount} {bs : List Action} (hstart : Starts s₀)
    (hemails : ∀ e ∈ s₀.accounts.entries, ∀ e' ∈ s₀.accounts.entries, e.2.email = e'.2.email → e = e')
    (h : run step s₀ as = some s) (hlisted : uid ∈ s.users.keys) (ha : s.accounts.get? uid = some a)
    (hverified : a.verified = true) (hs : step s (.deleteUser uid) = some t)
    (hu : run step t bs = some u) : u.users.get? uid = none ∧ SignsIn u uid a := by
  have hw : Writing s :=
    run_of_keeps (fun _ _ _ hJ hst => writing_step hJ hst) (writing_start hstart hemails) h
  have hgone : Removed uid a t := by
    simp only [step, Option.ite_none_left_eq_some, Option.some.injEq] at hs
    obtain ⟨-, rfl⟩ := hs
    refine ⟨⟨⟨hw.ids, hw.emails⟩, ?_, a, ha, rfl, rfl, id⟩, fun c hc r he => ?_⟩
    · change (s.users.erase uid).get? uid = none
      rw [LinkedMap.get?_erase, if_pos rfl]
    · exact (hw.fresh uid (mem_written hc he)).2 hlisted
  have hend : Removed uid a u := run_of_keeps (fun _ _ _ h hs => removed_step h hs) hgone hu
  exact ⟨hend.users, hend.signsIn hverified⟩

theorem deleted_signsIn_office :
    ∃ s t u a, run step office (deletes.take 6) = some s ∧ step s (.deleteUser 0) = some t ∧
      s.accounts.get? 0 = some a ∧ run step t [.device (.navigate .login)] = some u ∧
      u.users.get? 0 = none ∧ SignsIn u 0 a := by
  have hruns : ∃ s a t u, run step office (deletes.take 6) = some s ∧ 0 ∈ s.users.keys ∧
      s.accounts.get? 0 = some a ∧ a.verified = true ∧ step s (.deleteUser 0) = some t ∧
      run step t [.device (.navigate .login)] = some u :=
    ⟨_, _, _, _, rfl, by decide, rfl, rfl, rfl, rfl⟩
  obtain ⟨s, a, t, u, hs, hlisted, ha, hverified, ht, hu⟩ := hruns
  exact ⟨s, t, u, a, hs, ht, ha, hu,
    deleted_signsIn starts_office (by decide) hs hlisted ha hverified ht hu⟩

end KamuSinavi.Account.Roles
