import KamuSinavi.Lib.Calls
import KamuSinavi.Lib.Dart
import KamuSinavi.Lib.LinkedMap
import KamuSinavi.Lib.Runs

/-! # Accounts and the session of a device

Registering and signing in (`pages/registerPage.dart`, `pages/loginPage.dart`), signing out
(`pages/settingsPage.dart`) and starting the app (`AuthGate` in `main.dart`), over the accounts of
Firebase Auth and the `users` documents. Creating an account and signing in with a password make the
account the device's `currentUser`; the session survives restarts, and only signing out ends it.

`_register` and `_signIn` suspend at each call of the backend; `next k o` lets the `k`-th running call
go on with the outcome `o` of what it awaits. A page that is left takes no result any more, but its
call runs on. Restarting the app ends the calls. -/

namespace KamuSinavi.Account

open KamuSinavi.Lib KamuSinavi.Lib.Dart

structure AuthAccount where
  email : String
  password : String
  verified : Bool
  deriving DecidableEq

structure UserDoc where
  full_name : String
  email : String
  role : Option String
  deriving DecidableEq

inductive Page where
  | home
  | login
  | register
  | settings
  | admin
  deriving DecidableEq

/-- How a call of the backend ends. -/
inductive Outcome where
  | ok
  | authException (code message : String)
  | exception
  deriving DecidableEq

/-! ### Registering -/

/-- The fields of the registration form, with the flags of `_validatePassword`. -/
structure RegisterForm where
  fullName : String
  email : String
  password : String
  confirmPassword : String
  hasUppercase : Bool
  hasDigit : Bool
  agreedToTerms : Bool
  deriving DecidableEq

/-- What `_register` submits. -/
structure Registration where
  fullName : String
  email : String
  password : String
  deriving DecidableEq

/-- The checks of `_register`, in order, with their messages. -/
def validate (form : RegisterForm) : Except String Registration :=
  let password := trim form.password
  let confirmPassword := trim form.confirmPassword
  let fullName := trim form.fullName
  let email := trim form.email
  if fullName.isEmpty then .error "Ad Soyad boş bırakılamaz."
  else if email.isEmpty then .error "E-posta adresi boş bırakılamaz."
  else if (codeUnits password).length < 8 ∨ form.hasUppercase = false ∨ form.hasDigit = false then
    .error "Şifre en az 8 karakter, bir büyük harf ve bir rakam içermelidir."
  else if password ≠ confirmPassword then .error "Şifreler uyuşmuyor."
  else if form.agreedToTerms = false then .error "Sözleşmeyi kabul etmelisiniz."
  else .ok { fullName, email, password }

/-- The message `_register` shows of a failed call; it catches the exceptions of Firebase Auth
only. -/
def registerError : Outcome → Option String
  | .authException code message => some <|
    match code with
    | "invalid-email" => "Geçersiz e-posta adresi girdiniz."
    | "email-already-in-use" => "Bu e-posta adresi zaten kullanımda."
    | "weak-password" => "Şifreniz çok zayıf."
    | _ => "Bir hata oluştu: " ++ message
  | _ => none

/-! ### Signing in -/

/-- `getErrorMessage`. -/
def getErrorMessage : String → String
  | "invalid-email" => "Geçersiz e-posta adresi."
  | "user-not-found" => "Kullanıcı bulunamadı."
  | "wrong-password" => "Şifre yanlış."
  | "user-disabled" => "Hesap devre dışı bırakılmış."
  | _ => "Beklenmeyen hata oluştu."

/-- The message `_signIn` shows of a failed call. -/
def signInError : Outcome → Option String
  | .authException code _ => some (getErrorMessage code)
  | .exception => some "Bir hata oluştu. Lütfen daha sonra tekrar deneyiniz."
  | .ok => none

/-- What a running `_register` or `_signIn` awaits. A sign-in knows its account by the credential,
which says whether the e-mail was verified when it was given. -/
inductive Awaits where
  | createUser (r : Registration)
  | setUserDoc (uid : ℕ) (r : Registration)
  | sendEmailVerification (uid : ℕ)
  | signInWithPassword (email password : String)
  | getUserDoc (uid : ℕ) (emailVerified : Bool)
  | signOut (uid : ℕ)
  | setRememberMe (role : String)
  | setPresence (role : String)
  deriving DecidableEq

/-- A running call; `page` is the page it was made in. -/
structure Call where
  page : ℕ
  awaits : Awaits
  deriving DecidableEq

/-- The backend and a device. `pageId` is the number of pages opened before the one that is shown;
`errorMessage` and `isLoading` belong to that page, and `rememberBoxes` holds the box `_rememberMe` of
each page. -/
structure State where
  accounts : LinkedMap ℕ AuthAccount
  users : LinkedMap ℕ UserDoc
  mails : List ℕ
  nextUid : ℕ
  currentUser : Option ℕ
  rememberMe : Bool
  page : Page
  pageId : ℕ
  isLoading : Bool
  errorMessage : Option String
  rememberBoxes : LinkedMap ℕ Bool
  calls : List Call
  deriving DecidableEq

inductive Action where
  | navigate (page : Page)
  | toggleRemember (value : Bool)
  | pressRegister (form : RegisterForm)
  | pressSignIn (email password : String)
  | next (call : ℕ) (outcome : Outcome)
  | verifyEmail (uid : ℕ)
  | signOut
  | restart

/-- Another page is shown. -/
def goTo (s : State) (page : Page) : State :=
  { s with
    page := page
    pageId := s.pageId + 1
    isLoading := false
    errorMessage := none
    rememberBoxes := s.rememberBoxes.set (s.pageId + 1) s.rememberMe }

/-- `_rememberMe` of a page. -/
def rememberBox (s : State) (page : ℕ) : Bool := (s.rememberBoxes.get? page).getD false

/-- `setState` at the end of a call, in its page. -/
def finish (s : State) (c : Call) (message : Option String) : State :=
  if c.page = s.pageId then { s with isLoading := false, errorMessage := message } else s

/-- The navigation at the end of a call, in its page. -/
def finishTo (s : State) (c : Call) (page : Page) : State :=
  if c.page = s.pageId then goTo s page else s

/-- `userDoc.data()?['role'] ?? 'user'`. -/
def roleOf (s : State) (uid : ℕ) : String := ((s.users.get? uid).bind UserDoc.role).getD "user"

/-- `createUserWithEmailAndPassword`, which signs the new account in. -/
def createUser (s : State) (r : Registration) : State :=
  { s with
    accounts := s.accounts.set s.nextUid
      { email := r.email, password := r.password, verified := false }
    nextUid := s.nextUid + 1
    currentUser := some s.nextUid }

/-- The `users` document of a registration. -/
def setUserDoc (s : State) (uid : ℕ) (r : Registration) : State :=
  { s with
    users := s.users.set uid { full_name := r.fullName, email := r.email, role := some "user" } }

/-- The `_register` or `_signIn` that awaits `c.awaits` goes on: the state, and what it awaits next,
`none` when it has ended. An outcome that the backend cannot give is no step. -/
def resume (s : State) (c : Call) (o : Outcome) : Option (State × Option Awaits) :=
  match c.awaits, o with
  | .createUser r, .ok =>
    if ∃ e ∈ s.accounts.entries, e.2.email = r.email then none
    else some (createUser s r, some (.setUserDoc s.nextUid r))
  | .createUser _, o => some (finish s c (registerError o), none)
  | .setUserDoc uid r, .ok =>
    some (setUserDoc s uid r, some (.sendEmailVerification uid))
  | .setUserDoc _ _, o => some (finish s c (registerError o), none)
  | .sendEmailVerification uid, .ok =>
    some (finishTo { s with mails := s.mails ++ [uid] } c .login, none)
  | .sendEmailVerification _, o => some (finish s c (registerError o), none)
  | .signInWithPassword email password, .ok =>
    (s.accounts.entries.find? fun e => e.2.email = email ∧ e.2.password = password).map fun e =>
      ({ s with currentUser := some e.1 }, some (.getUserDoc e.1 e.2.verified))
  | .signInWithPassword _ _, o => some (finish s c (signInError o), none)
  | .getUserDoc uid emailVerified, .ok =>
    let role := roleOf s uid
    if role ≠ "admin" ∧ emailVerified = false then some (s, some (.signOut uid))
    else some (s, some (.setRememberMe role))
  | .getUserDoc _ _, o => some (finish s c (signInError o), none)
  | .signOut _, .ok =>
    some (finish { s with currentUser := none } c (some "E-posta adresinizi doğrulamanız gerekiyor."),
      none)
  | .signOut _, o => some (finish s c (signInError o), none)
  | .setRememberMe role, .ok =>
    some ({ s with rememberMe := rememberBox s c.page }, some (.setPresence role))
  | .setRememberMe _, o => some (finish s c (signInError o), none)
  | .setPresence role, .ok =>
    some (finishTo s c (if role = "admin" then .admin else .home), none)
  | .setPresence _, o => some (finish s c (signInError o), none)

def step (s : State) : Action → Option State
  | .navigate page => some (goTo s page)
  | .toggleRemember value => some { s with rememberBoxes := s.rememberBoxes.set s.pageId value }
  | .pressRegister form =>
    if s.page = .register ∧ s.isLoading = false then
      match validate form with
      | .error message => some { s with errorMessage := some message }
      | .ok r => some { s with
          errorMessage := none
          isLoading := true
          calls := s.calls ++ [{ page := s.pageId, awaits := .createUser r }] }
    else none
  | .pressSignIn email password =>
    if s.page = .login ∧ s.isLoading = false then
      some { s with
        errorMessage := none
        isLoading := true
        calls := s.calls ++
          [{ page := s.pageId, awaits := .signInWithPassword (trim email) (trim password) }] }
    else none
  | .next k o =>
    s.calls[k]?.bind fun c => (resume s c o).map fun r =>
      { r.1 with calls := match r.2 with
          | some awaits => s.calls.set k { c with awaits := awaits }
          | none => s.calls.eraseIdx k }
  | .verifyEmail uid =>
    if uid ∈ s.mails then
      (s.accounts.get? uid).map fun a =>
        { s with accounts := s.accounts.set uid { a with verified := true } }
    else none
  | .signOut =>
    if s.page = .settings ∧ s.currentUser.isSome then
      some (goTo { s with currentUser := none } .home)
    else none
  | .restart => some { goTo s .home with calls := [] }

/-! ### What a call does when it goes on -/

/-- The accounts, the documents and the session are the same. -/
structure SameSession (s t : State) : Prop where
  accounts : t.accounts = s.accounts
  users : t.users = s.users
  nextUid : t.nextUid = s.nextUid
  currentUser : t.currentUser = s.currentUser

theorem SameSession.refl (s : State) : SameSession s s := ⟨rfl, rfl, rfl, rfl⟩

theorem SameSession.trans {s t u : State} (h : SameSession s t) (h' : SameSession t u) :
    SameSession s u :=
  ⟨h'.accounts.trans h.accounts, h'.users.trans h.users, h'.nextUid.trans h.nextUid,
    h'.currentUser.trans h.currentUser⟩

theorem sameSession_goTo (s : State) (page : Page) : SameSession s (goTo s page) := ⟨rfl, rfl, rfl, rfl⟩

theorem sameSession_finish (s : State) (c : Call) (message : Option String) :
    SameSession s (finish s c message) := by
  unfold finish
  split_ifs <;> exact ⟨rfl, rfl, rfl, rfl⟩

theorem sameSession_finishTo (s : State) (c : Call) (page : Page) :
    SameSession s (finishTo s c page) := by
  unfold finishTo
  split_ifs <;> exact ⟨rfl, rfl, rfl, rfl⟩

/-- The account a call has signed in and not yet let pass. -/
def Awaits.holds : Awaits → Option ℕ
  | .setUserDoc uid _ => some uid
  | .sendEmailVerification uid => some uid
  | .getUserDoc uid _ => some uid
  | .signOut uid => some uid
  | _ => none

/-- With this outcome the call ends, and the session it holds stays. -/
def Awaits.leaves : Awaits → Outcome → Bool
  | .setUserDoc _ _, o => o ≠ .ok
  | .sendEmailVerification _, _ => true
  | .getUserDoc _ _, o => o ≠ .ok
  | .signOut _, o => o ≠ .ok
  | _, _ => false

/-- **What a call does to the session when it goes on**, and what it awaits then. -/
inductive Resumes (s : State) (w : Awaits) (o : Outcome) : State → Option Awaits → Prop
  | created (r : Registration) (hw : w = .createUser r) :
      Resumes s w o (createUser s r) (some (.setUserDoc s.nextUid r))
  | documented (uid : ℕ) (r : Registration) (hw : w = .setUserDoc uid r) :
      Resumes s w o (setUserDoc s uid r) (some (.sendEmailVerification uid))
  | signedIn (uid : ℕ) (a : AuthAccount) (hw : w.holds = none) (ha : s.accounts.get? uid = some a) :
      Resumes s w o { s with currentUser := some uid } (some (.getUserDoc uid a.verified))
  | refused (uid : ℕ) (v : Bool) (hw : w = .getUserDoc uid v) : Resumes s w o s (some (.signOut uid))
  | passed (uid : ℕ) (v : Bool) (hw : w = .getUserDoc uid v) (hpass : roleOf s uid = "admin" ∨ v = true) :
      Resumes s w o s (some (.setRememberMe (roleOf s uid)))
  | remembered (role : String) (t : State) (hw : w.holds = none) (ht : SameSession s t) :
      Resumes s w o t (some (.setPresence role))
  | signedOut (t : State) (ht : SameSession { s with currentUser := none } t) : Resumes s w o t none
  | ended (t : State) (hw : w.holds = none ∨ w.leaves o = true) (ht : SameSession s t) :
      Resumes s w o t none

/-- A call that fails ends, in its page with a message or none. -/
theorem exists_finish (s : State) (c : Call) {o : Outcome} (ho : o ≠ .ok) :
    ∃ message, resume s c o = some (finish s c message, none) := by
  obtain ⟨page, w⟩ := c
  cases o with
  | ok => exact absurd rfl ho
  | authException code message => cases w <;> exact ⟨_, rfl⟩
  | exception => cases w <;> exact ⟨_, rfl⟩

/-- A call that fails leaves the session it holds. -/
theorem Awaits.leaves_of_ne_ok (w : Awaits) {o : Outcome} (ho : o ≠ .ok) :
    w.holds = none ∨ w.leaves o = true := by
  cases w with
  | setUserDoc uid r | getUserDoc uid v | signOut uid => exact Or.inr (decide_eq_true ho)
  | sendEmailVerification uid => exact Or.inr rfl
  | createUser r | signInWithPassword email password | setRememberMe role | setPresence role =>
    exact Or.inl rfl

theorem resumes_of_resume {s t : State} {c : Call} {o : Outcome} {n : Option Awaits}
    (h : resume s c o = some (t, n)) : Resumes s c.awaits o t n := by
  by_cases ho : o = .ok
  · subst ho
    obtain ⟨page, w⟩ := c
    cases w with
    | createUser r =>
      simp only [resume, Option.ite_none_left_eq_some, Option.some.injEq, Prod.mk.injEq] at h
      obtain ⟨-, rfl, rfl⟩ := h
      exact .created r rfl
    | setUserDoc uid r =>
      obtain ⟨rfl, rfl⟩ := Prod.mk.inj (Option.some.inj h)
      exact .documented uid r rfl
    | sendEmailVerification uid =>
      obtain ⟨rfl, rfl⟩ := Prod.mk.inj (Option.some.inj h)
      have hmail : SameSession s { s with mails := s.mails ++ [uid] } := ⟨rfl, rfl, rfl, rfl⟩
      exact .ended _ (Or.inr rfl) (hmail.trans (sameSession_finishTo _ _ _))
    | signInWithPassword email password =>
      obtain ⟨e, he, heq⟩ := Option.map_eq_some_iff.mp h
      obtain ⟨rfl, rfl⟩ := Prod.mk.inj heq
      exact .signedIn e.1 e.2 rfl (LinkedMap.get?_eq_some_iff.mpr (List.mem_of_find?_eq_some he))
    | getUserDoc uid v =>
      simp only [resume] at h
      split_ifs at h with hrole
      · obtain ⟨rfl, rfl⟩ := Prod.mk.inj (Option.some.inj h)
        exact .refused uid v rfl
      · obtain ⟨rfl, rfl⟩ := Prod.mk.inj (Option.some.inj h)
        refine .passed uid v rfl ?_
        rw [not_and_or, not_not, Bool.not_eq_false] at hrole
        exact hrole
    | signOut uid =>
      obtain ⟨rfl, rfl⟩ := Prod.mk.inj (Option.some.inj h)
      exact .signedOut _ (sameSession_finish _ _ _)
    | setRememberMe role =>
      obtain ⟨rfl, rfl⟩ := Prod.mk.inj (Option.some.inj h)
      exact .remembered role _ rfl ⟨rfl, rfl, rfl, rfl⟩
    | setPresence role =>
      obtain ⟨rfl, rfl⟩ := Prod.mk.inj (Option.some.inj h)
      exact .ended _ (Or.inl rfl) (sameSession_finishTo _ _ _)
  · obtain ⟨message, hf⟩ := exists_finish s c ho
    obtain ⟨rfl, rfl⟩ := Prod.mk.inj (Option.some.inj (hf.symm.trans h))
    exact .ended _ (c.awaits.leaves_of_ne_ok ho) (sameSession_finish s c message)

/-! ### What a step does -/

/-- **What a step of the device does**, and when. -/
inductive Steps (s : State) : Action → State → Prop
  | navigated (page : Page) : Steps s (.navigate page) (goTo s page)
  | toggled (value : Bool) :
      Steps s (.toggleRemember value) { s with rememberBoxes := s.rememberBoxes.set s.pageId value }
  | rejected {form : RegisterForm} {message : String} (hpage : s.page = .register ∧ s.isLoading = false)
      (hv : validate form = .error message) :
      Steps s (.pressRegister form) { s with errorMessage := some message }
  | registers {form : RegisterForm} {r : Registration} (hpage : s.page = .register ∧ s.isLoading = false)
      (hv : validate form = .ok r) :
      Steps s (.pressRegister form) { s with
        errorMessage := none
        isLoading := true
        calls := s.calls ++ [{ page := s.pageId, awaits := .createUser r }] }
  | signsIn {email password : String} (hpage : s.page = .login ∧ s.isLoading = false) :
      Steps s (.pressSignIn email password) { s with
        errorMessage := none
        isLoading := true
        calls := s.calls ++
          [{ page := s.pageId, awaits := .signInWithPassword (trim email) (trim password) }] }
  | resumed {k : ℕ} {o : Outcome} {c : Call} {r : State × Option Awaits}
      (hc : s.calls[k]? = some c) (hr : resume s c o = some r) :
      Steps s (.next k o) { r.1 with calls := match r.2 with
        | some awaits => s.calls.set k { c with awaits := awaits }
        | none => s.calls.eraseIdx k }
  | verified {uid : ℕ} {a : AuthAccount} (hmail : uid ∈ s.mails) (ha : s.accounts.get? uid = some a) :
      Steps s (.verifyEmail uid) { s with accounts := s.accounts.set uid { a with verified := true } }
  | signedOut (hpage : s.page = .settings ∧ s.currentUser.isSome) :
      Steps s .signOut (goTo { s with currentUser := none } .home)
  | restarted : Steps s .restart { goTo s .home with calls := [] }

theorem steps_of_step {s t : State} {a : Action} (h : step s a = some t) : Steps s a t := by
  cases a with
  | navigate page =>
    obtain rfl := Option.some.inj h
    exact .navigated page
  | toggleRemember value =>
    obtain rfl := Option.some.inj h
    exact .toggled value
  | pressRegister form =>
    simp only [step, Option.ite_none_right_eq_some] at h
    obtain ⟨hpage, h⟩ := h
    split at h
    · rename_i message hv
      obtain rfl := Option.some.inj h
      exact .rejected hpage hv
    · rename_i r hv
      obtain rfl := Option.some.inj h
      exact .registers hpage hv
  | pressSignIn email password =>
    simp only [step, Option.ite_none_right_eq_some, Option.some.injEq] at h
    obtain ⟨hpage, rfl⟩ := h
    exact .signsIn hpage
  | next k o =>
    obtain ⟨c, hc, h⟩ := Option.bind_eq_some_iff.mp h
    obtain ⟨r, hr, rfl⟩ := Option.map_eq_some_iff.mp h
    exact .resumed hc hr
  | verifyEmail uid =>
    simp only [step, Option.ite_none_right_eq_some] at h
    obtain ⟨hmail, h⟩ := h
    obtain ⟨a, ha, rfl⟩ := Option.map_eq_some_iff.mp h
    exact .verified hmail ha
  | signOut =>
    simp only [step, Option.ite_none_right_eq_some, Option.some.injEq] at h
    obtain ⟨hpage, rfl⟩ := h
    exact .signedOut hpage
  | restart =>
    obtain rfl := Option.some.inj h
    exact .restarted

end KamuSinavi.Account
