import KamuSinavi.Account.Device

/-! # Sessions of unverified accounts

`Verified` says that, whenever no registration and no sign-in is running, the account signed in on the
device has a verified e-mail or is an admin's. A running call may hold the session of another account:
registering creates one, and signing in makes one before it looks at the e-mail.

`verified_of_guarded` says that this holds along every run in which such a call does not end, and the
app is not restarted, while the account the call has signed in is still the user of the device and
neither verified nor an admin's. -/

namespace KamuSinavi.Account

open KamuSinavi.Lib KamuSinavi.Lib.Runs

def isAdmin (s : State) (uid : ℕ) : Prop := roleOf s uid = "admin"

def emailVerified (s : State) (uid : ℕ) : Prop := ∃ a ∈ s.accounts.get? uid, a.verified = true

/-- The account may hold a session. -/
def Entitled (s : State) (uid : ℕ) : Prop := isAdmin s uid ∨ emailVerified s uid

instance (s : State) (uid : ℕ) : Decidable (Entitled s uid) :=
  inferInstanceAs (Decidable (roleOf s uid = "admin" ∨ ∃ a ∈ s.accounts.get? uid, a.verified = true))

/-- **The account signed in on the device has a verified e-mail**, or is an admin's, whenever no call
is running. -/
def Verified (s : State) : Prop := s.calls = [] → ∀ uid ∈ s.currentUser, Entitled s uid

instance : DecidablePred Verified := fun s =>
  inferInstanceAs (Decidable (s.calls = [] → ∀ uid ∈ s.currentUser, Entitled s uid))

/-- If the call holds the session of the device, the account is entitled to it. -/
def HoldsEntitled (s : State) (c : Call) : Prop :=
  ∀ uid ∈ c.awaits.holds, s.currentUser = some uid → Entitled s uid

instance (s : State) (c : Call) : Decidable (HoldsEntitled s c) :=
  inferInstanceAs (Decidable (∀ uid ∈ c.awaits.holds, s.currentUser = some uid → Entitled s uid))

/-- A call that leaves its session behind, and a call a restart ends, holds none but of an entitled
account. -/
def Guarded (s : State) : Action → Prop
  | .next k o => ∀ c ∈ s.calls[k]?, c.awaits.leaves o = true → HoldsEntitled s c
  | .restart => ∀ c ∈ s.calls, HoldsEntitled s c
  | _ => True

instance (s : State) : DecidablePred (Guarded s)
  | .next k o => inferInstanceAs (Decidable
      (∀ c ∈ s.calls[k]?, c.awaits.leaves o = true → HoldsEntitled s c))
  | .restart => inferInstanceAs (Decidable (∀ c ∈ s.calls, HoldsEntitled s c))
  | .navigate _ | .toggleRemember _ | .pressRegister _ | .pressSignIn .. | .verifyEmail _
  | .signOut => isTrue trivial

/-- An account that is signed in is entitled, or held by a running call. -/
structure Inv (s : State) : Prop where
  fresh : ∀ uid ∈ s.accounts.keys, uid < s.nextUid
  credential : ∀ c ∈ s.calls, ∀ uid, c.awaits = .getUserDoc uid true → emailVerified s uid
  held : ∀ uid, s.currentUser = some uid → Entitled s uid ∨ ∃ c ∈ s.calls, c.awaits.holds = some uid

theorem Inv.verified {s : State} (h : Inv s) : Verified s := by
  intro hcalls uid huid
  refine (h.held uid huid).resolve_right ?_
  rintro ⟨c, hc, -⟩
  rw [hcalls] at hc
  exact absurd hc List.not_mem_nil

/-- What an account needs stays when the accounts that were there stay as they are. -/
theorem emailVerified_set {s : State} {uid v : ℕ} {a : AuthAccount} (h : emailVerified s uid)
    (ha : v ≠ uid ∨ a.verified = true) :
    emailVerified { s with accounts := s.accounts.set v a } uid := by
  obtain ⟨b, hb, hverified⟩ := h
  by_cases hv : uid = v
  · subst hv
    exact ⟨a, LinkedMap.get?_set_self .., ha.resolve_left fun hne => hne rfl⟩
  · exact ⟨b, by rw [LinkedMap.get?_set_of_ne _ hv]; exact hb, hverified⟩

theorem emailVerified_createUser {s : State} (hI : Inv s) {uid : ℕ} (h : emailVerified s uid)
    (r : Registration) : emailVerified (createUser s r) uid := by
  have hne : s.nextUid ≠ uid := by
    obtain ⟨b, hb, -⟩ := h
    have := hI.fresh uid (LinkedMap.mem_keys_iff.mpr ⟨b, hb⟩)
    omega
  exact emailVerified_set h (Or.inl hne)

theorem Entitled.congr {s t : State} (hs : SameSession s t) (uid : ℕ) :
    Entitled t uid ↔ Entitled s uid := by
  unfold Entitled isAdmin emailVerified roleOf
  rw [hs.accounts, hs.users]

theorem emailVerified_congr {s t : State} (hs : SameSession s t) (uid : ℕ) :
    emailVerified t uid ↔ emailVerified s uid := by
  unfold emailVerified
  rw [hs.accounts]

/-- Nothing but the calls changes, and the calls hold what they held. -/
theorem Inv.frame {s t : State} (h : Inv s) (hs : SameSession s t)
    (hcred : ∀ c ∈ t.calls, ∀ uid, c.awaits = .getUserDoc uid true → emailVerified s uid)
    (hheld : ∀ uid, s.currentUser = some uid → ¬ Entitled s uid →
      (∃ c ∈ s.calls, c.awaits.holds = some uid) → ∃ c ∈ t.calls, c.awaits.holds = some uid) :
    Inv t := by
  refine ⟨fun uid hu => ?_, fun c hc uid hw => (emailVerified_congr hs uid).mpr (hcred c hc uid hw),
    fun uid hu => ?_⟩
  · rw [hs.nextUid]
    exact h.fresh uid (hs.accounts ▸ hu)
  · rw [hs.currentUser] at hu
    rw [Entitled.congr hs]
    by_cases he : Entitled s uid
    · exact Or.inl he
    · exact Or.inr (hheld uid hu he ((h.held uid hu).resolve_left he))

/-- A call is made. -/
theorem Inv.addCall {s t : State} (h : Inv s) (hs : SameSession s t) {c : Call}
    (hc : t.calls = s.calls ++ [c]) (hcred : ∀ uid, c.awaits ≠ .getUserDoc uid true) : Inv t := by
  refine h.frame hs ?_ fun uid _ _ hheld => ?_
  · rw [hc]
    exact Calls.forall_mem_concat h.credential fun uid hw => absurd hw (hcred uid)
  · obtain ⟨d, hd, hw⟩ := hheld
    exact ⟨d, hc ▸ List.mem_append_left _ hd, hw⟩

/-- A call goes on or ends, and leaves the session alone; if it held the session of an account that is
not entitled it still does. -/
theorem Inv.resumeSame {s t : State} (h : Inv s) (hs : SameSession s t) {k : ℕ} {c : Call}
    (hk : s.calls[k]? = some c) {n : Option Awaits}
    (hc : t.calls = match n with
      | some w => s.calls.set k { c with awaits := w }
      | none => s.calls.eraseIdx k)
    (hcred : ∀ uid, n ≠ some (.getUserDoc uid true))
    (hheld : ∀ uid, s.currentUser = some uid → ¬ Entitled s uid → c.awaits.holds = some uid →
      n.bind Awaits.holds = some uid) : Inv t := by
  refine h.frame hs ?_ fun uid hu he hex => ?_
  · rw [hc]
    cases n with
    | none => exact Calls.forall_mem_eraseIdx h.credential
    | some w =>
      exact Calls.forall_mem_set h.credential fun uid hw => absurd (congrArg some hw) (hcred uid)
  · obtain ⟨d, hd, hw⟩ := hex
    rw [hc]
    cases n with
    | none =>
      rcases Calls.eq_or_mem_eraseIdx hk hd with rfl | hd
      · exact absurd (hheld uid hu he hw) (by simp)
      · exact ⟨d, hd, hw⟩
    | some w =>
      rcases Calls.eq_or_mem_set hk { c with awaits := w } hd with rfl | hd
      · exact ⟨_, Calls.mem_set_self hk _, hheld uid hu he hw⟩
      · exact ⟨d, hd, hw⟩

theorem SameSession.withCalls {s t : State} (h : SameSession s t) (calls : List Call) :
    SameSession s { t with calls := calls } := ⟨h.accounts, h.users, h.nextUid, h.currentUser⟩

/-- The new account is held by the registration that created it. -/
theorem Inv.created {s : State} (h : Inv s) {k : ℕ} {c : Call} (hk : s.calls[k]? = some c)
    (r : Registration) :
    Inv { createUser s r with
      calls := s.calls.set k { c with awaits := .setUserDoc s.nextUid r } } := by
  refine ⟨fun uid hu => ?_, ?_, fun uid hu => ?_⟩
  · rcases LinkedMap.mem_keys_set.mp hu with rfl | hu
    · exact Nat.lt_succ_self _
    · exact (h.fresh uid hu).trans (Nat.lt_succ_self _)
  · refine Calls.forall_mem_set (fun d hd uid hw => ?_) fun uid hw => by cases hw
    exact emailVerified_createUser h (h.credential d hd uid hw) r
  · obtain rfl := Option.some.inj hu
    exact Or.inr ⟨_, Calls.mem_set_self hk _, rfl⟩

theorem Inv.documented {s : State} (h : Inv s) {k : ℕ} {c : Call} (hk : s.calls[k]? = some c)
    {uid : ℕ} {r : Registration} (hw : c.awaits = .setUserDoc uid r) :
    Inv { setUserDoc s uid r with
      calls := s.calls.set k { c with awaits := .sendEmailVerification uid } } := by
  refine ⟨h.fresh, Calls.forall_mem_set h.credential fun uid hw => (by cases hw), fun v hv => ?_⟩
  by_cases hne : v = uid
  · subst hne
    exact Or.inr ⟨_, Calls.mem_set_self hk _, rfl⟩
  · have hrole : roleOf (setUserDoc s uid r) v = roleOf s v := by
      rw [roleOf, roleOf, setUserDoc, LinkedMap.get?_set_of_ne _ hne]
    refine (h.held v hv).imp (Or.imp_left hrole.trans) ?_
    rintro ⟨d, hd, hholds⟩
    rcases Calls.eq_or_mem_set hk { c with awaits := .sendEmailVerification uid } hd with rfl | hd
    · rw [hw] at hholds
      exact absurd (Option.some.inj hholds).symm hne
    · exact ⟨d, hd, hholds⟩

/-- The account that signs in is held by the sign-in. -/
theorem Inv.signedIn {s : State} (h : Inv s) {k : ℕ} {c : Call} (hk : s.calls[k]? = some c) {uid : ℕ}
    {a : AuthAccount} (ha : s.accounts.get? uid = some a) :
    Inv { s with
      currentUser := some uid
      calls := s.calls.set k { c with awaits := .getUserDoc uid a.verified } } := by
  refine ⟨h.fresh, Calls.forall_mem_set h.credential fun v hw => ?_, fun v hv => ?_⟩
  · obtain ⟨rfl, hverified⟩ := Awaits.getUserDoc.inj hw
    exact ⟨a, ha, hverified⟩
  · obtain rfl := Option.some.inj hv
    exact Or.inr ⟨_, Calls.mem_set_self hk _, rfl⟩

theorem Inv.signedOut {s t : State} (h : Inv s) (ht : SameSession { s with currentUser := none } t)
    {calls : List Call} (hcalls : ∀ d ∈ calls, d ∈ s.calls) : Inv { t with calls := calls } := by
  refine ⟨fun uid hu => ?_, fun d hd uid hw => ?_, fun uid hu => ?_⟩
  · have hlt := h.fresh uid (ht.accounts ▸ hu)
    exact ht.nextUid ▸ hlt
  · obtain ⟨a, ha, hverified⟩ := h.credential d (hcalls d hd) uid hw
    exact ⟨a, ht.accounts ▸ ha, hverified⟩
  · rw [ht.currentUser] at hu
    cases hu

/-- **A running call keeps the invariant** unless it leaves the session of an account that is not
entitled to it. -/
theorem Inv.next {s : State} (h : Inv s) {k : ℕ} {o : Outcome} (hg : Guarded s (.next k o))
    {c : Call} (hk : s.calls[k]? = some c) {r : State × Option Awaits} (hr : resume s c o = some r) :
    Inv { r.1 with calls := match r.2 with
      | some awaits => s.calls.set k { c with awaits := awaits }
      | none => s.calls.eraseIdx k } := by
  obtain ⟨t, n⟩ := r
  have hguard := hg c hk
  cases resumes_of_resume hr with
  | created r hw => exact h.created hk r
  | documented uid r hw => exact h.documented hk hw
  | signedIn uid a hw ha => exact h.signedIn hk ha
  | refused uid v hw =>
    refine h.resumeSame (n := some (.signOut uid)) ((SameSession.refl s).withCalls _) hk rfl (by simp)
      fun v' _ _ hholds => ?_
    rw [hw] at hholds
    exact hholds
  | passed uid v hw hpass =>
    refine h.resumeSame (n := some (.setRememberMe (roleOf s uid)))
      ((SameSession.refl s).withCalls _) hk rfl (by simp) fun v' _ he hholds => ?_
    rw [hw] at hholds
    obtain rfl := Option.some.inj hholds
    refine absurd ?_ he
    rcases hpass with hrole | rfl
    · exact Or.inl hrole
    · exact Or.inr (h.credential c (List.mem_of_getElem? hk) uid hw)
  | remembered role _ hw ht =>
    refine h.resumeSame (n := some (.setPresence role)) (ht.withCalls _) hk rfl (by simp)
      fun v' _ _ hholds => ?_
    rw [hw] at hholds
    cases hholds
  | signedOut _ ht => exact h.signedOut ht fun d hd => List.mem_of_mem_eraseIdx hd
  | ended _ hw ht =>
    refine h.resumeSame (n := none) (ht.withCalls _) hk rfl (by simp) fun v' hu he hholds => ?_
    rcases hw with hw | hw
    · rw [hw] at hholds
      cases hholds
    · exact absurd (hguard hw v' hholds hu) he

theorem inv_step {s t : State} {a : Action} (h : Inv s) (hg : Guarded s a) (hs : step s a = some t) :
    Inv t := by
  cases steps_of_step hs with
  | navigated page => exact h.frame (sameSession_goTo s page) h.credential fun _ _ _ he => he
  | toggled value => exact h.frame ⟨rfl, rfl, rfl, rfl⟩ h.credential fun _ _ _ he => he
  | rejected => exact h.frame ⟨rfl, rfl, rfl, rfl⟩ h.credential fun _ _ _ he => he
  | registers | signsIn => exact h.addCall ⟨rfl, rfl, rfl, rfl⟩ rfl fun _ hw => by cases hw
  | resumed hk hr => exact h.next hg hk hr
  | verified _ ha =>
    rename_i uid a _
    have hmono : ∀ v, emailVerified s v → emailVerified
        { s with accounts := s.accounts.set uid { a with verified := true } } v :=
      fun v hv => emailVerified_set hv (Or.inr rfl)
    refine ⟨fun v hv => ?_, fun c hc v hw => hmono v (h.credential c hc v hw), fun v hv => ?_⟩
    · rcases LinkedMap.mem_keys_set.mp hv with rfl | hv
      · exact h.fresh v (LinkedMap.mem_keys_iff.mpr ⟨a, ha⟩)
      · exact h.fresh v hv
    · exact (h.held v hv).imp_left (Or.imp_right (hmono v))
  | signedOut =>
    exact h.signedOut (sameSession_goTo { s with currentUser := none } .home) fun _ hd => hd
  | restarted =>
    refine h.frame ((sameSession_goTo s .home).withCalls []) (fun _ hc => absurd hc List.not_mem_nil)
      fun uid hu he hex => ?_
    obtain ⟨c, hc, hw⟩ := hex
    exact absurd (hg c hc uid hw hu) he

/-- **No unverified account holds a session while no call is running**, in every run in which calls
leave the sessions of entitled accounts only. -/
theorem verified_of_guarded {s : State} (hcalls : s.calls = []) (hverified : Verified s)
    (hfresh : ∀ uid ∈ s.accounts.keys, uid < s.nextUid) {as : List Action}
    (hg : Along step Guarded s as) : Always step Verified s as :=
  always_of_along (J := Inv) (fun _ _ _ h hg hs => inv_step h hg hs) (fun _ h => h.verified)
    ⟨hfresh, fun _ hc => absurd (hcalls ▸ hc) List.not_mem_nil,
      fun uid hu => Or.inl (hverified hcalls uid hu)⟩ hg

/-! ### A registration that ends -/

/-- The app is started for the first time; one account has a verified e-mail, and one has not. -/
def installed : State where
  accounts := (LinkedMap.empty.set 0
    { email := "ayse@example.com", password := "Sifre1234", verified := true }).set 1
    { email := "mehmet@example.com", password := "Parola5678", verified := false }
  users := LinkedMap.empty
  mails := []
  nextUid := 2
  currentUser := none
  rememberMe := false
  page := .home
  pageId := 0
  isLoading := false
  errorMessage := none
  rememberBoxes := LinkedMap.empty
  calls := []

/-- One account is refused, the other signs in and out. -/
def signsIn : List Action :=
  [.navigate .login, .pressSignIn "mehmet@example.com" "Parola5678", .next 0 .ok, .next 0 .ok,
    .next 0 .ok, .pressSignIn "ayse@example.com" "Sifre1234", .next 0 .ok, .next 0 .ok, .next 0 .ok,
    .next 0 .exception, .restart, .navigate .settings, .signOut]

theorem verified_of_guarded_signsIn : Always step Verified installed signsIn :=
  verified_of_guarded rfl (by decide) (by decide) (by decide)

/-- An account is registered. -/
def registers : List Action :=
  [.navigate .register,
    .pressRegister
      { fullName := "Fatma", email := "fatma@example.com", password := "Kelime9012",
        confirmPassword := "Kelime9012", hasUppercase := true, hasDigit := true,
        agreedToTerms := true },
    .next 0 .ok, .next 0 .ok, .next 0 .ok]

/-- **The account just registered is signed in** without a verified e-mail. -/
theorem registers_not_verified : ¬ Always step Verified installed registers := by decide

end KamuSinavi.Account
