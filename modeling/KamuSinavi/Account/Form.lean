import KamuSinavi.Account.Device

/-! # The registration form

The fields of `RegisterPage` (`pages/registerPage.dart`) over the device. Each edit of the password
computes the two flags of `_validatePassword` from the text as it is typed; `_register` checks the flags
together with the trimmed text.

`Policy` is what the form should guarantee of what it submits. The flags are those of the text in the
field (`Checked`), and trimming keeps upper-case letters and digits: `submits_policy` says that in every
run a press of the button creates an account exactly if the policy holds. -/

namespace KamuSinavi.Account.Form

open KamuSinavi.Lib KamuSinavi.Lib.Runs KamuSinavi.Lib.Dart

/-- The form of a page that has just been opened. -/
def newForm : RegisterForm :=
  { fullName := "", email := "", password := "", confirmPassword := "", hasUppercase := false,
    hasDigit := false, agreedToTerms := false }

/-- `RegExp(r'[A-Z]').hasMatch` and `RegExp(r'[0-9]').hasMatch`. -/
def hasUppercase (text : String) : Bool := text.toList.any Char.isUpper

def hasDigit (text : String) : Bool := text.toList.any Char.isDigit

/-- `_validatePassword`. -/
def validatePassword (form : RegisterForm) (password : String) : RegisterForm :=
  { form with hasUppercase := hasUppercase password, hasDigit := hasDigit password }

/-- What the user does to the form. -/
inductive Edit where
  | fullName (text : String)
  | email (text : String)
  | password (text : String)
  | confirmPassword (text : String)
  | agreedToTerms (value : Bool)

def Edit.apply (form : RegisterForm) : Edit → RegisterForm
  | .fullName text => { form with fullName := text }
  | .email text => { form with email := text }
  | .password text => validatePassword { form with password := text } text
  | .confirmPassword text => { form with confirmPassword := text }
  | .agreedToTerms value => { form with agreedToTerms := value }

/-- The device, and the form of the page it shows. -/
structure Screen where
  form : RegisterForm
  device : State

inductive Action where
  | edit (edit : Edit)
  | pressRegister
  | device (action : Account.Action)

/-- The device does something else than to submit the form. -/
def elsewhere : Account.Action → Bool
  | .pressRegister _ => false
  | _ => true

/-- A page that is opened has a form of its own. -/
def step (s : Screen) : Action → Option Screen
  | .edit edit =>
    if s.device.page = .register then some { s with form := edit.apply s.form } else none
  | .pressRegister =>
    (Account.step s.device (.pressRegister s.form)).map fun device => { s with device := device }
  | .device action =>
    if elsewhere action then
      (Account.step s.device action).map fun device =>
        { form := if device.pageId = s.device.pageId then s.form else newForm, device := device }
    else none

/-- **The password policy**, for what the form submits. -/
structure Policy (form : RegisterForm) : Prop where
  length : 8 ≤ (codeUnits (trim form.password)).length
  uppercase : ∃ c ∈ (trim form.password).toList, c.isUpper = true
  digit : ∃ c ∈ (trim form.password).toList, c.isDigit = true
  confirmed : trim form.password = trim form.confirmPassword
  fullName : trim form.fullName ≠ ""
  email : trim form.email ≠ ""
  terms : form.agreedToTerms = true

/-- What the form submits. -/
def submitted (form : RegisterForm) : Registration :=
  { fullName := trim form.fullName, email := trim form.email, password := trim form.password }

/-- **An account is created by a press of the button with the policy, and only so**; a press without it
shows a message. -/
def Gate (s : Screen) (a : Action) (t : Screen) : Prop :=
  match a with
  | .pressRegister =>
    (Policy s.form → t.device.calls = s.device.calls ++
      [{ page := s.device.pageId, awaits := .createUser (submitted s.form) }]) ∧
    (¬ Policy s.form → t.device.calls = s.device.calls ∧ t.device.errorMessage ≠ none)
  | _ => ∀ c ∈ t.device.calls, ∀ r, c.awaits = .createUser r → c ∈ s.device.calls

/-- **The button is enabled on the registration page, unless it is loading.** -/
theorem isSome_pressRegister (s : Screen) :
    (step s .pressRegister).isSome ↔ s.device.page = .register ∧ s.device.isLoading = false := by
  simp only [step, Option.isSome_map, Account.step]
  split_ifs with h
  · cases validate s.form <;> exact iff_of_true rfl h
  · exact iff_of_false (by simp) h

/-! ### The flags -/

/-- The flags are those of the text in the field. -/
structure Checked (form : RegisterForm) : Prop where
  uppercase : form.hasUppercase = hasUppercase form.password
  digit : form.hasDigit = hasDigit form.password

theorem checked_newForm : Checked newForm := ⟨rfl, rfl⟩

theorem Checked.apply {form : RegisterForm} (h : Checked form) (edit : Edit) :
    Checked (edit.apply form) := by
  cases edit with
  | password text => exact ⟨rfl, rfl⟩
  | fullName text | email text | confirmPassword text | agreedToTerms value =>
    exact ⟨h.uppercase, h.digit⟩

theorem checked_step {s t : Screen} {a : Action} (h : Checked s.form) (hs : step s a = some t) :
    Checked t.form := by
  cases a with
  | edit edit =>
    simp only [step, Option.ite_none_right_eq_some, Option.some.injEq] at hs
    obtain ⟨-, rfl⟩ := hs
    exact h.apply edit
  | pressRegister =>
    obtain ⟨device, -, rfl⟩ := Option.map_eq_some_iff.mp hs
    exact h
  | device action =>
    simp only [step, Option.ite_none_right_eq_some] at hs
    obtain ⟨-, hs⟩ := hs
    obtain ⟨device, -, rfl⟩ := Option.map_eq_some_iff.mp hs
    simp only
    split_ifs
    · exact h
    · exact checked_newForm

/-- The flags say the same of the trimmed text. -/
theorem Checked.trimmed {form : RegisterForm} (h : Checked form) :
    (form.hasUppercase = true ↔ ∃ c ∈ (trim form.password).toList, c.isUpper = true) ∧
      (form.hasDigit = true ↔ ∃ c ∈ (trim form.password).toList, c.isDigit = true) := by
  rw [h.uppercase, h.digit, hasUppercase, hasDigit, ← any_trim fun _ => isWhitespace_of_isUpper,
    ← any_trim fun _ => isWhitespace_of_isDigit, List.any_eq_true, List.any_eq_true]
  exact ⟨Iff.rfl, Iff.rfl⟩

/-! ### A press of the button -/

/-- **The checks of `_register` let a form pass exactly if it has the policy.** -/
theorem validate_eq_ok_iff {form : RegisterForm} (h : Checked form) {r : Registration} :
    validate form = .ok r ↔ Policy form ∧ r = submitted form := by
  obtain ⟨hupper, hdigit⟩ := h.trimmed
  unfold validate
  simp only
  split_ifs with hname hemail hpass hconfirm hterms
  · exact iff_of_false not_false fun hP => hP.1.fullName (String.isEmpty_iff.mp hname)
  · exact iff_of_false not_false fun hP => hP.1.email (String.isEmpty_iff.mp hemail)
  · refine iff_of_false not_false fun hP => ?_
    rcases hpass with hlen | hno | hno
    · exact absurd hP.1.length (Nat.not_le.mpr hlen)
    · exact Bool.noConfusion (hno.symm.trans (hupper.mpr hP.1.uppercase))
    · exact Bool.noConfusion (hno.symm.trans (hdigit.mpr hP.1.digit))
  · exact iff_of_false not_false fun hP => hconfirm hP.1.confirmed
  · exact iff_of_false not_false fun hP => Bool.noConfusion (hterms.symm.trans hP.1.terms)
  · simp only [not_or, Nat.not_lt, Bool.not_eq_false] at hpass
    rw [Bool.not_eq_false] at hterms
    have hP : Policy form :=
      { length := hpass.1
        uppercase := hupper.mp hpass.2.1
        digit := hdigit.mp hpass.2.2
        confirmed := not_not.mp hconfirm
        fullName := fun h => hname (String.isEmpty_iff.mpr h)
        email := fun h => hemail (String.isEmpty_iff.mpr h)
        terms := hterms }
    rw [and_iff_right hP, Except.ok.injEq]
    exact eq_comm

/-- No call that goes on creates an account. -/
theorem resumes_createUser {s t : State} {w : Awaits} {o : Outcome} {n : Option Awaits}
    (h : Resumes s w o t n) (r : Registration) : n ≠ some (.createUser r) := by
  cases h <;> simp

/-- What the device does elsewhere creates no account. -/
theorem createUser_elsewhere {s t : State} {a : Account.Action} (ha : elsewhere a = true)
    (hs : Account.step s a = some t) {c : Call} (hc : c ∈ t.calls) {r : Registration}
    (hw : c.awaits = .createUser r) : c ∈ s.calls := by
  cases steps_of_step hs with
  | rejected | registers => cases ha
  | navigated page | toggled value | verified | signedOut => exact hc
  | restarted => exact absurd hc List.not_mem_nil
  | signsIn =>
    rcases List.mem_append.mp hc with hc | hc
    · exact hc
    · rw [List.mem_singleton.mp hc] at hw
      cases hw
  | resumed hk hr =>
    rename_i k o d u
    obtain ⟨u, n⟩ := u
    have hn := resumes_createUser (resumes_of_resume hr) r
    cases n with
    | none => exact List.mem_of_mem_eraseIdx hc
    | some w =>
      rcases List.mem_or_eq_of_mem_set hc with hc | rfl
      · exact hc
      · exact absurd (congrArg some hw) hn

/-- **A step passes the gate if the flags are those of the text.** -/
theorem gate_step {s t : Screen} {a : Action} (h : Checked s.form) (hs : step s a = some t) :
    Gate s a t := by
  cases a with
  | edit edit =>
    simp only [step, Option.ite_none_right_eq_some, Option.some.injEq] at hs
    obtain ⟨-, rfl⟩ := hs
    exact fun c hc _ _ => hc
  | pressRegister =>
    obtain ⟨device, hd, rfl⟩ := Option.map_eq_some_iff.mp hs
    cases steps_of_step hd with
    | rejected _ hv =>
      refine ⟨fun hP => ?_, fun _ => ⟨rfl, Option.some_ne_none _⟩⟩
      cases hv.symm.trans ((validate_eq_ok_iff h).mpr ⟨hP, rfl⟩)
    | registers _ hv =>
      obtain ⟨hP, rfl⟩ := (validate_eq_ok_iff h).mp hv
      exact ⟨fun _ => rfl, fun hno => absurd hP hno⟩
  | device action =>
    simp only [step, Option.ite_none_right_eq_some] at hs
    obtain ⟨ha, hs⟩ := hs
    obtain ⟨device, hd, rfl⟩ := Option.map_eq_some_iff.mp hs
    exact fun c hc r hw => createUser_elsewhere ha hd hc hw

/-- **In every run the button creates an account with what the form holds exactly if it meets the
policy**, and nothing else creates one. -/
theorem submits_policy (device : State) (as : List Action) :
    EachStep step Gate { form := newForm, device := device } as :=
  eachStep_of_keeps (J := fun s => Checked s.form)
    (fun _ _ _ h hs => ⟨checked_step h hs, gate_step h hs⟩) as checked_newForm

end KamuSinavi.Account.Form
