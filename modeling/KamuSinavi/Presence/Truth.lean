import Mathlib.Data.Fintype.Basic
import KamuSinavi.Presence.Devices

/-! # When presence tells the truth

All writers of `presence/uid` write one value, and only `AuthGate` registers a handler. The value is
right as long as three things hold: an account that is online is signed in on a device that is
connected or has something to send, an account that stays signed in on a connected device is online
or some device has still to write that it is, and a device that does not run is not connected.

`truthful_of_guarded` says that presence tells the truth in every run in which no step breaks these:
no device takes an account offline that another connected device keeps signed in, none gives up an
account and leaves it online, and none is connected with an account that nobody brings online. -/

namespace KamuSinavi.Presence

open KamuSinavi.Lib.Runs

/-! ### The invariant -/

/-- The operation brings the account online. -/
def Op.brings (uid : String) : Op → Bool
  | .set v _ => v = uid
  | _ => false

def Op.isSignOut : Op → Bool
  | .signOut _ => true
  | _ => false

/-- The device has still to write that the account is online. -/
def Device.Brings (D : Device) (uid : String) : Prop := ∃ op ∈ D.queue, op.brings uid = true

/-- The account is signed in on the device, which is connected or has something to send. -/
def Device.Holds (D : Device) (uid : String) : Prop :=
  D.currentUser = some uid ∧ (D.connected = true ∨ D.queue ≠ [])

/-- The account is signed in on the device, which is connected, and no sign-out waits. -/
def Device.Keeps (D : Device) (uid : String) : Prop :=
  D.currentUser = some uid ∧ D.connected = true ∧ D.queue.any Op.isSignOut = false

/-- Another device than `d` does so. -/
def Other {ι : Type*} (s : State ι) (d : ι) (P : Device → Prop) : Prop :=
  ∃ e, e ≠ d ∧ P (s.devices e)

structure Inv {ι : Type*} (s : State ι) : Prop where
  kept : ∀ d uid, (s.devices d).Keeps uid →
    online s.presence uid = true ∨ ∃ e, (s.devices e).Brings uid
  held : ∀ uid, online s.presence uid = true → ∃ d, (s.devices d).Holds uid
  stopped : ∀ d, (s.devices d).running = false →
    (s.devices d).queue = [] ∧ (s.devices d).connected = false

theorem inv_installed (ι : Type*) : Inv (installed ι) where
  kept _ _ h := absurd h.1 (by simp [installed])
  held _ h := absurd h (by simp [installed, online, isOnline])
  stopped _ _ := ⟨rfl, rfl⟩

variable {ι : Type*} [DecidableEq ι]

theorem exists_device {s : State ι} (d : ι) {P : Device → Prop} :
    (∃ e, P (s.devices e)) ↔ P (s.devices d) ∨ Other s d P := by
  constructor
  · rintro ⟨e, he⟩
    by_cases hed : e = d
    · exact Or.inl (hed ▸ he)
    · exact Or.inr ⟨e, hed, he⟩
  · rintro (hd | ⟨e, -, he⟩)
    · exact ⟨d, hd⟩
    · exact ⟨e, he⟩

theorem brings_iff {s : State ι} (d : ι) {uid : String} : (∃ e, (s.devices e).Brings uid) ↔
    (s.devices d).Brings uid ∨ Other s d (Device.Brings · uid) :=
  exists_device d (P := (Device.Brings · uid))

theorem holds_iff {s : State ι} (d : ι) {uid : String} : (∃ e, (s.devices e).Holds uid) ↔
    (s.devices d).Holds uid ∨ Other s d (Device.Holds · uid) :=
  exists_device d (P := (Device.Holds · uid))

theorem devices_self (s : State ι) (d : ι) (D : Device) : (setDevice s d D).devices d = D :=
  Function.update_self ..

theorem devices_of_ne (s : State ι) {d e : ι} (h : e ≠ d) (D : Device) :
    (setDevice s d D).devices e = s.devices e :=
  Function.update_of_ne h ..

theorem exists_setDevice {s : State ι} (d : ι) {D : Device} {p : String → Value}
    {P : Device → Prop} :
    (∃ e, P ((setDevice { s with presence := p } d D).devices e)) ↔ P D ∨ Other s d P := by
  rw [exists_device d, devices_self]
  refine or_congr_right (exists_congr fun e => and_congr_right fun he => ?_)
  rw [devices_of_ne _ he]

/-- **A step of one device** keeps the invariant if every account a device keeps is still online or
will be, and every account that is online is still held by a device. -/
theorem Inv.setDevice {s : State ι} (h : Inv s) {d : ι} {D : Device} {p : String → Value}
    (hself : ∀ uid, D.Keeps uid →
      online p uid = true ∨ D.Brings uid ∨ Other s d (Device.Brings · uid))
    (hother : ∀ e, e ≠ d → ∀ uid, (s.devices e).Keeps uid →
      online p uid = true ∨ D.Brings uid ∨ Other s d (Device.Brings · uid))
    (hheld : ∀ uid, online p uid = true → D.Holds uid ∨ Other s d (Device.Holds · uid))
    (hstopped : D.running = false → D.queue = [] ∧ D.connected = false) :
    Inv (setDevice { s with presence := p } d D) := by
  refine ⟨fun e uid he => ?_, fun uid hon => ?_, fun e => ?_⟩
  · rw [exists_setDevice d (P := (Device.Brings · uid))]
    by_cases hed : e = d
    · rw [hed, devices_self] at he
      exact hself uid he
    · rw [devices_of_ne _ hed] at he
      exact hother e hed uid he
  · exact (exists_setDevice d (P := (Device.Holds · uid))).mpr (hheld uid hon)
  · by_cases hed : e = d
    · rw [hed, devices_self]
      exact hstopped
    · rw [devices_of_ne _ hed]
      exact h.stopped e

/-- The values are unchanged, the device has at least as much to write, and holds what it held. -/
theorem Inv.calm {s : State ι} (h : Inv s) {d : ι} {D : Device}
    (hkeeps : ∀ uid, D.Keeps uid → (s.devices d).Keeps uid ∨ online s.presence uid = true ∨
      D.Brings uid ∨ ∃ e, (s.devices e).Brings uid)
    (hqueue : ∀ op ∈ (s.devices d).queue, op ∈ D.queue)
    (hholds : ∀ uid, online s.presence uid = true → (s.devices d).Holds uid →
      D.Holds uid ∨ Other s d (Device.Holds · uid))
    (hstopped : D.running = false → D.queue = [] ∧ D.connected = false) :
    Inv (Presence.setDevice s d D) := by
  have hbrings : ∀ uid, (∃ e, (s.devices e).Brings uid) →
      D.Brings uid ∨ Other s d (Device.Brings · uid) := by
    intro uid hex
    refine ((brings_iff d).mp hex).imp_left ?_
    rintro ⟨op, hop, hb⟩
    exact ⟨op, hqueue op hop, hb⟩
  refine h.setDevice (fun uid hu => ?_) (fun e _ uid hu => (h.kept e uid hu).imp_right (hbrings uid))
    (fun uid hon => ?_) hstopped
  · rcases hkeeps uid hu with hu | hon | hb | hb
    · exact (h.kept d uid hu).imp_right (hbrings uid)
    · exact Or.inl hon
    · exact Or.inr (Or.inl hb)
    · exact Or.inr (hbrings uid hb)
  · rcases (holds_iff d).mp (h.held uid hon) with hu | hu
    · exact hholds uid hon hu
    · exact Or.inr hu

/-! ### The steps -/

/-- The account is offline, or another device holds it. -/
def Released (s : State ι) (d : ι) (uid : String) : Prop :=
  online s.presence uid = true → Other s d (Device.Holds · uid)

/-- The account is online, or a device has still to write that it is. -/
def Coming (s : State ι) (uid : String) : Prop :=
  online s.presence uid = true ∨ ∃ e, (s.devices e).Brings uid

/-- What is sent: a write of `online` is sent while the account is held, and a sign-out while no other
account is left online and no other device keeps the account, unless it is brought online again. -/
def Op.Guarded (s : State ι) (d : ι) : Op → Prop
  | .set uid _ => ∃ e, (s.devices e).Holds uid
  | .onDisconnect _ => True
  | .signOut uid => (∀ v ∈ (s.devices d).currentUser, v ≠ uid → Released s d v) ∧
      ((∃ e, (s.devices e).Brings uid) ∨ ∀ e, e ≠ d → ¬ (s.devices e).Keeps uid)

/-- A device is connected while its account is online or brought online. A connection that is lost
has a handler for the account, unless there is something left to send or the account is released, and
no handler for an account that another device keeps, unless it is brought online again; likewise when
the app is closed, but what it had to send is lost. A sign-in releases the account that was signed in
before, and where it fails midway the account is online or brought online. -/
def Guarded (s : State ι) : Action ι → Prop
  | .connect d => ∀ uid ∈ (s.devices d).currentUser,
      (s.devices d).queue.any Op.isSignOut = false → Coming s uid
  | .lose d => ((s.devices d).queue = [] → ∀ uid ∈ (s.devices d).currentUser,
        uid ∉ (s.devices d).handlers → Released s d uid) ∧
      ∀ uid ∈ (s.devices d).handlers, (∃ e, (s.devices e).Brings uid) ∨
        ∀ e, e ≠ d → ¬ (s.devices e).Keeps uid
  | .closeApp d => (∀ uid ∈ (s.devices d).currentUser,
        uid ∉ (s.devices d).handlers → Released s d uid) ∧
      ∀ e, e ≠ d → ∀ uid ∈ (s.devices e).currentUser, (s.devices e).Keeps uid →
        (uid ∉ (s.devices d).handlers ∧ online s.presence uid = true) ∨
          Other s d (Device.Brings · uid)
  | .signIn d uid outcome => (∀ v ∈ (s.devices d).currentUser,
        ((s.devices d).signIn uid outcome).currentUser ≠ some v → Released s d v) ∧
      (outcome.isFailed = true → (s.devices d).connected = true →
        (s.devices d).gateRemembered = true ∨ Coming s uid)
  | .send d => ∀ op ∈ (s.devices d).queue.head?, op.Guarded s d
  | _ => True

theorem online_runHandlers (handlers : List String) (p : String → Value) (uid : String) :
    online (runHandlers handlers p) uid = if uid ∈ handlers then false else online p uid := by
  induction handlers generalizing p with
  | nil => rfl
  | cons v handlers ih =>
    rw [runHandlers, List.foldl_cons, ← runHandlers, ih]
    by_cases hv : uid = v
    · subst hv
      simp [online, gateOffline, isOnline]
    · simp [online, hv]

theorem inv_startApp {s s' : State ι} {d : ι} (h : Inv s) (hs : step s (.startApp d) = some s') :
    Inv s' := by
  simp only [step, Option.ite_none_left_eq_some, Option.some.injEq] at hs
  obtain ⟨hrun, rfl⟩ := hs
  obtain ⟨hqueue, hconn⟩ := h.stopped d (by simpa using hrun)
  refine h.calm (fun uid hu => ?_) (fun op hop => ?_) (fun uid _ hu => ?_) (fun hstop => ?_)
  · exact absurd (hconn.symm.trans hu.2.1) Bool.false_ne_true
  · rw [hqueue] at hop
    exact absurd hop List.not_mem_nil
  · rcases hu.2 with hc | hc
    · exact absurd (hconn.symm.trans hc) Bool.false_ne_true
    · exact absurd hqueue hc
  · exact absurd hstop (by simp [Device.buildGate])

theorem inv_connect {s s' : State ι} {d : ι} (h : Inv s) (hg : Guarded s (.connect d))
    (hs : step s (.connect d) = some s') : Inv s' := by
  simp only [step, Option.ite_none_right_eq_some, Option.some.injEq] at hs
  obtain ⟨⟨hrun, -⟩, rfl⟩ := hs
  refine h.calm (fun uid hu => Or.inr ?_) (fun op hop => hop) (fun uid _ hu => Or.inl ⟨hu.1, Or.inl rfl⟩)
    (fun hstop => absurd (hstop.symm.trans hrun) Bool.false_ne_true)
  exact (hg uid hu.1 hu.2.2).imp_right Or.inr

/-- More to send on a running device, with the account that was signed in. -/
theorem Inv.enqueue {s : State ι} (h : Inv s) {d : ι} {D : Device} {ops : List Op}
    (hqueue : D.queue = (s.devices d).queue ++ ops) (hcur : D.currentUser = (s.devices d).currentUser)
    (hconn : D.connected = (s.devices d).connected) (hrun : D.running = true) :
    Inv (Presence.setDevice s d D) := by
  refine h.calm (fun uid hu => Or.inl ?_) (fun op hop => ?_) (fun uid _ hu => Or.inl ?_) (fun hstop => ?_)
  · obtain ⟨hc, hk, ho⟩ := hu
    rw [hqueue, List.any_append, Bool.or_eq_false_iff] at ho
    exact ⟨hcur ▸ hc, hconn ▸ hk, ho.1⟩
  · rw [hqueue]
    exact List.mem_append_left _ hop
  · refine ⟨hcur.trans hu.1, hu.2.imp (fun hc => hconn.trans hc) fun hne => ?_⟩
    rw [hqueue]
    exact List.append_ne_nil_of_left_ne_nil hne _
  · exact absurd (hstop.symm.trans hrun) Bool.false_ne_true

theorem inv_buildAuthGate {s s' : State ι} {d : ι} (h : Inv s)
    (hs : step s (.buildAuthGate d) = some s') : Inv s' := by
  simp only [step, Option.ite_none_right_eq_some, Option.some.injEq] at hs
  obtain ⟨hrun, rfl⟩ := hs
  exact h.enqueue rfl rfl rfl hrun

theorem inv_signOut {s s' : State ι} {d : ι} (h : Inv s) (hs : step s (.signOut d) = some s') :
    Inv s' := by
  simp only [step] at hs
  split at hs
  · simp only [Option.ite_none_right_eq_some, Option.some.injEq] at hs
    obtain ⟨hrun, rfl⟩ := hs
    exact h.enqueue rfl rfl rfl hrun
  · cases hs

/-- What a sign-in leaves: the queue is extended, and unless the account is refused, or the sign-in
fails and `AuthGate` does not act, the device is to write that it is online. -/
theorem signIn_spec (D : Device) (uid : String) (outcome : Outcome) :
    (∃ ops, (D.signIn uid outcome).queue = D.queue ++ ops) ∧
    (D.signIn uid outcome).connected = D.connected ∧ (D.signIn uid outcome).running = D.running ∧
    ((D.signIn uid outcome).currentUser = none ∨
      (D.signIn uid outcome).currentUser = some uid ∧
        ((D.signIn uid outcome).Brings uid ∨
          outcome.isFailed = true ∧ D.gateRemembered = false)) := by
  cases outcome with
  | entered remember =>
    refine ⟨⟨_, List.append_assoc ..⟩, rfl, rfl, Or.inr ⟨rfl, Or.inl ?_⟩⟩
    exact ⟨.set uid .loginPage, List.mem_append_right _ (List.mem_singleton_self _), by simp [Op.brings]⟩
  | refused => exact ⟨⟨_, rfl⟩, rfl, rfl, Or.inl rfl⟩
  | failed stored =>
    refine ⟨⟨_, rfl⟩, rfl, rfl, Or.inr ⟨rfl, ?_⟩⟩
    cases hg : D.gateRemembered with
    | false => exact Or.inr ⟨rfl, rfl⟩
    | true =>
      refine Or.inl ⟨.set uid .authGate, List.mem_append_right _ ?_, by simp [Op.brings]⟩
      simp [Device.gate, hg, gateOps]

theorem inv_signIn {s s' : State ι} {d : ι} {uid : String} {outcome : Outcome} (h : Inv s)
    (hg : Guarded s (.signIn d uid outcome)) (hs : step s (.signIn d uid outcome) = some s') :
    Inv s' := by
  simp only [step, Option.ite_none_right_eq_some, Option.some.injEq] at hs
  obtain ⟨hrun, rfl⟩ := hs
  obtain ⟨⟨ops, hqueue⟩, hconn, hrun', hcur⟩ := signIn_spec (s.devices d) uid outcome
  refine h.calm (fun v hv => Or.inr ?_) (fun op hop => ?_) (fun v hon hv => ?_) (fun hstop => ?_)
  · rcases hcur with hcur | ⟨hcur, hb⟩
    · exact absurd (hcur.symm.trans hv.1) (by simp)
    · obtain rfl := Option.some.inj (hcur.symm.trans hv.1)
      rcases hb with hb | ⟨hfailed, hgate⟩
      · exact Or.inr (Or.inl hb)
      · have hcoming := (hg.2 hfailed (hconn ▸ hv.2.1)).resolve_left (by simp [hgate])
        exact hcoming.imp_right Or.inr
  · rw [hqueue]
    exact List.mem_append_left _ hop
  · by_cases hsame : ((s.devices d).signIn uid outcome).currentUser = some v
    · refine Or.inl ⟨hsame, hv.2.imp (fun hc => hconn.trans hc) fun hne => ?_⟩
      rw [hqueue]
      exact List.append_ne_nil_of_left_ne_nil hne _
    · exact Or.inr (hg.1 v hv.1 hsame hon)
  · exact absurd (hstop.symm.trans (hrun'.trans hrun)) Bool.false_ne_true

/-- What the handlers leave online was online, and belongs to no handler. -/
theorem online_runHandlers_iff {handlers : List String} {p : String → Value} {uid : String} :
    online (runHandlers handlers p) uid = true ↔ uid ∉ handlers ∧ online p uid = true := by
  rw [online_runHandlers]
  split_ifs with hu <;> simp [hu]

theorem inv_lose {s s' : State ι} {d : ι} (h : Inv s) (hg : Guarded s (.lose d))
    (hs : step s (.lose d) = some s') : Inv s' := by
  simp only [step, Option.ite_none_right_eq_some, Option.some.injEq] at hs
  obtain ⟨hconn, rfl⟩ := hs
  refine h.setDevice (fun uid hu => absurd hu.2.1 Bool.false_ne_true) (fun e he uid hu => ?_)
    (fun uid hon => ?_) (fun hstop => ⟨(h.stopped d hstop).1, rfl⟩)
  · rw [online_runHandlers_iff]
    by_cases huh : uid ∈ (s.devices d).handlers
    · rcases hg.2 uid huh with hb | hno
      · exact Or.inr ((brings_iff d).mp hb)
      · exact absurd hu (hno e he)
    · exact (h.kept e uid hu).imp (fun hon => ⟨huh, hon⟩) (brings_iff d).mp
  · obtain ⟨huh, hon⟩ := online_runHandlers_iff.mp hon
    rcases (holds_iff d).mp (h.held uid hon) with hu | hu
    · by_cases hq : (s.devices d).queue = []
      · exact Or.inr (hg.1 hq uid hu.1 huh hon)
      · exact Or.inl ⟨hu.1, Or.inr hq⟩
    · exact Or.inr hu

theorem inv_closeApp {s s' : State ι} {d : ι} (h : Inv s) (hg : Guarded s (.closeApp d))
    (hs : step s (.closeApp d) = some s') : Inv s' := by
  simp only [step, Option.ite_none_right_eq_some, Option.some.injEq] at hs
  obtain ⟨hrun, rfl⟩ := hs
  refine h.setDevice (fun uid hu => absurd hu.2.1 Bool.false_ne_true) (fun e he uid hu => ?_)
    (fun uid hon => ?_) (fun _ => ⟨rfl, rfl⟩)
  · rw [online_runHandlers_iff]
    exact (hg.2 e he uid hu.1 hu).imp_right Or.inr
  · obtain ⟨huh, hon⟩ := online_runHandlers_iff.mp hon
    rcases (holds_iff d).mp (h.held uid hon) with hu | hu
    · exact Or.inr (hg.1 uid hu.1 huh hon)
    · exact Or.inr hu

theorem online_update (p : String → Value) (uid v : String) (value : Value) :
    online (Function.update p uid value) v = if v = uid then isOnline value else online p v := by
  unfold online
  rw [Function.update_apply]
  split_ifs <;> rfl

theorem isOnline_writer (writer : Writer) : isOnline writer.online = true := by
  cases writer <;> rfl

/-- What the other devices have to write stays, and what the device has, up to the operation sent. -/
theorem brings_tail {s : State ι} {d : ι} {op : Op} {queue : List Op} {uid : String}
    (hqueue : (s.devices d).queue = op :: queue) (hop : op.brings uid = false)
    (h : ∃ e, (s.devices e).Brings uid) :
    (∃ op ∈ queue, op.brings uid = true) ∨ Other s d (Device.Brings · uid) := by
  refine ((brings_iff d).mp h).imp_left ?_
  rintro ⟨o, ho, hb⟩
  rw [hqueue] at ho
  rcases List.mem_cons.mp ho with rfl | ho
  · exact absurd (hop.symm.trans hb) Bool.false_ne_true
  · exact ⟨o, ho, hb⟩

/-- The device sends an operation that is no sign-out: a step that takes no account offline, and
brings online only an account that is held. -/
theorem Inv.sent {s : State ι} (h : Inv s) {d : ι} {D : Device} {p : String → Value} {op : Op}
    (hconn : (s.devices d).connected = true) (hqueue : (s.devices d).queue = op :: D.queue)
    (hop : op.isSignOut = false) (hsame : D.currentUser = (s.devices d).currentUser)
    (hconn' : D.connected = true) (hrun : D.running = (s.devices d).running)
    (hon : ∀ uid, online p uid = true ↔ op.brings uid = true ∨ online s.presence uid = true)
    (hheld : ∀ uid, op.brings uid = true → ∃ e, (s.devices e).Holds uid) :
    Inv (Presence.setDevice { s with presence := p } d D) := by
  have hkeeps : ∀ e uid, (s.devices e).Keeps uid →
      online p uid = true ∨ D.Brings uid ∨ Other s d (Device.Brings · uid) := by
    intro e uid hu
    rw [hon]
    cases hb : op.brings uid with
    | true => exact Or.inl (Or.inl rfl)
    | false => exact (h.kept e uid hu).imp Or.inr (brings_tail hqueue hb)
  refine h.setDevice (fun uid hu => hkeeps d uid ⟨hsame ▸ hu.1, hconn, ?_⟩) (fun e _ uid => hkeeps e uid)
    (fun uid hu => ?_) (fun hstop => ?_)
  · rw [hqueue, List.any_cons, hop]
    exact hu.2.2
  · have hex : ∃ e, (s.devices e).Holds uid := ((hon uid).mp hu).elim (hheld uid) (h.held uid)
    exact ((holds_iff d).mp hex).imp_left fun hd => ⟨hsame.trans hd.1, Or.inl hconn'⟩
  · exact absurd ((h.stopped d (hrun ▸ hstop)).2.symm.trans hconn) Bool.false_ne_true

theorem inv_sendSignOut {s : State ι} (h : Inv s) {d : ι} {D : Device} {uid : String}
    (hconn : (s.devices d).connected = true) (hqueue : (s.devices d).queue = .signOut uid :: D.queue)
    (hg : (Op.signOut uid).Guarded s d) (hcur : D.currentUser = none)
    (hrun : D.running = (s.devices d).running) :
    Inv (setDevice { s with presence := Function.update s.presence uid settingsOffline } d D) := by
  have hon : ∀ v, online (Function.update s.presence uid settingsOffline) v = true ↔
      v ≠ uid ∧ online s.presence v = true := by
    intro v
    rw [online_update]
    split_ifs with hv <;> simp [hv, settingsOffline, isOnline]
  refine h.setDevice (fun v hv => ?_) (fun e he v hv => ?_) (fun v hv => ?_) (fun hstop => ?_)
  · exact absurd (hcur.symm.trans hv.1) (Option.some_ne_none v).symm
  · rw [hon]
    by_cases hvu : v = uid
    · subst hvu
      rcases hg.2 with hb | hno
      · exact Or.inr (brings_tail hqueue rfl hb)
      · exact absurd hv (hno e he)
    · exact (h.kept e v hv).imp (fun hv => ⟨hvu, hv⟩) (brings_tail hqueue rfl)
  · obtain ⟨hvu, hv⟩ := (hon v).mp hv
    rcases (holds_iff d).mp (h.held v hv) with hd | hd
    · exact Or.inr (hg.1 v hd.1 hvu hv)
    · exact Or.inr hd
  · exact absurd ((h.stopped d (hrun ▸ hstop)).2.symm.trans hconn) Bool.false_ne_true

theorem inv_send {s s' : State ι} {d : ι} (h : Inv s) (hg : Guarded s (.send d))
    (hs : step s (.send d) = some s') : Inv s' := by
  simp only [step] at hs
  split at hs
  case h_2 => cases hs
  case h_1 op queue hqueue =>
  simp only [Option.ite_none_right_eq_some, Option.some.injEq] at hs
  obtain ⟨hconn, rfl⟩ := hs
  have hg' : op.Guarded s d := hg op (by rw [hqueue]; rfl)
  cases op with
  | set uid writer =>
    refine h.sent hconn hqueue rfl rfl hconn rfl (fun v => ?_) (fun v hv => ?_)
    · rw [Device.send, online_update, isOnline_writer]
      by_cases hv : v = uid
      · simp [Op.brings, hv]
      · simp [Op.brings, hv, Ne.symm hv]
    · obtain rfl : uid = v := of_decide_eq_true hv
      exact hg'
  | onDisconnect uid =>
    refine h.sent hconn hqueue rfl rfl hconn rfl (fun v => ?_) (fun v hv => ?_)
    · simp [Device.send, Op.brings]
    · exact absurd hv Bool.false_ne_true
  | signOut uid => exact inv_sendSignOut h hconn hqueue hg' rfl rfl

theorem inv_step {s s' : State ι} {a : Action ι} (h : Inv s) (hg : Guarded s a)
    (hs : step s a = some s') : Inv s' := by
  cases a with
  | startApp d => exact inv_startApp h hs
  | closeApp d => exact inv_closeApp h hg hs
  | connect d => exact inv_connect h hg hs
  | lose d => exact inv_lose h hg hs
  | buildAuthGate d => exact inv_buildAuthGate h hs
  | signIn d uid outcome => exact inv_signIn h hg hs
  | signOut d => exact inv_signOut h hs
  | send d => exact inv_send h hg hs

section Decidable

variable [Fintype ι]

instance (D : Device) (uid : String) : Decidable (D.Brings uid) :=
  inferInstanceAs (Decidable (∃ op ∈ D.queue, op.brings uid = true))

instance (D : Device) (uid : String) : Decidable (D.Holds uid) :=
  inferInstanceAs (Decidable (D.currentUser = some uid ∧ (D.connected = true ∨ D.queue ≠ [])))

instance (D : Device) (uid : String) : Decidable (D.Keeps uid) :=
  inferInstanceAs (Decidable (D.currentUser = some uid ∧ D.connected = true ∧
    D.queue.any Op.isSignOut = false))

instance (s : State ι) (d : ι) (P : Device → Prop) [DecidablePred P] : Decidable (Other s d P) :=
  inferInstanceAs (Decidable (∃ e, e ≠ d ∧ P (s.devices e)))

instance (s : State ι) (d : ι) (uid : String) : Decidable (Released s d uid) :=
  inferInstanceAs (Decidable (online s.presence uid = true → Other s d (Device.Holds · uid)))

instance (s : State ι) (uid : String) : Decidable (Coming s uid) :=
  inferInstanceAs (Decidable (online s.presence uid = true ∨ ∃ e, (s.devices e).Brings uid))

instance (s : State ι) (d : ι) (op : Op) : Decidable (op.Guarded s d) := by
  cases op <;> dsimp only [Op.Guarded] <;> infer_instance

instance (s : State ι) (a : Action ι) : Decidable (Guarded s a) := by
  cases a <;> dsimp only [Guarded] <;> infer_instance

end Decidable

end KamuSinavi.Presence
