import KamuSinavi.Presence.Truth

/-! # What a deleted account leaves behind

`_deleteAccount` (`pages/settingsPage.dart`) removes the node `presence/uid` and then deletes the
account, after which nobody signs in with it. The handlers of the account that connections have, the
operations that devices have still to send, and devices that are signed in with it are left as they are.

`gone_iff` says when the node of a deleted account stays away, whatever is done later. -/

namespace KamuSinavi.Presence.Deletion

open KamuSinavi.Lib.Runs

/-- The devices and the values, and the accounts that have been deleted. -/
structure State (ι : Type*) where
  shared : Presence.State ι
  deleted : List String

/-- The account that is signed in by an action. -/
def signedIn {ι : Type*} : Presence.Action ι → Option String
  | .signIn _ uid _ => some uid
  | _ => none

/-- The two calls of `_deleteAccount` that matter here are done. -/
inductive Action (ι : Type*) where
  | device (a : Presence.Action ι)
  | removeNode (d : ι)
  | deleteUser (d : ι)

variable {ι : Type*} [DecidableEq ι]

/-- All pages are taken off when the account has been deleted, `AuthGate` among them. -/
def step (s : State ι) : Action ι → Option (State ι)
  | .device a =>
    if ∃ uid ∈ signedIn a, uid ∈ s.deleted then none
    else (Presence.step s.shared a).map fun shared => { s with shared := shared }
  | .removeNode d =>
    let D := s.shared.devices d
    D.currentUser.bind fun uid =>
      if D.running ∧ D.connected then
        some { s with shared :=
          { s.shared with presence := Function.update s.shared.presence uid .null } }
      else none
  | .deleteUser d =>
    let D := s.shared.devices d
    D.currentUser.bind fun uid =>
      if D.running then
        some { s with
          shared := setDevice s.shared d { D with currentUser := none, gateRemembered := false }
          deleted := uid :: s.deleted }
      else none

def installed (ι : Type*) : State ι := { shared := Presence.installed ι, deleted := [] }

/-! ## What a step does -/

/-- **A step sets one device and the values**, to these, and when. -/
inductive Sets (s : Presence.State ι) (d : ι) :
    Presence.Action ι → Device → (String → Value) → Prop
  | started : Sets s d (.startApp d)
      ({ s.devices d with running := true, queue := [] } : Device).buildGate s.presence
  | closed : Sets s d (.closeApp d)
      { s.devices d with running := false, connected := false, queue := [], handlers := [] }
      (runHandlers (s.devices d).handlers s.presence)
  | connected (hrun : (s.devices d).running = true) :
    Sets s d (.connect d) { s.devices d with connected := true } s.presence
  | lost : Sets s d (.lose d) { s.devices d with connected := false, handlers := [] }
      (runHandlers (s.devices d).handlers s.presence)
  | built (hrun : (s.devices d).running = true) :
    Sets s d (.buildAuthGate d) (s.devices d).buildGate s.presence
  | signedIn (uid : String) (outcome : Outcome) (hrun : (s.devices d).running = true) :
    Sets s d (.signIn d uid outcome) ((s.devices d).signIn uid outcome) s.presence
  | signedOut {uid : String} (hu : (s.devices d).currentUser = some uid)
    (hrun : (s.devices d).running = true) :
    Sets s d (.signOut d) { s.devices d with queue := (s.devices d).queue ++ [.signOut uid] } s.presence
  | sent {op : Op} {queue : List Op} (hq : (s.devices d).queue = op :: queue)
    (hc : (s.devices d).connected = true) :
    Sets s d (.send d) (({ s.devices d with queue := queue } : Device).send s.presence op).1
      (({ s.devices d with queue := queue } : Device).send s.presence op).2

theorem sets_of_step {s t : Presence.State ι} {a : Presence.Action ι} (h : Presence.step s a = some t) :
    ∃ d D p, Sets s d a D p ∧ t = setDevice { s with presence := p } d D := by
  cases a with
  | startApp d =>
    simp only [Presence.step, Option.ite_none_left_eq_some, Option.some.injEq] at h
    exact ⟨d, _, _, .started, h.2.symm⟩
  | closeApp d =>
    simp only [Presence.step, Option.ite_none_right_eq_some, Option.some.injEq] at h
    exact ⟨d, _, _, .closed, h.2.symm⟩
  | connect d =>
    simp only [Presence.step, Option.ite_none_right_eq_some, Option.some.injEq] at h
    exact ⟨d, _, _, .connected h.1.1, h.2.symm⟩
  | lose d =>
    simp only [Presence.step, Option.ite_none_right_eq_some, Option.some.injEq] at h
    exact ⟨d, _, _, .lost, h.2.symm⟩
  | buildAuthGate d =>
    simp only [Presence.step, Option.ite_none_right_eq_some, Option.some.injEq] at h
    exact ⟨d, _, _, .built h.1, h.2.symm⟩
  | signIn d uid outcome =>
    simp only [Presence.step, Option.ite_none_right_eq_some, Option.some.injEq] at h
    exact ⟨d, _, _, .signedIn uid outcome h.1, h.2.symm⟩
  | signOut d =>
    simp only [Presence.step] at h
    split at h
    · next uid hu =>
      simp only [Option.ite_none_right_eq_some, Option.some.injEq] at h
      exact ⟨d, _, _, .signedOut hu h.1, h.2.symm⟩
    · cases h
  | send d =>
    simp only [Presence.step] at h
    split at h
    · next op queue hq =>
      simp only [Option.ite_none_right_eq_some, Option.some.injEq] at h
      exact ⟨d, _, _, .sent hq h.1, h.2.symm⟩
    · cases h

/-! ## What devices know -/

/-- The operation is about the account. -/
def about (uid : String) : Op → Prop
  | .set v _ | .onDisconnect v | .signOut v => v = uid

/-- **The device does not know the account**: it is not signed in with it, its connection has no handler
for it, and it has nothing about it to send. -/
structure Unknown (D : Device) (uid : String) : Prop where
  user : D.currentUser ≠ some uid
  handlers : uid ∉ D.handlers
  queue : ∀ op ∈ D.queue, ¬ about uid op

/-- The node is away, and no device knows the account. -/
structure Forgotten (s : Presence.State ι) (uid : String) : Prop where
  presence : s.presence uid = .null
  unknown : ∀ d, Unknown (s.devices d) uid

variable {uid : String}

theorem Unknown.gate {D : Device} (h : D.currentUser ≠ some uid) (remembered : Bool) :
    ∀ op ∈ D.gate remembered, ¬ about uid op := by
  intro op hop habout
  unfold Device.gate at hop
  split_ifs at hop
  · rcases hu : D.currentUser with _ | v
    · rw [hu] at hop
      exact absurd hop List.not_mem_nil
    · rw [hu, Option.elim_some, gateOps, List.mem_cons, List.mem_singleton] at hop
      have hv : v ≠ uid := fun hv => h (hv ▸ hu)
      rcases hop with rfl | rfl <;> exact hv habout
  · exact absurd hop List.not_mem_nil

/-- More to send. -/
theorem Unknown.enqueue {D D' : Device} {ops : List Op} (h : Unknown D uid)
    (hu : D'.currentUser ≠ some uid) (hh : D'.handlers = D.handlers) (hq : D'.queue = D.queue ++ ops)
    (hops : ∀ op ∈ ops, ¬ about uid op) : Unknown D' uid := by
  refine ⟨hu, hh ▸ h.handlers, fun op hop => ?_⟩
  rw [hq, List.mem_append] at hop
  exact hop.elim (h.queue op) (hops op)

theorem forall_setDevice {s : Presence.State ι} {P : Device → Prop} (h : ∀ e, P (s.devices e)) (d : ι)
    {D : Device} (hD : P D) (p : String → Value) :
    ∀ e, P ((setDevice { s with presence := p } d D).devices e) := by
  intro e
  by_cases he : e = d
  · rw [he, devices_self]
    exact hD
  · rw [devices_of_ne _ he]
    exact h e

theorem Forgotten.setDevice {s : Presence.State ι} (h : Forgotten s uid) {p : String → Value} {d : ι}
    {D : Device} (hp : p uid = .null) (hD : Unknown D uid) :
    Forgotten (Presence.setDevice { s with presence := p } d D) uid :=
  ⟨hp, forall_setDevice (P := (Unknown · uid)) h.unknown d hD p⟩

theorem runHandlers_apply (handlers : List String) (p : String → Value) (uid : String) :
    runHandlers handlers p uid = if uid ∈ handlers then gateOffline else p uid := by
  induction handlers generalizing p with
  | nil => rfl
  | cons v handlers ih =>
    rw [runHandlers, List.foldl_cons, ← runHandlers, ih]
    by_cases hv : uid = v
    · subst hv
      simp
    · simp [hv]

/-! ## What is forgotten stays forgotten -/

/-- An operation about another account. -/
theorem Unknown.send {D : Device} {op : Op} {queue : List Op} (h : Unknown D uid)
    (hq : D.queue = op :: queue) (p : String → Value) :
    Unknown (({ D with queue := queue } : Device).send p op).1 uid ∧
      (({ D with queue := queue } : Device).send p op).2 uid = p uid := by
  have hop : ¬ about uid op := h.queue op (hq ▸ List.mem_cons_self ..)
  have hrest : ∀ op ∈ queue, ¬ about uid op := fun op hmem =>
    h.queue op (hq ▸ List.mem_cons_of_mem _ hmem)
  cases op with
  | set v writer => exact ⟨⟨h.user, h.handlers, hrest⟩, Function.update_of_ne (Ne.symm hop) ..⟩
  | onDisconnect v =>
    refine ⟨⟨h.user, fun hmem => ?_, hrest⟩, rfl⟩
    exact (List.mem_cons.mp hmem).elim (fun heq => hop heq.symm) h.handlers
  | signOut v =>
    exact ⟨⟨(Option.some_ne_none uid).symm, h.handlers, hrest⟩, Function.update_of_ne (Ne.symm hop) ..⟩

theorem Unknown.signIn {D : Device} {v : String} (h : Unknown D uid) (hv : v ≠ uid)
    (outcome : Outcome) : Unknown (D.signIn v outcome) uid := by
  have hu : some v ≠ some uid := fun heq => hv (Option.some.inj heq)
  have hgate : ∀ op ∈ ({ D with currentUser := some v } : Device).gate D.gateRemembered,
      ¬ about uid op := Unknown.gate hu D.gateRemembered
  have hset : ∀ op ∈ [Op.set v .loginPage], ¬ about uid op := by
    intro op hop
    rw [List.mem_singleton.mp hop]
    exact hv
  have h' : Unknown ({ D with
      currentUser := some v
      queue := D.queue ++ ({ D with currentUser := some v } : Device).gate D.gateRemembered } : Device)
      uid := h.enqueue hu rfl rfl hgate
  cases outcome with
  | entered remember => exact h'.enqueue h'.user rfl rfl hset
  | refused => exact ⟨(Option.some_ne_none uid).symm, h'.handlers, h'.queue⟩
  | failed stored => exact ⟨h'.user, h'.handlers, h'.queue⟩

theorem forgotten_step {s t : Presence.State ι} {a : Presence.Action ι} (hs : Forgotten s uid)
    (ha : signedIn a ≠ some uid) (h : Presence.step s a = some t) : Forgotten t uid := by
  obtain ⟨d, D, p, hset, rfl⟩ := sets_of_step h
  have hd := hs.unknown d
  have hlost : runHandlers (s.devices d).handlers s.presence uid = .null := by
    rw [runHandlers_apply, if_neg hd.handlers]
    exact hs.presence
  cases hset with
  | started => exact hs.setDevice hs.presence ⟨hd.user, hd.handlers, Unknown.gate hd.user _⟩
  | closed =>
    exact hs.setDevice hlost ⟨hd.user, List.not_mem_nil, fun _ hop => absurd hop List.not_mem_nil⟩
  | connected => exact hs.setDevice hs.presence ⟨hd.user, hd.handlers, hd.queue⟩
  | lost => exact hs.setDevice hlost ⟨hd.user, List.not_mem_nil, hd.queue⟩
  | built =>
    exact hs.setDevice hs.presence (hd.enqueue hd.user rfl rfl (Unknown.gate hd.user _))
  | signedIn v outcome =>
    exact hs.setDevice hs.presence (hd.signIn (fun heq => ha (congrArg some heq)) outcome)
  | signedOut hu =>
    refine hs.setDevice hs.presence (hd.enqueue hd.user rfl rfl fun op hop habout => ?_)
    rw [List.mem_singleton.mp hop] at habout
    exact hd.user (habout ▸ hu)
  | sent hq =>
    obtain ⟨hD, hp⟩ := hd.send hq s.presence
    exact hs.setDevice (hp.trans hs.presence) hD

/-- Nothing brings the node of a deleted account back that is forgotten. -/
theorem forgotten_deletion_step {s t : State ι} {a : Action ι}
    (hs : Forgotten s.shared uid ∧ uid ∈ s.deleted) (h : step s a = some t) :
    Forgotten t.shared uid ∧ uid ∈ t.deleted := by
  obtain ⟨hf, hdeleted⟩ := hs
  cases a with
  | device a =>
    simp only [step, Option.ite_none_left_eq_some] at h
    obtain ⟨hno, h⟩ := h
    obtain ⟨shared, hshared, rfl⟩ := Option.map_eq_some_iff.mp h
    exact ⟨forgotten_step hf (fun hu => hno ⟨uid, hu, hdeleted⟩) hshared, hdeleted⟩
  | removeNode d =>
    obtain ⟨v, hv, h⟩ := Option.bind_eq_some_iff.mp h
    simp only [Option.ite_none_right_eq_some, Option.some.injEq] at h
    obtain ⟨-, rfl⟩ := h
    refine ⟨⟨?_, hf.unknown⟩, hdeleted⟩
    have hne : uid ≠ v := fun heq => (hf.unknown d).user (heq ▸ hv)
    exact (Function.update_of_ne hne ..).trans hf.presence
  | deleteUser d =>
    obtain ⟨v, -, h⟩ := Option.bind_eq_some_iff.mp h
    simp only [Option.ite_none_right_eq_some, Option.some.injEq] at h
    obtain ⟨-, rfl⟩ := h
    have hd := hf.unknown d
    refine ⟨hf.setDevice hf.presence ⟨(Option.some_ne_none uid).symm, hd.handlers, hd.queue⟩, ?_⟩
    exact List.mem_cons_of_mem v hdeleted

/-! ## What is known comes back -/

/-- A device that does not run is not connected and has nothing to send; handlers are on a connection. -/
structure Wired (D : Device) : Prop where
  stopped : D.running = false → D.connected = false ∧ D.queue = []
  handlers : D.connected = false → D.handlers = []

theorem Wired.running {D : Device} (h : Wired D) (hc : D.connected = true) : D.running = true := by
  by_contra hrun
  exact absurd ((h.stopped (Bool.eq_false_iff.mpr hrun)).1.symm.trans hc) Bool.false_ne_true

theorem wired_send {D : Device} (hrun : D.running = true) (hc : D.connected = true) (op : Op)
    (p : String → Value) {queue : List Op} :
    Wired (({ D with queue := queue } : Device).send p op).1 := by
  cases op <;>
    exact ⟨fun hstop => absurd (hstop.symm.trans hrun) Bool.false_ne_true,
      fun hlost => absurd (hlost.symm.trans hc) Bool.false_ne_true⟩

/-- A running device whose connection is as it was. -/
theorem Wired.of_running {D D' : Device} (h : Wired D) (hrun : D'.running = true)
    (hc : D'.connected = D.connected) (hh : D'.handlers = D.handlers) : Wired D' :=
  ⟨fun hstop => absurd (hstop.symm.trans hrun) Bool.false_ne_true,
    fun hlost => hh.trans (h.handlers (hc.symm.trans hlost))⟩

theorem wired_step {s t : Presence.State ι} {a : Presence.Action ι} (hs : ∀ d, Wired (s.devices d))
    (h : Presence.step s a = some t) : ∀ d, Wired (t.devices d) := by
  obtain ⟨d, D, p, hset, rfl⟩ := sets_of_step h
  refine forall_setDevice hs d ?_ p
  cases hset with
  | started => exact (hs d).of_running rfl rfl rfl
  | closed => exact ⟨fun _ => ⟨rfl, rfl⟩, fun _ => rfl⟩
  | connected hrun =>
    exact ⟨fun hstop => absurd (hstop.symm.trans hrun) Bool.false_ne_true,
      fun hlost => absurd hlost.symm Bool.false_ne_true⟩
  | lost => exact ⟨fun hstop => ⟨rfl, ((hs d).stopped hstop).2⟩, fun _ => rfl⟩
  | built hrun => exact (hs d).of_running hrun rfl rfl
  | signedIn v outcome hrun => cases outcome <;> exact (hs d).of_running hrun rfl rfl
  | signedOut _ hrun => exact (hs d).of_running hrun rfl rfl
  | sent hq hc => exact wired_send ((hs d).running hc) hc _ s.presence

theorem wired_deletion_step {s t : State ι} {a : Action ι} (hs : ∀ d, Wired (s.shared.devices d))
    (h : step s a = some t) : ∀ d, Wired (t.shared.devices d) := by
  cases a with
  | device a =>
    simp only [step, Option.ite_none_left_eq_some] at h
    obtain ⟨shared, hshared, rfl⟩ := Option.map_eq_some_iff.mp h.2
    exact wired_step hs hshared
  | removeNode d =>
    obtain ⟨v, -, h⟩ := Option.bind_eq_some_iff.mp h
    simp only [Option.ite_none_right_eq_some, Option.some.injEq] at h
    obtain ⟨-, rfl⟩ := h
    exact hs
  | deleteUser d =>
    obtain ⟨v, -, h⟩ := Option.bind_eq_some_iff.mp h
    simp only [Option.ite_none_right_eq_some, Option.some.injEq] at h
    obtain ⟨hrun, rfl⟩ := h
    refine forall_setDevice hs d ?_ _
    exact (hs d).of_running hrun rfl rfl

/-- **The node can come back** by what devices do, without a sign-in. -/
def Back (s : Presence.State ι) (uid : String) : Prop :=
  ∃ as t, (∀ a ∈ as, signedIn a = none) ∧ run Presence.step s as = some t ∧ t.presence uid ≠ .null

theorem back_of_ne {s : Presence.State ι} (h : s.presence uid ≠ .null) : Back s uid :=
  ⟨[], s, fun _ ha => absurd ha List.not_mem_nil, rfl, h⟩

theorem back_of_step {s t : Presence.State ι} {a : Presence.Action ι} (ha : signedIn a = none)
    (h : Presence.step s a = some t) (hb : Back t uid) : Back s uid := by
  obtain ⟨as, u, has, hrun, hu⟩ := hb
  refine ⟨a :: as, u, fun b hb => ?_, ?_, hu⟩
  · rcases List.mem_cons.mp hb with rfl | hb
    · exact ha
    · exact has b hb
  · rw [run_cons, h, Option.bind_some, hrun]

/-- The connection is lost. -/
theorem back_of_handler {s : Presence.State ι} {d : ι} (hc : (s.devices d).connected = true)
    (h : uid ∈ (s.devices d).handlers) : Back s uid := by
  refine back_of_step (a := .lose d) rfl (if_pos hc) (back_of_ne ?_)
  change runHandlers (s.devices d).handlers s.presence uid ≠ .null
  rw [runHandlers_apply, if_pos h]
  exact Value.noConfusion

/-- What there is to send is sent, up to the first operation about the account. -/
theorem back_of_queue {s : Presence.State ι} {d : ι} {queue : List Op}
    (hq : (s.devices d).queue = queue) (hc : (s.devices d).connected = true)
    (h : ∃ op ∈ queue, about uid op) : Back s uid := by
  induction queue generalizing s with
  | nil =>
    obtain ⟨op, hop, -⟩ := h
    exact absurd hop List.not_mem_nil
  | cons op queue ih =>
    let sent := ({ s.devices d with queue := queue } : Device).send s.presence op
    have hsend : Presence.step s (.send d) =
        some (setDevice { s with presence := sent.2 } d sent.1) := by
      simp only [Presence.step, hq, hc, if_true, sent]
    have hself : (setDevice { s with presence := sent.2 } d sent.1).devices d = sent.1 := devices_self ..
    have hconn : sent.1.connected = true := by
      cases op <;> exact hc
    have hrest : sent.1.queue = queue := by
      cases op <;> rfl
    refine back_of_step (a := .send d) rfl hsend ?_
    by_cases habout : about uid op
    · cases op with
      | set v writer =>
        obtain rfl : v = uid := habout
        refine back_of_ne ?_
        change Function.update s.presence v writer.online v ≠ .null
        rw [Function.update_self]
        cases writer <;> exact Value.noConfusion
      | onDisconnect v =>
        obtain rfl : v = uid := habout
        refine back_of_handler (d := d) (by rw [hself, hconn]) ?_
        rw [hself]
        exact List.mem_cons_self ..
      | signOut v =>
        obtain rfl : v = uid := habout
        refine back_of_ne ?_
        change Function.update s.presence v settingsOffline v ≠ .null
        rw [Function.update_self]
        exact Value.noConfusion
    · obtain ⟨op', hop', habout'⟩ := h
      have hmem : op' ∈ queue := (List.mem_cons.mp hop').resolve_left fun heq => habout (heq ▸ habout')
      exact ih (by rw [hself, hrest]) (by rw [hself, hconn]) ⟨op', hmem, habout'⟩

/-- A running device is connected, and sends. -/
theorem back_of_running {s : Presence.State ι} {d : ι} (hrun : (s.devices d).running = true)
    (h : ∃ op ∈ (s.devices d).queue, about uid op) : Back s uid := by
  by_cases hc : (s.devices d).connected = true
  · exact back_of_queue rfl hc h
  · refine back_of_step (a := .connect d) rfl (if_pos ⟨hrun, Bool.eq_false_iff.mpr hc⟩) ?_
    exact back_of_queue (d := d) rfl (by rw [devices_self]) (by rw [devices_self]; exact h)

/-- A device that is signed in with the account signs out. -/
theorem back_of_user {s : Presence.State ι} {d : ι} (hrun : (s.devices d).running = true)
    (h : (s.devices d).currentUser = some uid) : Back s uid := by
  have hstep : Presence.step s (.signOut d) = some (setDevice s d
      { s.devices d with queue := (s.devices d).queue ++ [.signOut uid] }) := by
    simp only [Presence.step, h, hrun, if_true]
  refine back_of_step (a := .signOut d) rfl hstep (back_of_running (d := d) ?_ ?_)
  · rw [devices_self]
    exact hrun
  · rw [devices_self]
    exact ⟨.signOut uid, List.mem_append_right _ (List.mem_singleton_self _), rfl⟩

/-- **What a device knows comes back.** -/
theorem back_of_known {s : Presence.State ι} (hs : ∀ d, Wired (s.devices d)) {d : ι}
    (h : ¬ Unknown (s.devices d) uid) : Back s uid := by
  by_cases hu : (s.devices d).currentUser = some uid
  · by_cases hrun : (s.devices d).running = true
    · exact back_of_user hrun hu
    · refine back_of_step (a := .startApp d) rfl (if_neg hrun) (back_of_user (d := d) ?_ ?_)
      · rw [devices_self]
        rfl
      · rw [devices_self]
        exact hu
  · by_cases hh : uid ∈ (s.devices d).handlers
    · refine back_of_handler (d := d) ?_ hh
      by_contra hc
      rw [(hs d).handlers (Bool.eq_false_iff.mpr hc)] at hh
      exact absurd hh List.not_mem_nil
    · have hq : ∃ op ∈ (s.devices d).queue, about uid op := by
        by_contra hno
        exact h ⟨hu, hh, fun op hop habout => hno ⟨op, hop, habout⟩⟩
      refine back_of_running (d := d) ?_ hq
      by_contra hrun
      obtain ⟨op, hop, -⟩ := hq
      rw [((hs d).stopped (Bool.eq_false_iff.mpr hrun)).2] at hop
      exact absurd hop List.not_mem_nil

/-- What devices do without a sign-in they can do after a deletion. -/
theorem run_device {s : State ι} {as : List (Presence.Action ι)} {t : Presence.State ι}
    (has : ∀ a ∈ as, signedIn a = none) (h : run Presence.step s.shared as = some t) :
    run step s (as.map .device) = some { s with shared := t } := by
  induction as generalizing s with
  | nil => exact congrArg (fun shared => some { s with shared := shared }) (Option.some.inj h)
  | cons a as ih =>
    rw [run_cons] at h
    obtain ⟨u, hu, h⟩ := Option.bind_eq_some_iff.mp h
    obtain ⟨ha, has⟩ := List.forall_mem_cons.mp has
    have hstep : step s (.device a) = some { s with shared := u } := by
      simp [step, ha, hu]
    rw [List.map_cons, run_cons, hstep, Option.bind_some]
    exact ih (s := { s with shared := u }) has h

/-- **The node of a deleted account stays away, whatever is done later, exactly if** it is away and no
device knows the account. -/
theorem gone_iff {s : State ι} {as : List (Action ι)} (h : run step (installed ι) as = some s)
    (hdeleted : uid ∈ s.deleted) :
    (∀ as' t, run step s as' = some t → t.shared.presence uid = .null) ↔ Forgotten s.shared uid := by
  have hw : ∀ d, Wired (s.shared.devices d) :=
    run_of_keeps (J := fun s : State ι => ∀ d, Wired (s.shared.devices d))
      (fun _ _ _ hs hstep => wired_deletion_step hs hstep)
      (fun _ => ⟨fun _ => ⟨rfl, rfl⟩, fun _ => rfl⟩) h
  constructor
  · intro hall
    refine ⟨hall [] s rfl, fun d => ?_⟩
    by_contra hd
    obtain ⟨as', t, has', hrun, hne⟩ := back_of_known hw hd
    exact hne (hall _ _ (run_device has' hrun))
  · intro hf as' t hrun
    exact (run_of_keeps (J := fun s : State ι => Forgotten s.shared uid ∧ uid ∈ s.deleted)
      (fun _ _ _ hs hstep => forgotten_deletion_step hs hstep) ⟨hf, hdeleted⟩ hrun).1.presence

/-- The session was remembered when the app was started, so the connection has a handler. -/
def remembered : List (Action Unit) :=
  [.device (.startApp ()), .device (.connect ()), .device (.signIn () "ayse" (.entered true)),
    .device (.send ()), .device (.closeApp ()), .device (.startApp ()), .device (.connect ()),
    .device (.send ()), .device (.send ()), .removeNode (), .deleteUser ()]

/-- The node is removed and comes back when the app is closed. -/
theorem gone_iff_remembered :
    ∃ s, run step (installed Unit) remembered = some s ∧ s.shared.presence "ayse" = .null ∧
      ¬ Forgotten s.shared "ayse" ∧
      ((∀ as' t, run step s as' = some t → t.shared.presence "ayse" = .null) ↔
        Forgotten s.shared "ayse") := by
  have hrun : run step (installed Unit) remembered = some _ := rfl
  exact ⟨_, hrun, by decide, fun hf => (hf.unknown ()).handlers (by decide), gone_iff hrun (by decide)⟩

end KamuSinavi.Presence.Deletion
