import Mathlib.Logic.Function.Basic
import KamuSinavi.Lib.Runs

/-! # Who is online

The value at `presence/uid` in the Realtime Database and the devices that write it: `AuthGate`
(`main.dart`), the sign-in of `LoginPage` (`pages/loginPage.dart`) and the sign-out of `SettingsPage`
(`pages/settingsPage.dart`). The admin's list reads it (`buildUsersList` in
`pages/adminDashboard.dart`).

A device sends its operations in order while its connection is up, and keeps them while it is down.
The handlers registered on a connection are run when it is lost, and are gone then. The sign-out
awaits its write before it ends the session. `AuthGate` stays below the other pages: it writes when it
is built, and again when an account signs in, if the session was remembered when it was last built.

Devices are the elements of an arbitrary type. -/

namespace KamuSinavi.Presence

/-- A value at `presence/uid`; of the time in `lastSeen` it is kept whether it is there. -/
inductive Value where
  | null
  | flag (online : Bool)
  | record (online lastSeen : Bool)
  deriving DecidableEq

/-- `isOnline` of the admin's list. -/
def isOnline : Value → Bool
  | .null => false
  | .flag online => online
  | .record online _ => online

/-- The two places that write that an account is online. -/
inductive Writer where
  | authGate
  | loginPage
  deriving DecidableEq

def Writer.online : Writer → Value
  | .authGate => .record true true
  | .loginPage => .record true false

/-- What the handler of `AuthGate` writes, and what `SettingsPage` writes. -/
def gateOffline : Value := .record false true
def settingsOffline : Value := .record false false

/-- What a device asks of the database: that the account is online, a handler that writes that it is
not, and the write a sign-out awaits. -/
inductive Op where
  | set (uid : String) (writer : Writer)
  | onDisconnect (uid : String)
  | signOut (uid : String)
  deriving DecidableEq

/-- What `AuthGate` asks for when it is built with an account and a remembered session. -/
def gateOps (uid : String) : List Op := [.set uid .authGate, .onDisconnect uid]

/-- How a sign-in goes on once the account is signed in: `LoginPage` stores whether the session is to
be remembered and writes, it signs the account out again (it is not verified), or a call fails, before
or after something was stored. -/
inductive Outcome where
  | entered (remember : Bool)
  | refused
  | failed (stored : Option Bool)
  deriving DecidableEq

def Outcome.isFailed : Outcome → Bool
  | .failed _ => true
  | _ => false

/-- A device. `gateRemembered` is `rememberMe` when `AuthGate` was last built; `queue` are the
operations not yet sent, and `handlers` the accounts with a handler on the connection. -/
structure Device where
  running : Bool
  connected : Bool
  currentUser : Option String
  rememberMe : Bool
  gateRemembered : Bool
  queue : List Op
  handlers : List String
  deriving DecidableEq

/-- What `AuthGate` asks for, given whether the session is remembered. -/
def Device.gate (d : Device) (remembered : Bool) : List Op :=
  if remembered then d.currentUser.elim [] gateOps else []

structure State (ι : Type*) where
  devices : ι → Device
  presence : String → Value

inductive Action (ι : Type*) where
  | startApp (d : ι)
  | closeApp (d : ι)
  | connect (d : ι)
  | lose (d : ι)
  | buildAuthGate (d : ι)
  | signIn (d : ι) (uid : String) (outcome : Outcome)
  | signOut (d : ι)
  | send (d : ι)

/-- `AuthGate` is built. -/
def Device.buildGate (d : Device) : Device :=
  { d with gateRemembered := d.rememberMe, queue := d.queue ++ d.gate d.rememberMe }

/-- The account signs in: `AuthGate` is told of it, and `LoginPage` goes on. -/
def Device.signIn (d : Device) (uid : String) (outcome : Outcome) : Device :=
  let d := { d with currentUser := some uid }
  let d := { d with queue := d.queue ++ d.gate d.gateRemembered }
  match outcome with
  | .entered remember =>
    { d with rememberMe := remember, queue := d.queue ++ [.set uid .loginPage] }
  | .refused => { d with currentUser := none }
  | .failed stored => { d with rememberMe := stored.getD d.rememberMe }

/-- An operation is sent: the device and the values after it. -/
def Device.send (d : Device) (p : String → Value) : Op → Device × (String → Value)
  | .set uid writer => (d, Function.update p uid writer.online)
  | .onDisconnect uid => ({ d with handlers := uid :: d.handlers }, p)
  | .signOut uid =>
    ({ d with currentUser := none, gateRemembered := d.rememberMe },
      Function.update p uid settingsOffline)

/-- The handlers of a connection are run. -/
def runHandlers (handlers : List String) (p : String → Value) : String → Value :=
  handlers.foldl (fun p uid => Function.update p uid gateOffline) p

variable {ι : Type*} [DecidableEq ι]

def setDevice (s : State ι) (d : ι) (D : Device) : State ι :=
  { s with devices := Function.update s.devices d D }

def step (s : State ι) : Action ι → Option (State ι)
  | .startApp d =>
    let D := s.devices d
    if D.running then none
    else some (setDevice s d { D with running := true, queue := [] }.buildGate)
  | .closeApp d =>
    let D := s.devices d
    if D.running then
      some (setDevice { s with presence := runHandlers D.handlers s.presence } d
        { D with running := false, connected := false, queue := [], handlers := [] })
    else none
  | .connect d =>
    let D := s.devices d
    if D.running ∧ D.connected = false then some (setDevice s d { D with connected := true }) else none
  | .lose d =>
    let D := s.devices d
    if D.connected then
      some (setDevice { s with presence := runHandlers D.handlers s.presence } d
        { D with connected := false, handlers := [] })
    else none
  | .buildAuthGate d =>
    let D := s.devices d
    if D.running then some (setDevice s d D.buildGate) else none
  | .signIn d uid outcome =>
    let D := s.devices d
    if D.running then some (setDevice s d (D.signIn uid outcome)) else none
  | .signOut d =>
    let D := s.devices d
    match D.currentUser with
    | some uid =>
      if D.running then some (setDevice s d { D with queue := D.queue ++ [.signOut uid] }) else none
    | none => none
  | .send d =>
    let D := s.devices d
    match D.queue with
    | op :: queue =>
      if D.connected then
        let r := { D with queue := queue }.send s.presence op
        some (setDevice { s with presence := r.2 } d r.1)
      else none
    | [] => none

/-- Nobody has used the app yet. -/
def installed (ι : Type*) : State ι where
  devices := fun _ =>
    { running := false, connected := false, currentUser := none, rememberMe := false
      gateRemembered := false, queue := [], handlers := [] }
  presence := fun _ => .null

/-- The account is online in the admin's list. -/
def online (p : String → Value) (uid : String) : Bool := isOnline (p uid)

end KamuSinavi.Presence
