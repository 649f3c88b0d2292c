import KamuSinavi.Lib.Dart
import KamuSinavi.Lib.Runs
import Mathlib.Data.List.MinMax

/-! # The unread dot

The red dot of a user in the admin's list (`buildUsersList` in `pages/adminDashboard.dart`). It is there
if the last message of the chat is later than `lastSeenByAdmin`, the time of the last message when the
admin opened the chat through the icon; who sent the message is not looked at. The openings are those of
`Chat.Inbox`, of one chat and with the times of its messages.

`Marked` says that the dot means a message of the user that the admin has not seen, and `marked_iff` for
which runs it does: an answer of the admin's is itself a last message. -/

namespace KamuSinavi.Chat.Unread

open KamuSinavi.Lib KamuSinavi.Lib.Runs KamuSinavi.Lib.Dart

inductive Party where
  | user
  | admin
  deriving DecidableEq

/-- A message in the chat of the user and the admin. -/
structure Message where
  sender : Party
  timestamp : ℕ
  deriving DecidableEq

/-- Where the opening of the chat is suspended: reading the last message, and writing its time. `existed`,
which the code does not have, are the messages there were when the last one was read. -/
inductive Opening where
  | get
  | set (lastTimestamp : ℕ) (existed : List Message)
  deriving DecidableEq

/-- The chat. `lastOpening`, which the code does not have, are the messages that existed at the last
opening that led to the chat, none if there was no opening. -/
structure State where
  messages : List Message
  lastSeenByAdmin : Option ℕ
  openings : List Opening
  lastOpening : List Message
  deriving DecidableEq

/-- The messages get increasing times from the server. -/
inductive Action where
  | sendMessage (sender : Party) (text : String) (timestamp : ℕ)
  | tapMessages
  | resume (k : ℕ)
  | fails (k : ℕ)

/-- `orderBy('timestamp', descending: true).limit(1)`. -/
def latest (messages : List Message) : Option Message := messages.argmax Message.timestamp

/-- The opening `k` goes on. -/
def resume (s : State) (k : ℕ) : Opening → State
  | .get =>
    match latest s.messages with
    | some m => { s with openings := s.openings.set k (.set m.timestamp s.messages) }
    | none => { s with openings := s.openings.eraseIdx k, lastOpening := s.messages }
  | .set lastTimestamp existed =>
    { s with
      lastSeenByAdmin := some lastTimestamp
      openings := s.openings.eraseIdx k
      lastOpening := existed }

def step (s : State) : Action → Option State
  | .sendMessage sender text timestamp =>
    if (trim text).isEmpty then none
    else if ∀ m ∈ s.messages, m.timestamp < timestamp then
      some { s with messages := s.messages ++ [{ sender, timestamp }] }
    else none
  | .tapMessages => some { s with openings := s.openings ++ [.get] }
  | .resume k => s.openings[k]?.map (resume s k)
  -- no opening that throws gets to `Navigator.push`
  | .fails k => s.openings[k]?.map fun _ => { s with openings := s.openings.eraseIdx k }

/-- The dot of the user, with a fresh read of `lastSeenByAdmin` and the messages there are. What the list
shows is computed from the read of its last build, which may be an earlier one. -/
def hasNewMessage (s : State) : Bool :=
  match latest s.messages with
  | none => false
  | some latestMessage => s.lastSeenByAdmin.all fun lastSeen => lastSeen < latestMessage.timestamp

/-- The user has a message later than all that existed at the admin's last opening. -/
def HasUnread (s : State) : Prop :=
  ∃ m ∈ s.messages, m.sender = .user ∧ ∀ m' ∈ s.lastOpening, m'.timestamp < m.timestamp

/-- **The dot means an unread message of the user.** -/
def Marked (s : State) : Prop := hasNewMessage s = true ↔ HasUnread s

instance decidableHasUnread (s : State) : Decidable (HasUnread s) :=
  inferInstanceAs (Decidable (∃ m ∈ s.messages, _ ∧ ∀ m' ∈ s.lastOpening, _))

instance decidableMarked : DecidablePred Marked := fun s =>
  inferInstanceAs (Decidable (hasNewMessage s = true ↔ HasUnread s))

/-- Nothing has been sent. -/
def installed : State :=
  { messages := [], lastSeenByAdmin := none, openings := [], lastOpening := [] }

/-- The user has a message later than a stored time. -/
def UserAfter (s : State) (lastSeen : Option ℕ) : Prop :=
  ∃ m ∈ s.messages, m.sender = .user ∧ ∀ seen ∈ lastSeen, seen < m.timestamp

/-- The admin answers while a message of the user is later than the stored time; and when a time is
stored, a later message of the admin's comes with one of the user's. -/
def Heard (s : State) : Action → Prop
  | .sendMessage .admin _ _ => UserAfter s s.lastSeenByAdmin
  | .resume k => ∀ lastTimestamp existed, s.openings[k]? = some (.set lastTimestamp existed) →
      (∃ m ∈ s.messages, m.sender = .admin ∧ lastTimestamp < m.timestamp) →
      UserAfter s (some lastTimestamp)
  | _ => True

/-! ### The last message -/

/-- What is later than the last message is later than all. -/
theorem forall_latest_iff {messages : List Message} {timestamp : ℕ} :
    (∀ seen ∈ (latest messages).map Message.timestamp, seen < timestamp) ↔
      ∀ m ∈ messages, m.timestamp < timestamp := by
  constructor
  · intro h m hm
    rcases hl : latest messages with _ | last
    · rw [latest, List.argmax_eq_none] at hl
      rw [hl] at hm
      exact absurd hm List.not_mem_nil
    · have hlast := h last.timestamp (by rw [hl]; exact rfl)
      exact (List.le_of_mem_argmax hm hl).trans_lt hlast
  · intro h seen hseen
    obtain ⟨last, hl, rfl⟩ := Option.map_eq_some_iff.mp hseen
    exact h last (List.argmax_mem hl)

/-- The last message is later than a time exactly if one is. -/
theorem hasNewMessage_iff {s : State} :
    hasNewMessage s = true ↔
      ∃ m ∈ s.messages, ∀ lastSeen ∈ s.lastSeenByAdmin, lastSeen < m.timestamp := by
  unfold hasNewMessage
  split
  · rename_i hnone
    rw [latest, List.argmax_eq_none] at hnone
    rw [hnone]
    simp
  · rename_i m hm
    rw [Option.all_eq_true]
    simp only [decide_eq_true_eq]
    constructor
    · exact fun h => ⟨m, List.argmax_mem hm, h⟩
    · rintro ⟨m', hm', h⟩ lastSeen hl
      exact (h lastSeen hl).trans_le (List.le_of_mem_argmax hm' hm)

/-! ### What a step does -/

/-- What is stored is the time of the last message at the last opening. -/
structure Inv (s : State) : Prop where
  lastSeen : s.lastSeenByAdmin = (latest s.lastOpening).map Message.timestamp
  opened : s.lastOpening ⊆ s.messages
  reading : ∀ lastTimestamp existed, Opening.set lastTimestamp existed ∈ s.openings →
    (latest existed).map Message.timestamp = some lastTimestamp ∧ existed ⊆ s.messages

theorem inv_installed : Inv installed :=
  ⟨rfl, List.nil_subset _, fun _ _ h => absurd h List.not_mem_nil⟩

theorem Inv.hasUnread_iff {s : State} (h : Inv s) : HasUnread s ↔ UserAfter s s.lastSeenByAdmin := by
  rw [HasUnread, UserAfter, h.lastSeen]
  simp only [forall_latest_iff]

/-- What is later than all messages is later than what is stored. -/
theorem Inv.seen_lt {s : State} (h : Inv s) {timestamp : ℕ}
    (hlast : ∀ m ∈ s.messages, m.timestamp < timestamp) :
    ∀ lastSeen ∈ s.lastSeenByAdmin, lastSeen < timestamp := by
  rw [h.lastSeen, forall_latest_iff]
  exact fun m hm => hlast m (h.opened hm)

/-- Messages are added, and what is stored stays. -/
theorem Inv.frame {s t : State} (h : Inv s) (hmessages : s.messages ⊆ t.messages)
    (hseen : t.lastSeenByAdmin = s.lastSeenByAdmin) (hopening : t.lastOpening = s.lastOpening)
    (hreading : ∀ o ∈ t.openings, o ∈ s.openings ∨ o = .get) : Inv t := by
  refine ⟨?_, ?_, fun l existed hl => ?_⟩
  · rw [hseen, hopening, h.lastSeen]
  · rw [hopening]
    exact List.Subset.trans h.opened hmessages
  · rcases hreading _ hl with hl | hl
    · exact (h.reading l existed hl).imp id fun hsub => List.Subset.trans hsub hmessages
    · cases hl

theorem inv_resume {s : State} (h : Inv s) {k : ℕ} {o : Opening} (ho : s.openings[k]? = some o) :
    Inv (resume s k o) := by
  cases o with
  | get =>
    rcases hl : latest s.messages with _ | m
    · have hr : resume s k .get =
          { s with openings := s.openings.eraseIdx k, lastOpening := s.messages } := by
        simp only [resume, hl]
      rw [hr]
      refine ⟨?_, List.Subset.refl _, fun l e he => h.reading l e (List.mem_of_mem_eraseIdx he)⟩
      -- nothing has been sent, so nothing is stored
      have hnil : s.messages = [] := List.argmax_eq_none.mp hl
      have hopened : s.lastOpening = [] := List.subset_nil.mp (hnil ▸ h.opened)
      rw [hnil, ← hopened]
      exact h.lastSeen
    · have hr : resume s k .get =
          { s with openings := s.openings.set k (.set m.timestamp s.messages) } := by
        simp only [resume, hl]
      rw [hr]
      refine ⟨h.lastSeen, h.opened, fun l e he => ?_⟩
      rcases List.mem_or_eq_of_mem_set he with he | he
      · exact h.reading l e he
      · obtain ⟨rfl, rfl⟩ := Opening.set.inj he
        exact ⟨by rw [hl]; rfl, List.Subset.refl _⟩
  | set lastTimestamp existed =>
    obtain ⟨hlast, hsub⟩ := h.reading lastTimestamp existed (List.mem_of_getElem? ho)
    exact ⟨hlast.symm, hsub, fun l e he => h.reading l e (List.mem_of_mem_eraseIdx he)⟩

theorem inv_step {s t : State} {a : Action} (h : Inv s) (hs : step s a = some t) : Inv t := by
  cases a with
  | sendMessage sender text timestamp =>
    simp only [step, Option.ite_none_left_eq_some, Option.ite_none_right_eq_some,
      Option.some.injEq] at hs
    obtain ⟨-, -, rfl⟩ := hs
    exact h.frame (List.subset_append_left _ _) rfl rfl fun _ ho => Or.inl ho
  | tapMessages =>
    obtain rfl := Option.some.inj hs
    refine h.frame (List.Subset.refl _) rfl rfl fun o ho => ?_
    exact (List.mem_append.mp ho).imp id List.mem_singleton.mp
  | fails k =>
    obtain ⟨o, -, rfl⟩ := Option.map_eq_some_iff.mp hs
    exact h.frame (List.Subset.refl _) rfl rfl fun _ ho => Or.inl (List.mem_of_mem_eraseIdx ho)
  | resume k =>
    obtain ⟨o, ho, rfl⟩ := Option.map_eq_some_iff.mp hs
    exact inv_resume h ho

/-- What is stored and sent is the same. -/
theorem marked_congr {s t : State} (hs : Inv s) (ht : Inv t) (hmessages : t.messages = s.messages)
    (hseen : t.lastSeenByAdmin = s.lastSeenByAdmin) : Marked t ↔ Marked s := by
  rw [Marked, Marked, hasNewMessage_iff, hasNewMessage_iff, hs.hasUnread_iff, ht.hasUnread_iff,
    UserAfter, UserAfter, hmessages, hseen]

/-- Reading the last message neither sends nor stores. -/
theorem resume_get (s : State) (k : ℕ) :
    (resume s k .get).messages = s.messages ∧
      (resume s k .get).lastSeenByAdmin = s.lastSeenByAdmin := by
  rcases hl : latest s.messages with _ | m <;> simp only [resume, hl, and_self]

/-- **After a new message the dot is there**, so it is right if the user has a message not seen. -/
theorem marked_sent {s : State} (h : Inv s) {m : Message}
    (hlast : ∀ m' ∈ s.messages, m'.timestamp < m.timestamp)
    (ht : Inv { s with messages := s.messages ++ [m] }) :
    Marked { s with messages := s.messages ++ [m] } ↔
      m.sender = .user ∨ UserAfter s s.lastSeenByAdmin := by
  have hlater := h.seen_lt hlast
  have hmem : m ∈ s.messages ++ [m] := List.mem_append_right _ (List.mem_singleton_self _)
  have hnew : hasNewMessage { s with messages := s.messages ++ [m] } = true :=
    hasNewMessage_iff.mpr ⟨m, hmem, hlater⟩
  refine (iff_true_left hnew).trans (ht.hasUnread_iff.trans ⟨?_, ?_⟩)
  · rintro ⟨m', hm', huser, hl⟩
    rcases List.mem_append.mp hm' with hm' | hm'
    · exact Or.inr ⟨m', hm', huser, hl⟩
    · rw [List.mem_singleton.mp hm'] at huser
      exact Or.inl huser
  · rintro (huser | ⟨m', hm', huser, hl⟩)
    · exact ⟨m, hmem, huser, hlater⟩
    · exact ⟨m', List.mem_append_left _ hm', huser, hl⟩

/-- **After a time has been stored** the dot is right if a later message of the admin's comes with one
of the user's. -/
theorem marked_stored {s : State} {lastTimestamp : ℕ} (hseen : s.lastSeenByAdmin = some lastTimestamp)
    (h : Inv s) :
    Marked s ↔ ((∃ m ∈ s.messages, m.sender = .admin ∧ lastTimestamp < m.timestamp) →
      UserAfter s (some lastTimestamp)) := by
  rw [Marked, hasNewMessage_iff, h.hasUnread_iff, hseen]
  simp only [UserAfter, Option.mem_some_iff, forall_eq']
  constructor
  · rintro hiff ⟨m, hm, -, hl⟩
    exact hiff.mp ⟨m, hm, hl⟩
  · refine fun himp => ⟨?_, fun ⟨m, hm, _, hl⟩ => ⟨m, hm, hl⟩⟩
    rintro ⟨m, hm, hl⟩
    rcases hsender : m.sender with _ | _
    · exact ⟨m, hm, hsender, hl⟩
    · exact himp ⟨m, hm, hsender, hl⟩

/-- **A step keeps the dot right exactly if it is heard.** -/
theorem marked_step {s t : State} {a : Action} (h : Inv s) (hM : Marked s)
    (hs : step s a = some t) : Marked t ↔ Heard s a := by
  have ht := inv_step h hs
  cases a with
  | sendMessage sender text timestamp =>
    simp only [step, Option.ite_none_left_eq_some, Option.ite_none_right_eq_some,
      Option.some.injEq] at hs
    obtain ⟨-, hlast, rfl⟩ := hs
    rw [marked_sent h hlast ht]
    cases sender with
    | user => exact iff_of_true (Or.inl rfl) trivial
    | admin => exact or_iff_right (by simp)
  | tapMessages =>
    obtain rfl := Option.some.inj hs
    exact iff_of_true ((marked_congr h ht rfl rfl).mpr hM) trivial
  | fails k =>
    obtain ⟨o, -, rfl⟩ := Option.map_eq_some_iff.mp hs
    exact iff_of_true ((marked_congr h ht rfl rfl).mpr hM) trivial
  | resume k =>
    obtain ⟨o, ho, rfl⟩ := Option.map_eq_some_iff.mp hs
    cases o with
    | get =>
      obtain ⟨hmessages, hseen⟩ := resume_get s k
      refine iff_of_true ((marked_congr h ht hmessages hseen).mpr hM) fun l e hl => ?_
      cases ho.symm.trans hl
    | set lastTimestamp existed =>
      refine (marked_stored rfl ht).trans ⟨fun himp l e hl => ?_, fun hH => hH lastTimestamp existed ho⟩
      obtain ⟨rfl, rfl⟩ := Opening.set.inj (Option.some.inj (ho.symm.trans hl))
      exact himp

/-- **The dot means an unread message of the user in every state of a run exactly if the admin answers
only while one is later than the stored time**, and no time is stored below an answer alone. -/
theorem marked_iff (as : List Action) :
    Always step Marked installed as ↔ Along step Heard installed as :=
  always_iff_along (J := Inv) (fun _ _ _ h _ hs _ => inv_step h hs)
    (fun _ _ _ h hM hs => marked_step h hM hs) inv_installed (by decide)

/-- **The admin's answer** to a message that has been read brings the dot back. -/
theorem answer_marked_unread :
    ¬ Always step Marked installed
      [.sendMessage .user "Merhaba" 1, .tapMessages, .resume 0, .resume 0,
        .sendMessage .admin "Buyurun" 2] := by
  decide

end KamuSinavi.Chat.Unread
