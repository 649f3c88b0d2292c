import Mathlib.Data.List.InsertIdx
import KamuSinavi.Lib.Calls
import KamuSinavi.Lib.Dart
import KamuSinavi.Lib.Runs

/-! # Sending a message

`sendMessage` of `MessageToAdminPage` and of `AdminChatScreen` (`pages/messageToAdminPage.dart`,
`pages/admin_chat_screen.dart`). It reads the field, adds a document and awaits that, and then clears
the field; the field takes text, and the button taps, while it waits. The two differ in the document
they add, and in that the user's page sends nothing without a user: `sendMessage` has the parameters
of both in a `Sender`.

A typed character has a serial number and a draft the number of edits before it, so that a message
can be told from another with the same text. `Delivered` says that no draft has been sent twice, and
that every typed character the writer has not erased is in the field or in a sent message; a blank that
`trim` takes off is sent with its draft.
`delivered_iff` says for which runs this holds in every state. -/

namespace KamuSinavi.Chat

open KamuSinavi.Lib KamuSinavi.Lib.Runs KamuSinavi.Lib.Dart

/-- `getChatId` (`pages/chat_utils.dart`). -/
def getChatId (uid1 uid2 : String) : String :=
  if compareTo uid1 uid2 = .lt then uid1 ++ "_" ++ uid2 else uid2 ++ "_" ++ uid1

/-- What a screen writes beside the text. -/
structure Sender where
  chatId : String
  senderId : String
  receiverId : String
  seen : Option Bool
  deriving DecidableEq

def adminUid : String := "ENmRcxdvWeYLOWvLVf6JwXd64CE2"

def messageToAdminPage (user : Option String) : Option Sender :=
  user.map fun uid =>
    { chatId := getChatId uid adminUid, senderId := uid, receiverId := adminUid, seen := some false }

def adminChatScreen (adminId userId : String) : Option Sender :=
  some { chatId := getChatId userId adminId, senderId := adminId, receiverId := userId, seen := none }

/-- A typed character. -/
structure Typed where
  char : Char
  serial : ℕ
  deriving DecidableEq

/-- An added document; `draft` is what the field held, and `version` the number of edits before. -/
structure Doc where
  sender : Sender
  text : String
  draft : List Typed
  version : ℕ
  deriving DecidableEq

/-- A screen. `adding` counts the calls of `sendMessage` that await their `add`, `version` the edits
of the field so far, and `kept` holds the serials of the characters the writer typed and did not
erase. -/
structure State where
  field : List Typed
  docs : List Doc
  adding : ℕ
  version : ℕ
  typed : ℕ
  kept : List ℕ
  deriving DecidableEq

inductive Action where
  | type (position : ℕ) (char : Char)
  | erase (position : ℕ)
  | tapSend
  | added

/-- The text in the field. -/
def fieldText (s : State) : String := String.ofList (s.field.map Typed.char)

/-- `sendMessage` up to its call of `add`; `none` if it returns before. -/
def sendMessage (sender : Option Sender) (s : State) : Option State :=
  let text := trim (fieldText s)
  if text.isEmpty then none
  else sender.map fun sender =>
    { s with
      docs := s.docs ++ [{ sender := sender, text := text, draft := s.field, version := s.version }]
      adding := s.adding + 1 }

def step (sender : Option Sender) (s : State) : Action → Option State
  | .type position char =>
    if position ≤ s.field.length then
      some { s with
        field := s.field.insertIdx position { char := char, serial := s.typed }
        version := s.version + 1
        typed := s.typed + 1
        kept := s.typed :: s.kept }
    else none
  | .erase position =>
    s.field[position]?.map fun t =>
      { s with
        field := s.field.eraseIdx position
        version := s.version + 1
        kept := s.kept.filter fun k => k ≠ t.serial }
  | .tapSend => sendMessage sender s
  -- one of the calls goes on when its document has been added, and clears the field
  | .added =>
    if 0 < s.adding then
      some { s with field := [], adding := s.adding - 1, version := s.version + 1 }
    else none

/-- The screen when it is opened. -/
def opened : State :=
  { field := [], docs := [], adding := 0, version := 0, typed := 0, kept := [] }

/-- The character `k` is in a list. -/
def Holds (ts : List Typed) (k : ℕ) : Prop := ∃ t ∈ ts, t.serial = k

/-- The character `k` has been sent. -/
def Sent (s : State) (k : ℕ) : Prop := ∃ d ∈ s.docs, Holds d.draft k

/-- **Each draft that was sent occurs once among the documents, and no typed character is lost.** -/
structure Delivered (s : State) : Prop where
  once : ∀ d ∈ s.docs, (s.docs.countP fun e => e.version = d.version) = 1
  kept : ∀ k ∈ s.kept, Holds s.field k ∨ Sent s k

/-- The button is tapped when the field has changed since what it holds was sent, if it was, and an
addition is done when every character in the field has been sent. -/
def Careful (s : State) : Action → Prop
  | .tapSend => ∀ d ∈ s.docs, d.version ≠ s.version
  | .added => ∀ t ∈ s.field, Sent s t.serial
  | _ => True

variable {sender : Option Sender}

/-- The characters in the field are kept ones, each with its own serial. -/
structure Inv (s : State) : Prop where
  kept : ∀ t ∈ s.field, t.serial ∈ s.kept
  typed : ∀ k ∈ s.kept, k < s.typed
  nodup : (s.field.map Typed.serial).Nodup

theorem inv_opened : Inv opened :=
  ⟨fun _ h => absurd h List.not_mem_nil, fun _ h => absurd h List.not_mem_nil, List.nodup_nil⟩

theorem Holds.of_perm {ts us : List Typed} (h : ts.Perm us) {k : ℕ} : Holds ts k ↔ Holds us k :=
  exists_congr fun _ => and_congr_left fun _ => h.mem_iff

theorem holds_cons {t : Typed} {ts : List Typed} {k : ℕ} :
    Holds (t :: ts) k ↔ t.serial = k ∨ Holds ts k := by
  simp [Holds]

theorem not_holds_nil (k : ℕ) : ¬ Holds [] k := by
  rintro ⟨t, ht, -⟩
  exact absurd ht List.not_mem_nil

/-- What `sendMessage` does when it does not return at once. -/
theorem sendMessage_eq {s s' : State} (h : sendMessage sender s = some s') :
    ∃ d : Doc, d.draft = s.field ∧ d.version = s.version ∧
      s' = { s with docs := s.docs ++ [d], adding := s.adding + 1 } := by
  unfold sendMessage at h
  simp only at h
  split_ifs at h
  obtain ⟨sd, -, rfl⟩ := Option.map_eq_some_iff.mp h
  exact ⟨_, rfl, rfl, rfl⟩

theorem inv_step {s s' : State} {a : Action} (hI : Inv s) (h : step sender s a = some s') : Inv s' := by
  cases a with
  | type position char =>
    simp only [step, Option.ite_none_right_eq_some, Option.some.injEq] at h
    obtain ⟨hpos, rfl⟩ := h
    have hperm := List.perm_insertIdx (Typed.mk char s.typed) s.field hpos
    refine ⟨fun t ht => ?_, fun k hk => ?_, ?_⟩
    · rcases List.mem_cons.mp (hperm.mem_iff.mp ht) with rfl | ht
      · exact List.mem_cons_self ..
      · exact List.mem_cons_of_mem _ (hI.kept t ht)
    · rcases List.mem_cons.mp hk with rfl | hk
      · exact Nat.lt_succ_self _
      · exact (hI.typed k hk).trans (Nat.lt_succ_self _)
    · rw [(hperm.map Typed.serial).nodup_iff, List.map_cons, List.nodup_cons]
      refine ⟨fun hmem => ?_, hI.nodup⟩
      obtain ⟨t, ht, hserial⟩ := List.mem_map.mp hmem
      exact absurd (hI.typed _ (hI.kept t ht)) (by rw [hserial]; exact lt_irrefl _)
  | erase position =>
    obtain ⟨t, ht, rfl⟩ := Option.map_eq_some_iff.mp h
    have hperm := Calls.perm_cons_eraseIdx ht
    have hnodup := ((hperm.map Typed.serial).nodup_iff.mp hI.nodup)
    rw [List.map_cons, List.nodup_cons] at hnodup
    refine ⟨fun u hu => ?_, fun k hk => hI.typed k (List.mem_of_mem_filter hk), hnodup.2⟩
    have hne : u.serial ≠ t.serial := fun e =>
      hnodup.1 (List.mem_map.mpr ⟨u, hu, e⟩)
    simpa [hne] using hI.kept u (List.mem_of_mem_eraseIdx hu)
  | tapSend =>
    simp only [step] at h
    obtain ⟨d, -, -, rfl⟩ := sendMessage_eq h
    exact ⟨hI.kept, hI.typed, hI.nodup⟩
  | added =>
    simp only [step, Option.ite_none_right_eq_some, Option.some.injEq] at h
    obtain ⟨-, rfl⟩ := h
    exact ⟨fun _ ht => absurd ht List.not_mem_nil, hI.typed, List.nodup_nil⟩

theorem Sent.mono {s : State} {d : Doc} {k : ℕ} (h : Sent s k) (adding : ℕ) :
    Sent { s with docs := s.docs ++ [d], adding := adding } k :=
  let ⟨e, he, hk⟩ := h
  ⟨e, List.mem_append_left _ he, hk⟩

/-- A document added with the version of no other. -/
theorem once_append_iff {docs : List Doc} {d : Doc}
    (h : ∀ e ∈ docs, (docs.countP fun e' => e'.version = e.version) = 1) :
    (∀ e ∈ docs ++ [d], ((docs ++ [d]).countP fun e' => e'.version = e.version) = 1) ↔
      ∀ e ∈ docs, e.version ≠ d.version := by
  have hcount : ∀ v, ((docs ++ [d]).countP fun e' => e'.version = v) =
      (docs.countP fun e' => e'.version = v) + if d.version = v then 1 else 0 := by
    intro v
    simp [List.countP_append, List.countP_cons]
  constructor
  · intro hall e he hv
    have h1 := h e he
    have h2 := hall e (List.mem_append_left _ he)
    rw [hcount, h1, if_pos hv.symm] at h2
    omega
  · intro hne e he
    rw [hcount]
    rcases List.mem_append.mp he with he | he
    · rw [h e he, if_neg (hne e he).symm]
    · obtain rfl := List.mem_singleton.mp he
      rw [if_pos rfl, List.countP_eq_zero.mpr (fun e' he' => by simpa using hne e' he')]

/-- **A step keeps the messages delivered exactly if it is careful.** -/
theorem delivered_step {s s' : State} {a : Action} (hI : Inv s) (hD : Delivered s)
    (h : step sender s a = some s') : Delivered s' ↔ Careful s a := by
  cases a with
  | type position char =>
    simp only [step, Option.ite_none_right_eq_some, Option.some.injEq] at h
    obtain ⟨hpos, rfl⟩ := h
    have hperm := List.perm_insertIdx (Typed.mk char s.typed) s.field hpos
    refine ⟨fun _ => trivial, fun _ => ⟨hD.once, fun k hk => ?_⟩⟩
    rw [Holds.of_perm hperm, holds_cons]
    rcases List.mem_cons.mp hk with rfl | hk
    · exact Or.inl (Or.inl rfl)
    · exact (hD.kept k hk).imp_left Or.inr
  | erase position =>
    obtain ⟨t, ht, rfl⟩ := Option.map_eq_some_iff.mp h
    refine ⟨fun _ => trivial, fun _ => ⟨hD.once, fun k hk => ?_⟩⟩
    obtain ⟨hk, hne⟩ := List.mem_filter.mp hk
    refine (hD.kept k hk).imp_left fun hh => ?_
    rw [Holds.of_perm (Calls.perm_cons_eraseIdx ht), holds_cons] at hh
    exact hh.resolve_left fun e => by simp [e] at hne
  | tapSend =>
    simp only [step] at h
    obtain ⟨d, -, hversion, rfl⟩ := sendMessage_eq h
    have hkept : ∀ k ∈ s.kept, Holds s.field k ∨
        Sent { s with docs := s.docs ++ [d], adding := s.adding + 1 } k :=
      fun k hk => (hD.kept k hk).imp_right fun hs => hs.mono _
    constructor
    · intro hD' e he
      rw [← hversion]
      exact (once_append_iff hD.once).mp hD'.once e he
    · intro hc
      refine ⟨(once_append_iff hD.once).mpr fun e he => ?_, hkept⟩
      rw [hversion]
      exact hc e he
  | added =>
    simp only [step, Option.ite_none_right_eq_some, Option.some.injEq] at h
    obtain ⟨-, rfl⟩ := h
    constructor
    · intro hD' t ht
      exact (hD'.kept _ (hI.kept t ht)).resolve_left (not_holds_nil _)
    · intro hc
      refine ⟨hD.once, fun k hk => Or.inr ?_⟩
      rcases hD.kept k hk with ⟨t, ht, rfl⟩ | hs
      · exact hc t ht
      · exact hs

/-- **Every message is sent once and nothing typed is lost, in every state of a run, exactly if the
button is tapped on a changed field only, and an addition is done only when all the field holds has
been sent.** -/
theorem delivered_iff (as : List Action) :
    Always (step sender) Delivered opened as ↔ Along (step sender) Careful opened as :=
  always_iff_along (fun _ _ _ hI _ h _ => inv_step hI h) (fun _ _ _ hI hD h => delivered_step hI hD h)
    inv_opened ⟨fun _ h => absurd h List.not_mem_nil, fun _ h => absurd h List.not_mem_nil⟩

/-- **Two taps send a message twice.** -/
theorem two_taps_send_twice :
    ¬ Always (step (messageToAdminPage (some "ayse"))) Delivered opened
      [.type 0 'S', .tapSend, .tapSend] := by
  intro h
  have honce : Always (step (messageToAdminPage (some "ayse"))) (fun s => ∀ d ∈ s.docs,
      (s.docs.countP fun e => e.version = d.version) = 1) opened
      [.type 0 'S', .tapSend, .tapSend] := always_mono (fun _ hD => hD.once) h
  exact absurd honce (by decide)

end KamuSinavi.Chat
