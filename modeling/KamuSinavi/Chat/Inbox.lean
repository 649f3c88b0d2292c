import KamuSinavi.Chat.Send
import KamuSinavi.Lib.Calls

/-! # The admin's inbox

`buildMessagesScreen` lists the documents of `messages` and `buildUsersList` opens a chat
(`pages/adminDashboard.dart`); the messages themselves are in a subcollection of each document, which
exists whether the document does or not. A user adds messages and deletes own ones
(`pages/messageToAdminPage.dart`). To open a chat the admin's app reads its last message and, if there
is one, sets the document.

`Listed` says that the inbox lists the chats that hold a message and those the admin has opened after
they held one, and `listed_iff` for which runs it does. `userIdOf_iff` is about what the inbox makes of
the id of a chat. -/

namespace KamuSinavi.Chat.Inbox

open KamuSinavi.Lib KamuSinavi.Lib.Runs KamuSinavi.Lib.Dart

structure Message where
  sender : Sender
  text : String
  deriving DecidableEq

/-- Where the opening of a chat is suspended: reading the last message, and setting the document. -/
inductive Opening where
  | get (chatId : String)
  | set (chatId : String)
  deriving DecidableEq

/-- The collection `messages` with all its chats. `existed` holds the chats that have held a message,
and `opened` those the admin has opened since. -/
structure State where
  documents : List String
  messages : List Message
  openings : List Opening
  existed : List String
  opened : List String
  deriving DecidableEq

inductive Action where
  | sendMessage (uid text : String)
  | deleteMessage (uid : String) (index : ℕ)
  | tapMessages (userId : String)
  | resume (k : ℕ)
  | fails (k : ℕ)

/-- There is a message in the chat. -/
def Holds (s : State) (chatId : String) : Prop := ∃ m ∈ s.messages, m.sender.chatId = chatId

instance (s : State) (chatId : String) : Decidable (Holds s chatId) :=
  inferInstanceAs (Decidable (∃ m ∈ s.messages, _))

/-- The opening `k` goes on. -/
def resume (s : State) (k : ℕ) : Opening → State
  | .get chatId =>
    if Holds s chatId then { s with openings := s.openings.set k (.set chatId) }
    else { s with
      openings := s.openings.eraseIdx k
      opened := if chatId ∈ s.existed then chatId :: s.opened else s.opened }
  | .set chatId =>
    { s with
      documents := if chatId ∈ s.documents then s.documents else s.documents ++ [chatId]
      openings := s.openings.eraseIdx k
      opened := chatId :: s.opened }

/-- The dashboard is that of the admin `adminId`. -/
def step (adminId : String) (s : State) : Action → Option State
  | .sendMessage uid text =>
    if (trim text).isEmpty then none
    else (messageToAdminPage (some uid)).map fun sender =>
      { s with
        messages := s.messages ++ [{ sender := sender, text := trim text }]
        existed := sender.chatId :: s.existed }
  -- the page lets a user delete own messages
  | .deleteMessage uid index => s.messages[index]?.bind fun m =>
    if m.sender.senderId = uid then some { s with messages := s.messages.eraseIdx index } else none
  | .tapMessages userId =>
    some { s with openings := s.openings ++ [.get (getChatId userId adminId)] }
  | .resume k => s.openings[k]?.map (resume s k)
  | .fails k => s.openings[k]?.map fun _ => { s with openings := s.openings.eraseIdx k }

/-- The ids of the documents the screen lists. -/
def buildMessagesScreen (s : State) : List String := s.documents

/-- Nothing has been sent. -/
def installed : State :=
  { documents := [], messages := [], openings := [], existed := [], opened := [] }

/-- **The inbox lists the chats that hold a message, and those opened after they held one.** -/
def Listed (s : State) : Prop :=
  ∀ chatId, chatId ∈ buildMessagesScreen s ↔ Holds s chatId ∨ chatId ∈ s.opened

/-- A message is sent to a chat whose document exists. -/
def Documented (s : State) : Action → Prop
  | .sendMessage uid _ => ∀ sender ∈ messageToAdminPage (some uid), sender.chatId ∈ s.documents
  | _ => True

/-- A chat that has held a message has a document, and a document is one the admin has opened. -/
structure Inv (s : State) : Prop where
  existed : ∀ chatId ∈ s.existed, chatId ∈ s.documents
  opened : ∀ chatId ∈ s.documents, chatId ∈ s.opened

theorem inv_installed : Inv installed :=
  ⟨fun _ h => absurd h List.not_mem_nil, fun _ h => absurd h List.not_mem_nil⟩

/-- When every document has been opened, the inbox lists what it should exactly if the chats that hold
a message and the opened ones have documents. -/
theorem listed_iff_of_opened {s : State} (h : ∀ chatId ∈ s.documents, chatId ∈ s.opened) :
    Listed s ↔ (∀ m ∈ s.messages, m.sender.chatId ∈ s.documents) ∧
      ∀ chatId ∈ s.opened, chatId ∈ s.documents := by
  constructor
  · exact fun hL => ⟨fun m hm => (hL _).mpr (Or.inl ⟨m, hm, rfl⟩), fun _ hc => (hL _).mpr (Or.inr hc)⟩
  · rintro ⟨hmessages, hopened⟩ chatId
    refine ⟨fun hd => Or.inr (h chatId hd), ?_⟩
    rintro (⟨m, hm, rfl⟩ | hc)
    · exact hmessages m hm
    · exact hopened chatId hc

variable {adminId : String}

/-- What a step that is not a sending leaves of the state. -/
structure Keeps (s t : State) : Prop where
  messages : ∀ m ∈ t.messages, m ∈ s.messages
  documents : ∀ chatId ∈ s.documents, chatId ∈ t.documents
  opened : ∀ chatId ∈ s.opened, chatId ∈ t.opened
  existed : t.existed = s.existed
  new : ∀ chatId, chatId ∈ t.opened → chatId ∉ s.opened →
    chatId ∈ s.existed ∨ chatId ∈ t.documents
  added : ∀ chatId, chatId ∈ t.documents → chatId ∉ s.documents → chatId ∈ t.opened

theorem keeps_of_same {s t : State} (hm : ∀ m ∈ t.messages, m ∈ s.messages)
    (hd : t.documents = s.documents) (ho : t.opened = s.opened) (he : t.existed = s.existed) :
    Keeps s t :=
  ⟨hm, fun _ h => hd ▸ h, fun _ h => ho ▸ h, he, fun _ h hn => absurd (ho ▸ h) hn,
    fun _ h hn => absurd (hd ▸ h) hn⟩

/-- **A step sends a message, or keeps what there is.** -/
theorem step_cases {s t : State} {a : Action} (h : step adminId s a = some t) :
    (∃ uid text sender, a = .sendMessage uid text ∧ messageToAdminPage (some uid) = some sender ∧
      t = { s with
        messages := s.messages ++ [{ sender := sender, text := trim text }]
        existed := sender.chatId :: s.existed }) ∨
    (Documented s a ∧ Keeps s t) := by
  cases a with
  | sendMessage uid text =>
    simp only [step] at h
    split_ifs at h
    obtain ⟨sender, hs, rfl⟩ := Option.map_eq_some_iff.mp h
    exact Or.inl ⟨uid, text, sender, rfl, hs, rfl⟩
  | deleteMessage uid index =>
    obtain ⟨m, -, h⟩ := Option.bind_eq_some_iff.mp h
    split_ifs at h
    obtain rfl := Option.some.inj h
    exact Or.inr ⟨trivial, keeps_of_same (fun _ => List.mem_of_mem_eraseIdx) rfl rfl rfl⟩
  | tapMessages userId =>
    obtain rfl := Option.some.inj h
    exact Or.inr ⟨trivial, keeps_of_same (fun _ => id) rfl rfl rfl⟩
  | fails k =>
    obtain ⟨o, -, rfl⟩ := Option.map_eq_some_iff.mp h
    exact Or.inr ⟨trivial, keeps_of_same (fun _ => id) rfl rfl rfl⟩
  | resume k =>
    obtain ⟨o, -, rfl⟩ := Option.map_eq_some_iff.mp h
    refine Or.inr ⟨trivial, ?_⟩
    cases o with
    | get chatId =>
      simp only [resume]
      split_ifs with hholds hexisted
      · exact keeps_of_same (fun _ => id) rfl rfl rfl
      · refine ⟨fun _ => id, fun _ => id, fun _ => List.mem_cons_of_mem _, rfl, fun c hc hn => ?_,
          fun _ hc hn => absurd hc hn⟩
        rcases List.mem_cons.mp hc with rfl | hc
        · exact Or.inl hexisted
        · exact absurd hc hn
      · exact keeps_of_same (fun _ => id) rfl rfl rfl
    | set chatId =>
      have hdoc : ∀ c, c ∈ (resume s k (.set chatId)).documents ↔ c ∈ s.documents ∨ c = chatId := by
        intro c
        simp only [resume]
        split_ifs with hmem
        · exact ⟨Or.inl, fun h => h.elim id fun e => e ▸ hmem⟩
        · rw [List.mem_append, List.mem_singleton]
      refine ⟨fun _ => id, fun c hc => (hdoc c).mpr (Or.inl hc), fun _ => List.mem_cons_of_mem _, rfl,
        fun c hc hn => ?_, fun c hc hn => ?_⟩
      · rcases List.mem_cons.mp hc with rfl | hc
        · exact Or.inr ((hdoc c).mpr (Or.inr rfl))
        · exact absurd hc hn
      · obtain rfl := ((hdoc c).mp hc).resolve_left hn
        exact List.mem_cons_self ..

/-- **A step keeps the inbox right exactly if it is documented.** -/
theorem listed_step {s t : State} {a : Action} (hI : Inv s) (hL : Listed s)
    (h : step adminId s a = some t) : Listed t ↔ Documented s a := by
  obtain ⟨hmessages, hopened⟩ := (listed_iff_of_opened hI.opened).mp hL
  rcases step_cases h with ⟨uid, text, sender, rfl, hs, rfl⟩ | ⟨hD, hk⟩
  · have hsent : Documented s (.sendMessage uid text) ↔ sender.chatId ∈ s.documents := by
      simp only [Documented, hs, Option.mem_def, Option.some.injEq, forall_eq']
    rw [hsent]
    let t : State := { s with
      messages := s.messages ++ [{ sender := sender, text := trim text }]
      existed := sender.chatId :: s.existed }
    have ht : Listed t ↔ _ := listed_iff_of_opened hI.opened
    refine ht.trans ⟨fun hall => ?_, fun hd => ⟨fun m hm => ?_, hopened⟩⟩
    · exact hall.1 { sender := sender, text := trim text }
        (List.mem_append_right _ (List.mem_singleton_self _))
    · rcases List.mem_append.mp hm with hm | hm
      · exact hmessages m hm
      · rw [List.mem_singleton.mp hm]; exact hd
  · refine iff_of_true ((listed_iff_of_opened fun c hc => ?_).mpr ⟨fun m hm => ?_, fun c hc => ?_⟩) hD
    · by_cases hs : c ∈ s.documents
      · exact hk.opened c (hI.opened c hs)
      · exact hk.added c hc hs
    · exact hk.documents _ (hmessages m (hk.messages m hm))
    · by_cases hs : c ∈ s.opened
      · exact hk.documents c (hopened c hs)
      · exact (hk.new c hc hs).elim (fun he => hk.documents c (hI.existed c he)) id

/-- A step that leaves the inbox right keeps the invariant. -/
theorem inv_step {s t : State} {a : Action} (hI : Inv s) (h : step adminId s a = some t)
    (hLt : Listed t) : Inv t := by
  rcases step_cases h with ⟨uid, text, sender, rfl, hs, rfl⟩ | ⟨-, hk⟩
  · refine ⟨fun c hc => ?_, hI.opened⟩
    rcases List.mem_cons.mp hc with rfl | hc
    · exact (hLt _).mpr (Or.inl ⟨_, List.mem_append_right _ (List.mem_singleton_self _), rfl⟩)
    · exact hI.existed c hc
  · refine ⟨fun c hc => hk.documents c (hI.existed c (hk.existed ▸ hc)), fun c hc => ?_⟩
    by_cases hs : c ∈ s.documents
    · exact hk.opened c (hI.opened c hs)
    · exact hk.added c hc hs

/-- **The inbox lists what it should in every state of a run exactly if every message of the run is
sent to a chat whose document exists.** -/
theorem listed_iff {s : State} (hI : Inv s) (hL : Listed s) (as : List Action) :
    Always (step adminId) Listed s as ↔ Along (step adminId) Documented s as :=
  always_iff_along (fun _ _ _ hI _ h hLt => inv_step hI h hLt)
    (fun _ _ _ hI hL h => listed_step hI hL h) hI hL

theorem listed_iff_installed :
    Always (step adminUid) Listed installed [.sendMessage "ayse" "Merhaba", .tapMessages "ayse"] ↔
      Along (step adminUid) Documented installed
        [.sendMessage "ayse" "Merhaba", .tapMessages "ayse"] :=
  listed_iff inv_installed (fun _ => by simp [buildMessagesScreen, installed, Holds]) _

/-- **The first message of a user is not in the inbox.** -/
theorem firstMessage_not_listed :
    ¬ Always (step adminUid) Listed installed [.sendMessage "ayse" "Merhaba"] := by
  rintro ⟨-, hL, -⟩
  exact absurd ((hL (getChatId "ayse" adminUid)).mpr (Or.inl ⟨_, List.mem_singleton_self _, rfl⟩))
    List.not_mem_nil

/-! ### The user of a chat -/

/-- The user the screen takes a chat to be with; `adminUid` is the uid of the current user. -/
def userIdOf (adminUid : Option String) (chatId : String) : String :=
  replaceAll chatId ("_" ++ adminUid.getD "null") ""

/-- **The inbox finds the user of a chat**, and so opens the chat the user's page has. -/
def Recovers (u a : String) : Prop :=
  userIdOf (some a) (getChatId u a) = u ∧
    (adminChatScreen a (userIdOf (some a) (getChatId u a))).map Sender.chatId = some (getChatId u a)

/-- What is left of `a_u` when `_a` is removed. -/
theorem replaceChars_swapped {u a : List Char} (hu : '_' ∉ u) (ha : '_' ∉ a) :
    replaceChars ('_' :: a) [] 0 (a ++ '_' :: u) = if a <+: u then u else a ++ '_' :: u := by
  rw [replaceChars_append ha]
  split_ifs with hpre
  · obtain ⟨r, rfl⟩ := hpre
    rw [← List.cons_append, replaceChars_pattern, List.nil_append]
    rw [List.mem_append, not_or] at hu
    rw [replaceChars_eq_self hu.2]
  · have hno : ¬ ('_' :: a).isPrefixOf ('_' :: u) = true := by
      rw [List.isPrefixOf_iff_prefix, List.cons_prefix_cons]
      exact fun h => hpre h.2
    rw [replaceChars, if_neg (List.cons_ne_nil _ _), if_neg hno, replaceChars_eq_self hu]

/-- What is left of `u_a` when `_a` is removed. -/
theorem replaceChars_ordered {u : List Char} (hu : '_' ∉ u) (a : List Char) :
    replaceChars ('_' :: a) [] 0 (u ++ '_' :: a) = u := by
  have h := replaceChars_pattern '_' a [] []
  rw [List.append_nil] at h
  rw [replaceChars_append hu, h, replaceChars, if_neg (List.cons_ne_nil _ _), List.append_nil,
    List.append_nil]

/-- **The inbox finds the user of a chat exactly if the user's uid comes before the admin's, or starts
with it.** -/
theorem recovers_iff {u a : String} (hu : '_' ∉ u.toList) (ha : '_' ∉ a.toList) :
    Recovers u a ↔ compareTo u a = .lt ∨ a.toList <+: u.toList := by
  have huser : userIdOf (some a) (getChatId u a) = u ↔
      compareTo u a = .lt ∨ a.toList <+: u.toList := by
    have hpat : ("_" ++ a).toList = '_' :: a.toList := by simp
    unfold userIdOf getChatId replaceAll
    rw [Option.getD_some, hpat]
    split_ifs with hlt
    · have htext : (u ++ "_" ++ a).toList = u.toList ++ '_' :: a.toList := by simp
      rw [htext]
      exact iff_of_true (by rw [String.toList_empty, replaceChars_ordered hu, String.ofList_toList])
        (Or.inl hlt)
    · have htext : (a ++ "_" ++ u).toList = a.toList ++ '_' :: u.toList := by simp
      rw [htext, String.toList_empty, replaceChars_swapped hu ha]
      rw [or_iff_right hlt]
      split_ifs with hpre
      · exact iff_of_true String.ofList_toList hpre
      · refine iff_of_false (fun he => ?_) hpre
        have hlen := congrArg (fun s : String => s.toList.length) he
        simp at hlen
        omega
  rw [← huser, Recovers]
  exact ⟨And.left, fun h => ⟨h, by rw [h]; rfl⟩⟩

theorem recovers_iff_ahmet :
    Recovers "Ahmet" adminUid ↔
      compareTo "Ahmet" adminUid = .lt ∨ adminUid.toList <+: "Ahmet".toList :=
  recovers_iff (by decide) (by decide)

/-- **A uid that comes after the admin's** is taken for the whole id of the chat. -/
theorem laterUid_not_recovered : ¬ Recovers "ayse" adminUid := by
  rintro ⟨h, -⟩
  exact absurd h (by decide)

end KamuSinavi.Chat.Inbox
