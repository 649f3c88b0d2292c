import KamuSinavi.Chat.Inbox
import Mathlib.Data.Set.Insert

/-! # The id of a chat

`getChatId` (`pages/chat_utils.dart`) puts the uid that comes first in front, so both screens of a chat
find the same id (`getChatId_comm`). The text before and after the `'_'` of an id are the two uids, so
the id gives the pair, if the uids themselves have no `'_'` (`pair_of_getChatId`).

`getChatId_names` says both, and `unmixed` that in no run a chat has messages of two pairs of users. -/

namespace KamuSinavi.Chat

open KamuSinavi.Lib KamuSinavi.Lib.Runs KamuSinavi.Lib.Dart

/-! ### The pair of an id -/

/-- **The id does not depend on the order of the users.** -/
theorem getChatId_comm (uid1 uid2 : String) : getChatId uid1 uid2 = getChatId uid2 uid1 := by
  by_cases hne : uid1 = uid2
  · rw [hne]
  · have hiff := compareTo_eq_lt_iff hne
    unfold getChatId
    split_ifs with h12 h21 h21
    · exact absurd h21 (hiff.mp h12)
    · rfl
    · rfl
    · exact absurd (hiff.mpr h21) h12

/-- One of the uids is in front of the other. -/
theorem toList_getChatId (uid1 uid2 : String) :
    (getChatId uid1 uid2).toList = uid1.toList ++ '_' :: uid2.toList ∨
      (getChatId uid1 uid2).toList = uid2.toList ++ '_' :: uid1.toList := by
  unfold getChatId
  split_ifs
  · exact Or.inl (by simp)
  · exact Or.inr (by simp)

/-- The parts of a text around its only `'_'`. -/
theorem parts_of_text {a b c d : String} (ha : '_' ∉ a.toList) (hb : '_' ∉ b.toList)
    (h : a.toList ++ '_' :: b.toList = c.toList ++ '_' :: d.toList) : a = c ∧ b = d := by
  obtain ⟨hac, -, hbd⟩ := (List.append_cons_inj_of_notMem ha hb).mp h
  exact ⟨String.toList_inj.mp hac, String.toList_inj.mp hbd⟩

/-- **An id gives its pair of users.** -/
theorem pair_of_getChatId {a b c d : String} (ha : '_' ∉ a.toList) (hb : '_' ∉ b.toList)
    (h : getChatId a b = getChatId c d) : ({a, b} : Set String) = {c, d} := by
  rw [Set.pair_eq_pair_iff]
  rcases toList_getChatId a b with hab | hab <;> rcases toList_getChatId c d with hcd | hcd <;>
    rw [← h, hab] at hcd
  · exact Or.inl (parts_of_text ha hb hcd)
  · exact Or.inr (parts_of_text ha hb hcd)
  · exact Or.inr (parts_of_text hb ha hcd).symm
  · exact Or.inl (parts_of_text hb ha hcd).symm

/-- **A chat id names exactly one pair of users**: the order of the two does not matter, and two pairs
without a `'_'` have one id only if they are the same. -/
theorem getChatId_names :
    (∀ a b : String, getChatId a b = getChatId b a) ∧
      ∀ a b c d : String, '_' ∉ a.toList → '_' ∉ b.toList → '_' ∉ c.toList → '_' ∉ d.toList →
        getChatId a b = getChatId c d → ({a, b} : Set String) = {c, d} :=
  ⟨getChatId_comm, fun _ _ _ _ ha hb _ _ h => pair_of_getChatId ha hb h⟩

theorem getChatId_names_ayse :
    getChatId "ayse" adminUid = getChatId adminUid "ayse" ∧
      ({"ayse", adminUid} : Set String) = {adminUid, "ayse"} :=
  ⟨getChatId_names.1 "ayse" adminUid,
    getChatId_names.2 "ayse" adminUid adminUid "ayse" (by decide) (by decide) (by decide) (by decide)
      (by decide)⟩

/-- Uids with a `'_'` can share an id. -/
example : getChatId "a" "b_c" = getChatId "a_b" "c" ∧ "a" ≠ "a_b" ∧ "a" ≠ "c" := by decide

/-! ### The messages of a chat -/

/-- What one of the screens writes. -/
inductive OfScreen : Sender → Prop
  | user {user : Option String} {s : Sender} (h : messageToAdminPage user = some s) : OfScreen s
  | admin {adminId userId : String} {s : Sender} (h : adminChatScreen adminId userId = some s) : OfScreen s

/-- The chat is that of the sender and the receiver. -/
theorem OfScreen.chatId_eq {s : Sender} (h : OfScreen s) :
    s.chatId = getChatId s.senderId s.receiverId := by
  cases h with
  | user h =>
    obtain ⟨uid, -, rfl⟩ := Option.map_eq_some_iff.mp h
    rfl
  | @admin adminId userId _ h =>
    obtain rfl := Option.some.inj h
    exact getChatId_comm userId adminId

/-- **Messages in one chat are between the same two users**, whichever screens sent them. -/
theorem OfScreen.same_users {s s' : Sender} (h : OfScreen s) (h' : OfScreen s')
    (hsender : '_' ∉ s.senderId.toList) (hreceiver : '_' ∉ s.receiverId.toList)
    (hchat : s.chatId = s'.chatId) :
    ({s.senderId, s.receiverId} : Set String) = {s'.senderId, s'.receiverId} := by
  rw [h.chatId_eq, h'.chatId_eq] at hchat
  exact pair_of_getChatId hsender hreceiver hchat

/-- No chat has messages of two pairs of users. -/
def Unmixed (s : Inbox.State) : Prop :=
  ∀ m ∈ s.messages, ∀ m' ∈ s.messages, '_' ∉ m.sender.senderId.toList →
    '_' ∉ m.sender.receiverId.toList → m.sender.chatId = m'.sender.chatId →
      ({m.sender.senderId, m.sender.receiverId} : Set String) =
        {m'.sender.senderId, m'.sender.receiverId}

theorem ofScreen_step {adminId : String} {s t : Inbox.State} {a : Inbox.Action}
    (hI : ∀ m ∈ s.messages, OfScreen m.sender) (h : Inbox.step adminId s a = some t) :
    ∀ m ∈ t.messages, OfScreen m.sender := by
  rcases Inbox.step_cases h with ⟨uid, text, sender, rfl, hs, rfl⟩ | ⟨-, hk⟩
  · intro m hm
    rcases List.mem_append.mp hm with hm | hm
    · exact hI m hm
    · rw [List.mem_singleton.mp hm]
      exact .user hs
  · exact fun m hm => hI m (hk.messages m hm)

/-- **In every run no chat is mixed.** -/
theorem unmixed (adminId : String) (as : List Inbox.Action) :
    Always (Inbox.step adminId) Unmixed Inbox.installed as :=
  always_of_keeps (J := fun s => ∀ m ∈ s.messages, OfScreen m.sender)
    (fun _ _ _ hI h => ofScreen_step hI h)
    (fun _ hI m hm m' hm' hs hr hchat => (hI m hm).same_users (hI m' hm') hs hr hchat) as
    fun _ h => absurd h List.not_mem_nil

end KamuSinavi.Chat
