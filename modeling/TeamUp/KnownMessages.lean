import TeamUp.FetchChats
import TeamUp.ReadMarks

/-!
# The messages there are

A message keeps its id and everything else but its flag.  If the conversations of a user hold
known messages under their ids, they still do after every write to them, and what is decoded
from them is known.

A record may bear another name than the one it is found under.  A name therefore stands for a
person, and an id for one message of a person: the person may be the name itself, if records
bear the names they are found under, or the same one for all names, if no id is used twice.
-/

namespace TeamUp

/-- The message is one of those there are in the run, up to its flag.  The messages are listed
    as they are when they are read, with the person whose conversation they belong to. -/
def Known (person : String → String) (messages : List (String × Message)) (chatPartner : String)
    (m : Message) : Prop :=
  (person chatPartner, m.markAsRead) ∈ messages

/-- An id names one message of a person. -/
def OneMessage (messages : List (String × Message)) : Prop :=
  ∀ x ∈ messages, ∀ y ∈ messages, x.1 = y.1 → x.2.id = y.2.id → x = y

variable {currentUser chatPartner : String} {t : Tree} {m m' : Message} {unread : List Message}
variable {person : String → String} {messages : List (String × Message)}

theorem Known.eq (hone : OneMessage messages) (h : Known person messages chatPartner m)
    (h' : Known person messages chatPartner m') (hid : m.id = m'.id) :
    m.markAsRead = m'.markAsRead :=
  congrArg Prod.snd (hone _ h _ h' rfl hid)

theorem has_asDictionary_nil (m : Message) : (Tree.ofDictionary m.asDictionary).has [] = true := by
  have hid : (Tree.ofDictionary m.asDictionary).leafAt ([] ++ ["id"]) = some (.str m.id) :=
    m.leafAt_asDictionary "id"
  exact PathTree.has_of_leafAt hid

/-- What is marked is stored as read. -/
theorem encoded_storeRead (hone : OneMessage messages)
    (hknown : ∀ m ∈ unread, Known person messages chatPartner m) (hm : m ∈ unread) :
    Encoded ((storeRead currentUser chatPartner unread).apply t) currentUser chatPartner
      m.markAsRead := by
  refine encoded_storeRead_of_same hm fun m' hm' hid => ?_
  exact (hknown m' hm').eq hone (hknown m hm) hid

/-! ### What is stored -/

/-- Every child of a conversation is the record of a known message, under its id. -/
def StoredById (person : String → String) (messages : List (String × Message)) (chats : Tree) :
    Prop :=
  ∀ chatPartner key, chats.has [chatPartner, key] = true → ∃ m : Message, m.id = key ∧
    Known person messages chatPartner m ∧
    PathTree.Same (chats.sub [chatPartner, key]) (Tree.ofDictionary m.asDictionary)

/-- The conversations of the user hold known messages, under their ids. -/
def ChatsById (currentUser : String) (person : String → String)
    (messages : List (String × Message)) (t : Tree) : Prop :=
  StoredById person messages (t.sub (directChatsRef currentUser))

theorem chatsById_iff : ChatsById currentUser person messages t ↔
    ∀ chatPartner key, t.has (directChatRef currentUser chatPartner ++ [key]) = true →
      ∃ m : Message, m.id = key ∧ Known person messages chatPartner m ∧
        Encoded t currentUser chatPartner m := by
  have hsub : ∀ chatPartner key, (t.sub (directChatsRef currentUser)).sub [chatPartner, key] =
      t.sub (directChatRef currentUser chatPartner ++ [key]) := fun _ _ => PathTree.sub_sub ..
  have hhas : ∀ chatPartner key, (t.sub (directChatsRef currentUser)).has [chatPartner, key] =
      t.has (directChatRef currentUser chatPartner ++ [key]) := fun _ _ => PathTree.has_sub ..
  simp only [ChatsById, StoredById, hsub, hhas]
  refine forall₂_congr fun chatPartner key => imp_congr_right fun _ => exists_congr fun m => ?_
  refine and_congr_right fun hid => ?_
  rw [Encoded, hid]

/-- A write that leaves a child alone or stores a known message there keeps the messages. -/
theorem ChatsById.of_cases {t' : Tree} (h : ChatsById currentUser person messages t)
    (hcases : ∀ chatPartner key,
      (∀ q, t'.leafAt (directChatRef currentUser chatPartner ++ key :: q) =
        t.leafAt (directChatRef currentUser chatPartner ++ key :: q)) ∨
      t'.has (directChatRef currentUser chatPartner ++ [key]) = false ∨
      ∃ m : Message, m.id = key ∧ Known person messages chatPartner m ∧
        Encoded t' currentUser chatPartner m) : ChatsById currentUser person messages t' := by
  rw [chatsById_iff] at h ⊢
  intro chatPartner key hhas
  rcases hcases chatPartner key with hsame | hnone | hstored
  · have hbefore : t.has (directChatRef currentUser chatPartner ++ [key]) = true := by
      rw [PathTree.has_iff_leafAt] at hhas ⊢
      obtain ⟨q, hq⟩ := hhas
      rw [List.append_assoc, List.singleton_append, hsame] at hq
      exact ⟨q, by rwa [List.append_assoc, List.singleton_append]⟩
    obtain ⟨m, rfl, hknown, hencoded⟩ := h chatPartner key hbefore
    exact ⟨m, rfl, hknown, hencoded.congr hsame⟩
  · rw [hnone] at hhas
    cases hhas
  · exact hstored

/-- What is written to the conversations of the user. -/
inductive ChatWrite (currentUser : String) (person : String → String)
    (messages : List (String × Message)) : Write → Prop
  | read {chatPartner : String} {unread : List Message}
      (h : ∀ m ∈ unread, Known person messages chatPartner m) :
      ChatWrite currentUser person messages (storeRead currentUser chatPartner unread)
  | message {chatPartner : String} {m : Message} (h : Known person messages chatPartner m) :
      ChatWrite currentUser person messages (storeMessage currentUser chatPartner m)
  | deleted (chatPartner : String) :
      ChatWrite currentUser person messages (dropChat currentUser chatPartner)

/-- A message may be stored anew over itself, read or not. -/
theorem encoded_storeMessage_known (hone : OneMessage messages)
    (h : ChatsById currentUser person messages t) (hm : Known person messages chatPartner m) :
    Encoded ((storeMessage currentUser chatPartner m).apply t) currentUser chatPartner m := by
  cases hhas : t.has (directChatRef currentUser chatPartner ++ [m.id]) with
  | false => exact encoded_storeMessage hhas
  | true =>
    obtain ⟨m', hid, hknown, hencoded⟩ := chatsById_iff.mp h chatPartner m.id hhas
    have hread := hknown.eq hone hm hid
    refine encoded_storeMessage_over fun field q hnone => ?_
    have hflag : field ≠ "read" := by
      rintro rfl
      cases hnone
    have hfield : m'.field field = none := by
      rw [← field_markAsRead m' hflag, hread, field_markAsRead m hflag, hnone]
    rw [← hid, hencoded.leafAt, Tree.leafAt_ofDictionary m'.nodup_asDictionary,
      m'.lookup_asDictionary, hfield, Option.map_none]

/-- **What is written keeps known messages under their ids.** -/
theorem ChatsById.apply (hone : OneMessage messages) {w : Write}
    (hw : ChatWrite currentUser person messages w) (h : ChatsById currentUser person messages t) :
    ChatsById currentUser person messages (w.apply t) := by
  refine h.of_cases fun name key => ?_
  cases hw with
  | @read chatPartner unread hknown =>
    by_cases hnamed : name = chatPartner ∧ ∃ m ∈ unread, m.id = key
    · obtain ⟨rfl, m, hm, rfl⟩ := hnamed
      exact Or.inr (Or.inr ⟨m.markAsRead, rfl, hknown m hm, encoded_storeRead hone hknown hm⟩)
    · refine Or.inl fun q => leafAt_storeRead_other ?_ q
      by_cases hname : name = chatPartner
      · exact Or.inr fun m hm hid => hnamed ⟨hname, m, hm, hid⟩
      · exact Or.inl hname
  | @message chatPartner m hm =>
    by_cases hnamed : name = chatPartner ∧ m.id = key
    · obtain ⟨rfl, rfl⟩ := hnamed
      exact Or.inr (Or.inr ⟨m, rfl, hm, encoded_storeMessage_known hone h hm⟩)
    · refine Or.inl fun q => Write.leafAt_apply_beside _ ?_
      by_cases hname : name = chatPartner
      · have hid : ¬ m.id = key := fun hid => hnamed ⟨hname, hid⟩
        simp [Incomparable, storeMessage, Write.ref, hname, hid, Ne.symm hid]
      · simp [Incomparable, storeMessage, Write.ref, hname, Ne.symm hname]
  | deleted chatPartner =>
    by_cases hname : name = chatPartner
    · subst hname
      refine Or.inr (Or.inl ?_)
      simp only [dropChat, Write.apply, PathTree.has_put_below, PathTree.has_empty]
    · refine Or.inl fun q => Write.leafAt_apply_beside _ ?_
      simp [Incomparable, dropChat, Write.ref, hname, Ne.symm hname]

/-! ### What is decoded -/

/-- The dictionary a look-up captures decodes to known messages. -/
def KnownDictionary (person : String → String) (messages : List (String × Message))
    (item : String × Tree) : Prop :=
  ∀ user, ∀ m ∈ (DirectChat.ofDictionary user item.2).messages, Known person messages item.1 m

def KnownChat (person : String → String) (messages : List (String × Message))
    (chat : DirectChat) : Prop :=
  ∀ m ∈ chat.messages, Known person messages chat.chatPartner.username m

/-- The user found under a name has a name of the same person. -/
def SamePerson (person : String → String) (item : String × Tree) (response : Tree) : Prop :=
  ∀ user, fetchedUser response = some user → person user.username = person item.1

theorem StoredById.knownDictionary {snapshot : Tree} (h : StoredById person messages snapshot)
    {key : String} {item : String × Tree}
    (hitem : fetchChats.start (key, snapshot.get key) = some item) :
    KnownDictionary person messages item := by
  obtain ⟨dictionary, hdictionary, rfl⟩ := Option.map_eq_some_iff.mp hitem
  obtain rfl := Tree.asDictionary_eq_some hdictionary
  intro user m hm
  obtain ⟨id, hid, hdecodes⟩ := List.mem_filterMap.mp hm
  have hhas : snapshot.has [key, id] = true := by
    have hkey := PathTree.mem_keys.mp hid
    rwa [Tree.get, PathTree.child, PathTree.has_sub] at hkey
  obtain ⟨m', rfl, hknown, hsame⟩ := h key id hhas
  have hdecodes' : (Tree.asDictionary ((snapshot.get key).get m'.id)).bind
      Message.ofDictionary = some m' := by
    refine Message.decodes_of_field fun field => ?_
    have hleaf := hsame.leafAt [field]
    rw [PathTree.leafAt_sub, m'.leafAt_asDictionary] at hleaf
    rw [PathTree.leafAt_child, PathTree.leafAt_child]
    exact hleaf
  obtain rfl := Option.some.inj (hdecodes'.symm.trans hdecodes)
  exact hknown

/-- The chat a look-up appends is known. -/
theorem KnownDictionary.completion {item : String × Tree}
    (h : KnownDictionary person messages item) {response : Tree}
    (hresponse : SamePerson person item response) {chat : DirectChat}
    (hentry : fetchChats.completion item response = some (some chat)) :
    KnownChat person messages chat := by
  obtain ⟨user, huser, hchat⟩ := Option.map_eq_some_iff.mp hentry
  simp only [fetchedChat] at hchat
  split_ifs at hchat
  obtain rfl := Option.some.inj hchat
  intro m hm
  have hmem : m ∈ (DirectChat.ofDictionary user item.2).messages := List.mem_mergeSort.mp hm
  have hknown := h user m hmem
  rw [Known, ← hresponse user huser] at hknown
  exact hknown

/-- For every database that keeps the messages of a user under their ids there is such a list,
    of one person for each name. -/
theorem exists_messages {db : Tree} (hkeyed : ∀ chatPartner, KeyedById db currentUser chatPartner) :
    ∃ messages, OneMessage messages ∧ ChatsById currentUser id messages db := by
  let listed : List (String × Message) := (db.sub (directChatsRef currentUser)).keys.flatMap
    fun name => (DirectChat.ofDictionary (somebody name)
      (db.sub (directChatRef currentUser name))).messages.map fun m => (name, m.markAsRead)
  have hlisted : ∀ x ∈ listed, ∃ m : Message, x.2 = m.markAsRead ∧
      Encoded db currentUser x.1 m := by
    intro x hx
    obtain ⟨name, -, hx⟩ := List.mem_flatMap.mp hx
    obtain ⟨m, hm, rfl⟩ := List.mem_map.mp hx
    exact ⟨m, rfl, (mem_decoded_iff (hkeyed name) (PathTree.Same.refl _) _ m).mp hm⟩
  refine ⟨listed, fun x hx y hy hname hid => ?_, chatsById_iff.mpr fun name key hhas => ?_⟩
  · obtain ⟨m, hm, hencoded⟩ := hlisted x hx
    obtain ⟨m', hm', hencoded'⟩ := hlisted y hy
    rw [← hname] at hencoded'
    have heq := hencoded.eq hencoded' (by simpa [hm, hm', Message.markAsRead] using hid)
    exact Prod.ext hname (by rw [hm, hm', heq])
  · have hkey : key ∈ (db.sub (directChatRef currentUser name)).keys := by
      rw [PathTree.mem_keys, PathTree.has_sub]
      exact hhas
    obtain ⟨m, rfl, hencoded⟩ := hkeyed name key hkey
    refine ⟨m, rfl, List.mem_flatMap.mpr ⟨name, ?_, ?_⟩, hencoded⟩
    · have hid : db.leafAt (directChatRef currentUser name ++ [m.id, "id"]) = some (.str m.id) :=
        hencoded.field "id"
      rw [PathTree.mem_keys, PathTree.has_sub]
      exact PathTree.has_of_leafAt hid
    · exact List.mem_map.mpr
        ⟨m, (mem_decoded_iff (hkeyed name) (PathTree.Same.refl _) _ m).mpr hencoded, rfl⟩

end TeamUp
