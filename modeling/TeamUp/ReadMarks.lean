import TeamUp.Listing

/-!
# Marking a chat as read

The chats on the device are objects, which the controller and the screens share.
`markDirectChatMessagesAsRead` marks the unread messages of one as read and writes each of
them anew under its id.  For a chat decoded from messages stored under their ids the write
changes nothing but the flags, and the objects are left with nothing unread.
-/

namespace TeamUp

/-! ### What is stored -/

/-- The record under the id of a message is the one `sendDirectMessage` writes for it. -/
def Encoded (db : Tree) (a b : String) (m : Message) : Prop :=
  PathTree.Same (db.sub (directChatRef a b ++ [m.id])) (Tree.ofDictionary m.asDictionary)

/-- Every message of the conversation is stored under its id. -/
def KeyedById (db : Tree) (a b : String) : Prop :=
  ∀ key ∈ (db.sub (directChatRef a b)).keys, ∃ m : Message, m.id = key ∧ Encoded db a b m

variable {db : Tree} {a b : String} {m m' : Message}

theorem Encoded.leafAt (h : Encoded db a b m) (q : Ref) :
    db.leafAt (directChatRef a b ++ m.id :: q) = (Tree.ofDictionary m.asDictionary).leafAt q := by
  rw [← PathTree.Same.leafAt h, PathTree.leafAt_sub, List.append_assoc, List.singleton_append]

theorem Encoded.field (h : Encoded db a b m) (field : String) :
    db.leafAt (directChatRef a b ++ [m.id, field]) = m.field field := by
  rw [h.leafAt, Message.leafAt_asDictionary]

theorem Encoded.mem_keys (h : Encoded db a b m) : m.id ∈ (db.sub (directChatRef a b)).keys := by
  rw [PathTree.mem_keys, PathTree.has_sub]
  exact PathTree.has_of_leafAt (q := ["id"]) (by
    rw [List.append_assoc, List.singleton_append, h.field]
    rfl)

/-- Two messages recorded under one id are the same. -/
theorem Encoded.eq (h : Encoded db a b m) (h' : Encoded db a b m') (hid : m.id = m'.id) :
    m = m' := by
  have hfields : ∀ field, (Tree.ofDictionary m'.asDictionary).leafAt [field] = m.field field := by
    intro field
    rw [← h.field field, hid, h'.leafAt]
  have hdecodes := Message.ofDictionary_of_field hfields
  rw [Message.ofDictionary_asDictionary] at hdecodes
  exact (Option.some.inj hdecodes).symm

/-- `sendDirectMessage` records its message, if it writes every field stored under its id. -/
theorem encoded_storeMessage_over
    (h : ∀ field q, m.field field = none →
      db.leafAt (directChatRef a b ++ m.id :: field :: q) = none) :
    Encoded ((storeMessage a b m).apply db) a b m := by
  refine PathTree.same_of_leafAt fun q => ?_
  rw [PathTree.leafAt_sub]
  cases q with
  | nil =>
    have hid : m.asDictionary.lookup "id" = some (.str m.id) := m.lookup_asDictionary "id"
    have hleaf : ((storeMessage a b m).apply db).leafAt
        ((directChatRef a b ++ [m.id]) ++ ["id"]) = some (.str m.id) :=
      Write.leafAt_update_of_lookup m.nodup_asDictionary hid []
    rw [Tree.leafAt_ofDictionary_nil]
    exact PathTree.leafAt_above hleaf (by simp)
  | cons field q =>
    have hlookup := m.lookup_asDictionary field
    rw [Tree.leafAt_ofDictionary m.nodup_asDictionary, hlookup]
    cases hfield : m.field field with
    | some value =>
      rw [hfield] at hlookup
      exact Write.leafAt_update_of_lookup m.nodup_asDictionary hlookup q
    | none =>
      rw [hfield] at hlookup
      refine (Write.leafAt_update_of_lookup_none hlookup q).trans ?_
      simpa using h field q hfield

/-- **`sendDirectMessage` records its message** if nothing is stored under its id. -/
theorem encoded_storeMessage (h : db.has (directChatRef a b ++ [m.id]) = false) :
    Encoded ((storeMessage a b m).apply db) a b m := by
  refine encoded_storeMessage_over fun field q _ => ?_
  have hnone := PathTree.leafAt_of_not_has h (field :: q)
  rwa [List.append_assoc, List.singleton_append] at hnone

theorem Encoded.congr {db' : Tree} (h : Encoded db a b m)
    (hsame : ∀ q, db'.leafAt (directChatRef a b ++ m.id :: q) =
      db.leafAt (directChatRef a b ++ m.id :: q)) : Encoded db' a b m := by
  refine PathTree.same_of_leafAt fun q => ?_
  rw [PathTree.leafAt_sub, List.append_assoc, List.singleton_append, hsame, h.leafAt]

/-- `sendDirectMessage` keeps the messages under their ids. -/
theorem KeyedById.storeMessage (h : KeyedById db a b)
    (hfresh : db.has (directChatRef a b ++ [m.id]) = false) :
    KeyedById ((TeamUp.storeMessage a b m).apply db) a b := by
  intro key hkey
  by_cases hid : key = m.id
  · exact ⟨m, hid.symm, encoded_storeMessage hfresh⟩
  · have hbeside : ∀ q, ((TeamUp.storeMessage a b m).apply db).leafAt
        (directChatRef a b ++ key :: q) = db.leafAt (directChatRef a b ++ key :: q) := by
      intro q
      refine Write.leafAt_apply_beside _ ?_
      simp [Incomparable, TeamUp.storeMessage, Write.ref, hid, Ne.symm hid]
    have hold : key ∈ (db.sub (directChatRef a b)).keys := by
      obtain ⟨q, hq⟩ := PathTree.has_iff_leafAt.mp (PathTree.mem_keys.mp hkey)
      rw [PathTree.leafAt_sub, List.singleton_append, hbeside] at hq
      refine PathTree.mem_keys.mpr (PathTree.has_iff_leafAt.mpr ⟨q, ?_⟩)
      rw [PathTree.leafAt_sub, List.singleton_append]
      exact hq
    obtain ⟨m', rfl, hm'⟩ := h key hold
    exact ⟨m', rfl, hm'.congr hbeside⟩

/-- What is decoded from a conversation are the messages recorded in it. -/
theorem mem_decoded_iff (hkeyed : KeyedById db a b) {snapshot : Tree}
    (hsame : PathTree.Same snapshot (db.sub (directChatRef a b))) (user : User) (m : Message) :
    m ∈ (DirectChat.ofDictionary user snapshot).messages ↔ Encoded db a b m := by
  -- a record decodes to its message
  have hdecodes : ∀ m : Message, Encoded db a b m →
      (Tree.asDictionary (snapshot.child m.id)).bind Message.ofDictionary = some m := by
    intro m hm
    refine Message.decodes_of_field fun field => ?_
    rw [PathTree.leafAt_child, hsame.leafAt, PathTree.leafAt_sub]
    exact hm.field field
  rw [DirectChat.ofDictionary, List.mem_filterMap]
  constructor
  · rintro ⟨key, hkey, hm⟩
    obtain ⟨m', rfl, hm'⟩ := hkeyed key (hsame.mem_keys.mp hkey)
    obtain rfl := Option.some.inj ((hdecodes m' hm').symm.trans hm)
    exact hm'
  · intro hm
    exact ⟨m.id, hsame.mem_keys.mpr hm.mem_keys, hdecodes m hm⟩

/-! ### Objects -/

/-- A `DirectChat`, whose messages are objects. -/
structure ChatObject where
  chatPartner : User
  messages : List Nat

/-- `MessageController` with the objects on the device, and the database it writes to. -/
structure Inbox where
  currentUser : Option String
  message : Nat → Message
  chat : Nat → ChatObject
  chats : List Nat
  database : Tree
  written : List Write

namespace Inbox

/-- What an object stands for at the moment. -/
def value (s : Inbox) (c : Nat) : DirectChat :=
  { chatPartner := (s.chat c).chatPartner, messages := (s.chat c).messages.map s.message }

/-- `DirectChat.unreadMessages` -/
def unreadMessages (s : Inbox) (c : Nat) : List Nat :=
  match s.currentUser with
  | some currentUser => (s.chat c).messages.filter fun r =>
      (s.message r).fromUser != currentUser && (s.message r).read == false
  | none => []

/-- `DirectChat.hasNewMessages` -/
def hasNewMessages (s : Inbox) (c : Nat) : Bool := !(s.unreadMessages c).isEmpty

/-- `MessageController.hasNewMessages` -/
def chatsHaveNewMessages (s : Inbox) : Bool := !(s.chats.filter s.hasNewMessages).isEmpty

/-- `Message.markAsRead` -/
def markAsRead (s : Inbox) (r : Nat) : Inbox :=
  { s with message := Function.update s.message r (s.message r).markAsRead }

/-- The loop that marks the messages and collects what is written. -/
def markEach (s : Inbox) (unread : List Nat) : Inbox × Dictionary :=
  unread.foldl (fun (s, messageDictionary) r =>
    let s := s.markAsRead r
    (s, messageDictionary.set (s.message r).id (Tree.ofDictionary (s.message r).asDictionary)))
    (s, [])

def markDirectChatMessagesAsRead (s : Inbox) (c : Nat) : Inbox :=
  match s.currentUser with
  | none => s
  | some currentUser =>
      let unread := s.unreadMessages c
      if unread.isEmpty then s
      else
        let (s, messageDictionary) := s.markEach unread
        let w := .updateChildValues (directChatRef currentUser (s.chat c).chatPartner.username)
          messageDictionary
        { s with database := w.apply s.database, written := s.written ++ [w] }

variable {s : Inbox} {c : Nat}

/-- The loop marks each of the messages, and collects them as they were, marked as read. -/
theorem markEach_eq (s : Inbox) (unread : List Nat) :
    s.markEach unread = ({ s with
      message := fun r => if r ∈ unread then (s.message r).markAsRead else s.message r },
      readMessages (unread.map s.message)) := by
  induction unread using List.reverseRecOn with
  | nil => rfl
  | append_singleton unread r ih =>
    have hlast : s.markEach (unread ++ [r]) =
        (((s.markEach unread).1.markAsRead r),
          (s.markEach unread).2.set (((s.markEach unread).1.markAsRead r).message r).id
            (Tree.ofDictionary (((s.markEach unread).1.markAsRead r).message r).asDictionary)) := by
      simp [markEach, List.foldl_append]
    have hmarked : (((s.markEach unread).1.markAsRead r).message r) = (s.message r).markAsRead := by
      rw [ih]
      simp only [markAsRead, Function.update_self]
      split <;> rfl
    rw [hlast, hmarked, ih, Prod.mk.injEq]
    constructor
    · simp only [markAsRead, Inbox.mk.injEq, true_and, and_true]
      funext r'
      by_cases heq : r' = r
      · subst heq
        simp only [Function.update_self, List.mem_append, List.mem_singleton, or_true, if_true]
        split <;> rfl
      · simp [heq]
    · rw [List.map_append]
      exact (Dictionary.collect_append (unread.map s.message) (s.message r)).symm

/-- Marking as read issues what the controller issues for the chat the object stands for. -/
theorem markDirectChatMessagesAsRead_eq {currentUser : String}
    (huser : s.currentUser = some currentUser) (hnew : s.hasNewMessages c = true) :
    s.markDirectChatMessagesAsRead c = { s with
      message := fun r =>
        if r ∈ s.unreadMessages c then (s.message r).markAsRead else s.message r
      database := (storeRead currentUser (s.chat c).chatPartner.username
        ((s.value c).unreadMessages (some currentUser))).apply s.database
      written := s.written ++ [storeRead currentUser (s.chat c).chatPartner.username
        ((s.value c).unreadMessages (some currentUser))] } := by
  have hunread : (s.unreadMessages c).isEmpty = false := by
    simpa [hasNewMessages] using hnew
  have hvalues : (s.unreadMessages c).map s.message =
      (s.value c).unreadMessages (some currentUser) := by
    simp only [unreadMessages, huser, DirectChat.unreadMessages, value, List.filter_map]
    rfl
  simp only [markDirectChatMessagesAsRead, huser, hunread, Bool.false_eq_true, if_false,
    markEach_eq, hvalues]
  rfl

theorem markDirectChatMessagesAsRead_of_nothingNew (h : s.hasNewMessages c = false) :
    s.markDirectChatMessagesAsRead c = s := by
  have hunread : (s.unreadMessages c).isEmpty = true := by
    simpa [hasNewMessages] using h
  unfold markDirectChatMessagesAsRead
  split
  · rfl
  · rw [if_pos hunread]

end Inbox

/-! ### What a marking writes -/

theorem field_markAsRead (m : Message) {k : String} (hk : k ≠ "read") :
    m.markAsRead.field k = m.field k := by
  unfold Message.field
  split
  · rfl
  · rfl
  · exact (hk rfl).elim
  · rfl
  · rfl
  · rfl
  · rfl

/-- The record of a message marked as read differs in the flag only. -/
theorem leafAt_markAsRead (m : Message) (q : Ref) :
    (Tree.ofDictionary m.markAsRead.asDictionary).leafAt q =
      if q = ["read"] then some (.bool true) else (Tree.ofDictionary m.asDictionary).leafAt q := by
  cases q with
  | nil => simp [Tree.leafAt_ofDictionary_nil]
  | cons k rest =>
    rw [Tree.leafAt_ofDictionary m.markAsRead.nodup_asDictionary,
      Tree.leafAt_ofDictionary m.nodup_asDictionary, Message.lookup_asDictionary,
      Message.lookup_asDictionary]
    by_cases hk : k = "read"
    · subst hk
      cases rest with
      | nil => rfl
      | cons k rest => simp [Message.field]
    · rw [field_markAsRead m hk, if_neg (by simp [hk])]

/-- The write of a marking records each message it marks as read, if there is one of its id. -/
theorem encoded_storeRead_of_same {unread : List Message} (hm : m ∈ unread)
    (hsame : ∀ m' ∈ unread, m'.id = m.id → m'.markAsRead = m.markAsRead) :
    Encoded ((storeRead a b unread).apply db) a b m.markAsRead := by
  have hlookup : (readMessages unread).lookup m.id =
      some (Tree.ofDictionary m.markAsRead.asDictionary) :=
    Dictionary.lookup_collect (fun m : Message =>
      (m.id, Tree.ofDictionary m.markAsRead.asDictionary)) hm fun m' hm' hid =>
        Prod.ext hid (by rw [hsame m' hm' hid])
  refine PathTree.same_of_leafAt fun q => ?_
  rw [PathTree.leafAt_sub, List.append_assoc, List.singleton_append]
  exact Write.leafAt_update_of_lookup (Dictionary.nodup_collect unread) hlookup q

theorem leafAt_storeRead {unread : List Message} (hrecorded : ∀ m ∈ unread, Encoded db a b m)
    (hm : m ∈ unread) (q : Ref) :
    ((storeRead a b unread).apply db).leafAt (directChatRef a b ++ m.id :: q) =
      if q = ["read"] then some (.bool true) else db.leafAt (directChatRef a b ++ m.id :: q) := by
  have hread : Encoded ((storeRead a b unread).apply db) a b m.markAsRead :=
    encoded_storeRead_of_same hm fun m' hm' hid => by
      rw [(hrecorded m' hm').eq (hrecorded m hm) hid]
  rw [(hrecorded m hm).leafAt q, ← leafAt_markAsRead]
  exact hread.leafAt q

/-- It leaves the other messages alone, and the other conversations. -/
theorem leafAt_storeRead_other {unread : List Message} {name key : String}
    (h : name ≠ b ∨ ∀ m ∈ unread, m.id ≠ key) (q : Ref) :
    ((storeRead a b unread).apply db).leafAt (directChatRef a name ++ key :: q) =
      db.leafAt (directChatRef a name ++ key :: q) := by
  by_cases hname : name = b
  · subst hname
    refine Write.leafAt_update_other (fun hmem => ?_) q
    obtain ⟨e, he, rfl⟩ := List.mem_map.mp hmem
    obtain ⟨m, hm, rfl⟩ := Dictionary.mem_of_mem_collect he
    exact (h.resolve_left fun hne => hne rfl) m hm rfl
  · refine Write.leafAt_apply_beside _ ?_
    simp [Incomparable, storeRead, Write.ref, hname, Ne.symm hname]

/-- The user has not read the message under this key, which someone else sent. -/
def UnreadIn (db : Tree) (a b key : String) : Prop :=
  ∃ m : Message, m.id = key ∧ Encoded db a b m ∧ m.fromUser ≠ a ∧ m.read = false

/-- The flags of the unread messages are set, and nothing else is changed. -/
structure OnlyMarks (a b : String) (db db' : Tree) : Prop where
  marked : ∀ key, UnreadIn db a b key →
    db'.leafAt (directChatRef a b ++ [key, "read"]) = some (.bool true)
  kept : ∀ q, (∀ key, UnreadIn db a b key → q ≠ directChatRef a b ++ [key, "read"]) →
    db'.leafAt q = db.leafAt q

/-- Nothing is stored at or above a conversation with a message. -/
theorem leafAt_above_record {db : Tree} {value : Leaf} {q : Ref}
    (h : db.leafAt (directChatRef a b ++ [m.id, "id"]) = some value)
    (hq : q <+: directChatRef a b) : db.leafAt q = none := by
  obtain ⟨rest, hrest⟩ := hq
  rw [← hrest, List.append_assoc] at h
  exact PathTree.leafAt_above h (by simp)

/-- **The write of a marking** sets the flags of the messages it marks. -/
theorem onlyMarks_storeRead {unread : List Message}
    (hunread : ∀ m, m ∈ unread ↔ Encoded db a b m ∧ m.fromUser ≠ a ∧ m.read = false)
    (hsome : unread ≠ []) : OnlyMarks a b db ((storeRead a b unread).apply db) := by
  have hrecorded : ∀ m ∈ unread, Encoded db a b m := fun m hm => ((hunread m).mp hm).1
  have hids : ∀ m ∈ unread, UnreadIn db a b m.id := fun m hm =>
    ⟨m, rfl, (hunread m).mp hm⟩
  refine ⟨?_, fun q hq => ?_⟩
  · rintro key ⟨m, rfl, h⟩
    rw [leafAt_storeRead hrecorded ((hunread m).mpr h), if_pos rfl]
  by_cases hbelow : directChatRef a b <+: q
  · obtain ⟨rest, rfl⟩ := hbelow
    cases rest with
    | nil =>
      obtain ⟨m, hm⟩ := List.exists_mem_of_ne_nil unread hsome
      have hbefore := (hrecorded m hm).field "id"
      have hafter := leafAt_storeRead hrecorded hm ["id"]
      rw [if_neg (by simp), hbefore] at hafter
      rw [leafAt_above_record hafter (by simp), leafAt_above_record hbefore (by simp)]
    | cons key rest =>
      by_cases hkey : ∃ m ∈ unread, m.id = key
      · obtain ⟨m, hm, rfl⟩ := hkey
        rw [leafAt_storeRead hrecorded hm, if_neg]
        rintro rfl
        exact hq m.id (hids m hm) rfl
      · exact leafAt_storeRead_other (Or.inr fun m hm hid => hkey ⟨m, hm, hid⟩) rest
  · by_cases habove : q <+: directChatRef a b
    · obtain ⟨m, hm⟩ := List.exists_mem_of_ne_nil unread hsome
      have hbefore := (hrecorded m hm).field "id"
      have hafter := leafAt_storeRead hrecorded hm ["id"]
      rw [if_neg (by simp), hbefore] at hafter
      rw [leafAt_above_record hafter habove, leafAt_above_record hbefore habove]
    · exact Write.leafAt_apply_beside _ ⟨hbelow, habove⟩

/-- A marking keeps the messages under their ids. -/
theorem KeyedById.onlyMarks {db' : Tree} (h : KeyedById db a b) (hmarks : OnlyMarks a b db db') :
    KeyedById db' a b := by
  intro key hkey
  have hold : key ∈ (db.sub (directChatRef a b)).keys := by
    by_cases hunread : UnreadIn db a b key
    · obtain ⟨m, rfl, hm, -⟩ := hunread
      exact hm.mem_keys
    · obtain ⟨q, hq⟩ := PathTree.has_iff_leafAt.mp (PathTree.mem_keys.mp hkey)
      refine PathTree.mem_keys.mpr (PathTree.has_iff_leafAt.mpr ⟨q, ?_⟩)
      rw [PathTree.leafAt_sub] at hq ⊢
      rwa [hmarks.kept _ fun key' hkey' heq => ?_] at hq
      rw [List.append_cancel_left_eq, List.singleton_append, List.cons.injEq] at heq
      exact hunread (heq.1 ▸ hkey')
  obtain ⟨m, rfl, hm⟩ := h key hold
  by_cases hunread : UnreadIn db a b m.id
  · refine ⟨m.markAsRead, rfl, PathTree.same_of_leafAt fun q => ?_⟩
    rw [leafAt_markAsRead, PathTree.leafAt_sub, List.append_assoc, List.singleton_append,
      ← hm.leafAt]
    split
    · rename_i hq
      rw [hq]
      exact hmarks.marked m.id hunread
    · rename_i hq
      refine hmarks.kept _ fun key _ heq => hq ?_
      rw [List.append_cancel_left_eq, List.cons.injEq] at heq
      exact heq.2
  · refine ⟨m, rfl, hm.congr fun q => hmarks.kept _ fun key hkey' heq => hunread ?_⟩
    rw [List.append_cancel_left_eq, List.cons.injEq] at heq
    rw [heq.1]
    exact hkey'

namespace Inbox

variable {s : Inbox} {c : Nat} {currentUser : String}

/-- The chat was decoded from what is stored at its path now. -/
structure DecodedFrom (s : Inbox) (c : Nat) (currentUser : String) : Prop where
  keyed : KeyedById s.database currentUser (s.chat c).chatPartner.username
  decoded : ∃ snapshot : Tree, PathTree.Same snapshot
      (s.database.sub (directChatRef currentUser (s.chat c).chatPartner.username)) ∧
    (s.value c).messages.Perm (DirectChat.ofDictionary (s.chat c).chatPartner snapshot).messages

/-- Its messages are those that are recorded. -/
theorem DecodedFrom.mem_messages (h : s.DecodedFrom c currentUser) (m : Message) :
    m ∈ (s.value c).messages ↔
      Encoded s.database currentUser (s.chat c).chatPartner.username m := by
  obtain ⟨snapshot, hsame, hperm⟩ := h.decoded
  rw [hperm.mem_iff]
  exact mem_decoded_iff h.keyed hsame _ m

theorem DecodedFrom.mem_unread (h : s.DecodedFrom c currentUser) (m : Message) :
    m ∈ (s.value c).unreadMessages (some currentUser) ↔
      Encoded s.database currentUser (s.chat c).chatPartner.username m ∧
        m.fromUser ≠ currentUser ∧ m.read = false := by
  simp only [DirectChat.unreadMessages, List.mem_filter, h.mem_messages, Bool.and_eq_true,
    bne_iff_ne, beq_iff_eq]

/-! ### The objects after a marking -/

theorem unread_iff (huser : s.currentUser = some currentUser) {r : Nat} :
    r ∈ s.unreadMessages c ↔ r ∈ (s.chat c).messages ∧
      (s.message r).fromUser ≠ currentUser ∧ (s.message r).read = false := by
  simp [unreadMessages, huser]

theorem hasNewMessages_iff : s.hasNewMessages c = true ↔ ∃ r, r ∈ s.unreadMessages c := by
  simp [hasNewMessages, ← List.length_pos_iff_exists_mem, List.length_pos_iff]

theorem hasNewMessages_marked (s : Inbox) (c : Nat) :
    (s.markDirectChatMessagesAsRead c).hasNewMessages c = false := by
  cases hnew : s.hasNewMessages c with
  | false => rw [markDirectChatMessagesAsRead_of_nothingNew hnew, hnew]
  | true =>
    cases huser : s.currentUser with
    | none => simp [hasNewMessages, unreadMessages, huser] at hnew
    | some currentUser =>
      have heq := markDirectChatMessagesAsRead_eq huser hnew
      have huser' : (s.markDirectChatMessagesAsRead c).currentUser = some currentUser := by
        rw [heq]
        exact huser
      rw [Bool.eq_false_iff, ne_eq, hasNewMessages_iff]
      rintro ⟨r, hr⟩
      obtain ⟨hmem, hother, hread⟩ := (unread_iff huser').mp hr
      -- what was unread is marked, and the rest was read
      simp only [heq] at hmem hother hread
      split at hread
      · cases hread
      · rename_i hnot
        rw [if_neg hnot] at hother
        exact hnot ((unread_iff huser).mpr ⟨hmem, hother, hread⟩)

/-- Another chat whose messages are other objects is left as it is. -/
theorem unreadMessages_other {c' : Nat}
    (hapart : ∀ r ∈ (s.chat c).messages, r ∉ (s.chat c').messages) :
    (s.markDirectChatMessagesAsRead c).unreadMessages c' = s.unreadMessages c' := by
  cases hnew : s.hasNewMessages c with
  | false => rw [markDirectChatMessagesAsRead_of_nothingNew hnew]
  | true =>
    cases huser : s.currentUser with
    | none => simp [hasNewMessages, unreadMessages, huser] at hnew
    | some currentUser =>
      rw [markDirectChatMessagesAsRead_eq huser hnew]
      simp only [unreadMessages, huser]
      refine List.filter_congr fun r hr => ?_
      have hnot : r ∉ (s.chat c).messages := fun hmem => hapart r hmem hr
      simp [hnot]

theorem chats_marked (s : Inbox) (c : Nat) :
    (s.markDirectChatMessagesAsRead c).chats = s.chats ∧
      (s.markDirectChatMessagesAsRead c).chat = s.chat := by
  cases hnew : s.hasNewMessages c with
  | false => simp [markDirectChatMessagesAsRead_of_nothingNew hnew]
  | true =>
    cases huser : s.currentUser with
    | none => simp [markDirectChatMessagesAsRead, huser]
    | some currentUser => simp [markDirectChatMessagesAsRead_eq huser hnew]

theorem chatsHaveNewMessages_iff :
    s.chatsHaveNewMessages = true ↔ ∃ c ∈ s.chats, s.hasNewMessages c = true := by
  simp [chatsHaveNewMessages]

/-- The marking of a chat, undisturbed: what it changes in the database and in the objects. -/
structure Marking (s t : Inbox) (c : Nat) (currentUser : String) : Prop where
  database : OnlyMarks currentUser (s.chat c).chatPartner.username s.database t.database
  read : t.hasNewMessages c = false
  /-- Only other chats can have new messages, those of other partners if the chats published are
      with different partners. -/
  others : t.chatsHaveNewMessages = true → ∃ c' ∈ t.chats, c' ≠ c ∧ t.hasNewMessages c' = true ∧
    (c ∈ s.chats → (s.chats.map fun c => (s.chat c).chatPartner.username).Nodup →
      (t.chat c').chatPartner.username ≠ (s.chat c).chatPartner.username)
  /-- They are those that had before if no message is an object of two chats. -/
  kept : ∀ c', (∀ r ∈ (s.chat c).messages, r ∉ (s.chat c').messages) →
    t.hasNewMessages c' = s.hasNewMessages c'
  again : t.markDirectChatMessagesAsRead c = t

end Inbox

/-- **Marking a chat as read** sets the flags of the unread messages of others in the database,
    and changes nothing else there; the chat then has no new messages, the chats have some only
    in another chat, and marking it again does nothing. -/
theorem markDirectChatMessagesAsRead_marks {s : Inbox} {c : Nat} {currentUser : String}
    (huser : s.currentUser = some currentUser) (h : s.DecodedFrom c currentUser) :
    s.Marking (s.markDirectChatMessagesAsRead c) c currentUser := by
  have hread := s.hasNewMessages_marked c
  obtain ⟨hchats, hchat⟩ := s.chats_marked c
  refine ⟨?_, hread, fun hany => ?_, fun c' hapart => ?_,
    Inbox.markDirectChatMessagesAsRead_of_nothingNew hread⟩
  · cases hnew : s.hasNewMessages c with
    | true =>
      rw [Inbox.markDirectChatMessagesAsRead_eq huser hnew]
      refine onlyMarks_storeRead h.mem_unread ?_
      obtain ⟨r, hr⟩ := Inbox.hasNewMessages_iff.mp hnew
      obtain ⟨hmem, hother, hunread⟩ := (Inbox.unread_iff huser).mp hr
      refine List.ne_nil_of_mem (a := s.message r) ?_
      rw [h.mem_unread, ← h.mem_messages]
      exact ⟨List.mem_map.mpr ⟨r, hmem, rfl⟩, hother, hunread⟩
    | false =>
      rw [Inbox.markDirectChatMessagesAsRead_of_nothingNew hnew]
      refine ⟨?_, fun _ _ => rfl⟩
      rintro key ⟨m, rfl, hm, hother, hunread⟩
      obtain ⟨r, hr, rfl⟩ := List.mem_map.mp ((h.mem_messages m).mpr hm)
      have htrue := Inbox.hasNewMessages_iff.mpr
        ⟨r, (Inbox.unread_iff huser).mpr ⟨hr, hother, hunread⟩⟩
      rw [hnew] at htrue
      cases htrue
  · obtain ⟨c', hc', hnew⟩ := Inbox.chatsHaveNewMessages_iff.mp hany
    have hne : c' ≠ c := by
      rintro rfl
      rw [hread] at hnew
      cases hnew
    refine ⟨c', hc', hne, hnew, fun hc hnodup heq => hne ?_⟩
    rw [hchats] at hc'
    rw [hchat] at heq
    exact List.inj_on_of_nodup_map hnodup hc' hc heq
  · rw [Inbox.hasNewMessages, Inbox.unreadMessages_other hapart, Inbox.hasNewMessages]

/-- Alice has an unread message of bob's. -/
def helloFromBob : Inbox :=
  { currentUser := some "alice1"
    message := fun _ => newMessage "bobbob" "hello" 5 "-0"
    chat := fun _ => { chatPartner := somebody "bobbob", messages := [0] }
    chats := [0]
    database := (storeMessage "alice1" "bobbob" (newMessage "bobbob" "hello" 5 "-0")).apply .empty
    written := [] }

theorem markDirectChatMessagesAsRead_marks_hello :
    helloFromBob.hasNewMessages 0 = true ∧
      helloFromBob.Marking (helloFromBob.markDirectChatMessagesAsRead 0) 0 "alice1" := by
  have hkeyed : KeyedById helloFromBob.database "alice1" "bobbob" :=
    KeyedById.storeMessage (fun key hkey => by cases hkey) rfl
  have hdecoded : helloFromBob.DecodedFrom 0 "alice1" :=
    ⟨hkeyed, helloFromBob.database.sub (directChatRef "alice1" "bobbob"), PathTree.Same.refl _,
      by decide +kernel⟩
  exact ⟨rfl, markDirectChatMessagesAsRead_marks rfl hdecoded⟩

end TeamUp
