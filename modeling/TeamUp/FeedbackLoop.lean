import TeamUp.Badges
import TeamUp.ChatScreen
import TeamUp.KnownMessages
import TeamUp.Replicas
import Mathlib.Data.Set.Finite.Basic

/-!
# The feedback of the chat screen

An open `ChatViewController` marks its conversation as read whenever `messagesUpdated` is
posted.  The marking writes to the conversations that `fetchChats` observes, so it may raise
the next snapshot, which is fetched, published and marked in turn.  The copies it works from
may be old, and other devices of the user do the same.

A marking writes only messages that there have been, as they are once they are read.  It thus
never unsettles what is stored, and settles something if it changes anything: the loop comes to
rest when nobody sends messages or deletes chats any more.
-/

namespace TeamUp

/-- `MessageController` and an open `ChatViewController` on one of the user's devices. -/
structure ChatDevice where
  /-- The snapshots raised for the observer of `fetchChats`, the oldest first. -/
  snapshots : List Tree
  board : Board Tree (String × Tree) DirectChat (List DirectChat)
  /-- `ChatViewController.chat` -/
  chat : Option DirectChat
deriving DecidableEq

/-- The devices of a user, and the database they share. -/
structure OpenChats (Device : Type) where
  database : Replicated Device Write Tree
  device : Device → ChatDevice
  /-- What `markDirectChatMessagesAsRead` has written so far. -/
  written : List Write

inductive ChatEvent (Device : Type) where
  /-- The observer is handed the oldest snapshot. -/
  | observed (device : Device)
  /-- The look-up of a partner returns, and so on as in `BoardEvent`. -/
  | returned (device : Device) (fork index : Nat) (response : Tree)
  | joined (device : Device) (fork : Nat)
  | viewDidAppear (device : Device)
  /-- The oldest write on its way from the device reaches the database. -/
  | arrived (device : Device)
  /-- The oldest update on its way to the device reaches it. -/
  | received (device : Device)
  /-- A message is stored in a conversation of the user, by a device of the user or by another
      account. -/
  | messageSent (device : Option Device) (chatPartner : String) (message : Message)
  | chatDeleted (device : Option Device) (chatPartner : String)
deriving DecidableEq

/-- What the loop does not do by itself. -/
def ChatEvent.isOutside {Device : Type} : ChatEvent Device → Bool
  | .messageSent .. => true
  | .chatDeleted .. => true
  | _ => false

/-- What `markDirectChatMessagesAsRead` writes for a chat. -/
def markWrites (currentUser : String) (chat : DirectChat) : List Write :=
  (markDirectChatMessagesAsRead currentUser chat).filterMap Command.write?

/-- The conversations of the user are not what they were. -/
def chatsDiffer (currentUser : String) (before after : Tree) : Bool :=
  decide ¬ PathTree.Same (after.sub (directChatsRef currentUser))
    (before.sub (directChatsRef currentUser))

def changesChats (currentUser : String) (w : Write) (t : Tree) : Bool :=
  chatsDiffer currentUser t (w.apply t)

theorem chatsDiffer_self (currentUser : String) (t : Tree) :
    chatsDiffer currentUser t t = false :=
  decide_eq_false (not_not.mpr (PathTree.Same.refl _))

namespace ChatDevice

variable (currentUser : String)

/-- The chat on the screen keeps its messages, which are marked. -/
def markChatAsRead (d : ChatDevice) : ChatDevice × List Write :=
  ({ d with chat := d.chat.map fun chat => chat.markedAsRead (some currentUser) },
    match d.chat with
    | some chat => markWrites currentUser chat
    | none => [])

/-- The chat is replaced by the one with its partner among those published last. -/
def lookUpChat (d : ChatDevice) : ChatDevice :=
  { d with chat := d.chat.bind fun chat => fetchDirectChat d.board.mirror chat.chatPartner }

/-- The notification `messagesUpdated`. -/
def updateChat (d : ChatDevice) : ChatDevice × List Write :=
  d.lookUpChat.markChatAsRead currentUser

def onBoard (d : ChatDevice) (snapshot : Tree) : ChatDevice :=
  { d with board := fetchChats.observe d.board snapshot }

/-- The observer of `fetchChats`; without a dictionary it posts the notification at once. -/
def observe (d : ChatDevice) (snapshot : Tree) : ChatDevice × List Write :=
  if (fetchChats.react snapshot).isLeft then (d.onBoard snapshot).updateChat currentUser
  else (d.onBoard snapshot, [])

/-- A snapshot is raised if the conversations are not what the device saw before. -/
def raise (d : ChatDevice) (before after : Tree) : ChatDevice :=
  if chatsDiffer currentUser before after then
    { d with snapshots := d.snapshots ++ [after.sub (directChatsRef currentUser)] }
  else d

end ChatDevice

namespace OpenChats

variable {Device : Type} [DecidableEq Device] (currentUser : String)

def view (s : OpenChats Device) (i : Device) : Tree := (s.database.replica i).view Write.apply

/-- A device is left like this, after it has issued these writes. -/
def issue (s : OpenChats Device) (i : Device) (d : ChatDevice) (writes : List Write) :
    OpenChats Device :=
  let database := writes.foldl (fun database w => database.issue i w) s.database
  let d := d.raise currentUser (s.view i) ((database.replica i).view Write.apply)
  { s with database, device := Function.update s.device i d }

/-- A device reacts, and `markDirectChatMessagesAsRead` may write. -/
def react (s : OpenChats Device) (i : Device) (reaction : ChatDevice × List Write) :
    OpenChats Device :=
  { s.issue currentUser i reaction.1 reaction.2 with written := s.written ++ reaction.2 }

/-- A write of the user on a device, or of another account. -/
def write (s : OpenChats Device) (device : Option Device) (w : Write) : OpenChats Device :=
  match device with
  | some i => s.issue currentUser i (s.device i) [w]
  | none => { s with
      database := s.database.commit Write.apply (changesChats currentUser) w }

def step (s : OpenChats Device) : ChatEvent Device → Option (OpenChats Device)
  | .observed i =>
      match (s.device i).snapshots with
      | [] => none
      | snapshot :: snapshots =>
          let d := { s.device i with snapshots }
          some (s.react currentUser i (d.observe currentUser snapshot))
  | .returned i fork index response =>
      (fetchChats.step (s.device i).board (.returned fork index response)).map fun board =>
        s.react currentUser i ({ s.device i with board }, [])
  | .joined i fork =>
      (fetchChats.step (s.device i).board (.joined fork)).map fun board =>
        let d := { s.device i with board }
        s.react currentUser i (d.updateChat currentUser)
  | .viewDidAppear i => some (s.react currentUser i ((s.device i).markChatAsRead currentUser))
  | .arrived i =>
      (s.database.arrive Write.apply (changesChats currentUser) i).map fun database =>
        { s with database }
  | .received i =>
      (s.database.receive Write.apply i).map fun database =>
        let d := (s.device i).raise currentUser (s.view i)
          ((database.replica i).view Write.apply)
        { s with database, device := Function.update s.device i d }
  | .messageSent device chatPartner message =>
      some (s.write currentUser device (storeMessage currentUser chatPartner message))
  | .chatDeleted device chatPartner =>
      some (s.write currentUser device (dropChat currentUser chatPartner))

end OpenChats

/-! ### What a marking writes -/

variable {currentUser chatPartner : String} {t : Tree} {unread : List Message}
variable {person : String → String} {messages : List (String × Message)} {names : List String}

theorem markWrites_eq (currentUser : String) (chat : DirectChat) :
    markWrites currentUser chat =
      if chat.unreadMessages (some currentUser) = [] then []
      else [storeRead currentUser chat.chatPartner.username
        (chat.unreadMessages (some currentUser))] := by
  unfold markWrites markDirectChatMessagesAsRead
  simp only [List.isEmpty_iff]
  split_ifs <;> rfl

theorem length_markWrites (currentUser : String) (chat : DirectChat) :
    (markWrites currentUser chat).length ≤ 1 := by
  rw [markWrites_eq]
  split_ifs <;> simp

/-- Nothing is left to write for a chat that was marked. -/
theorem markWrites_marked (currentUser : String) (chat : DirectChat) :
    markWrites currentUser (chat.markedAsRead (some currentUser)) = [] := by
  rw [markWrites_eq, if_pos]
  simp only [DirectChat.unreadMessages, DirectChat.markedAsRead, List.filter_eq_nil_iff,
    List.mem_map]
  rintro _ ⟨m, -, rfl⟩
  split_ifs with hunread
  · simp [Message.markAsRead]
  · exact hunread

/-- A marking that changes anything stores a message as read that was not. -/
theorem exists_of_changesChats
    (h : changesChats currentUser (storeRead currentUser chatPartner unread) t = true) :
    ∃ m ∈ unread, ¬ Encoded t currentUser chatPartner m.markAsRead := by
  by_contra hall
  have hstored : ∀ m ∈ unread, Encoded t currentUser chatPartner m.markAsRead := fun m hm =>
    by_contra fun hnot => hall ⟨m, hm, hnot⟩
  have hsame : PathTree.Same ((storeRead currentUser chatPartner unread).apply t) t := by
    refine Write.same_update fun e he => ?_
    obtain ⟨m, hm, rfl⟩ := Dictionary.mem_of_mem_collect he
    exact ⟨hstored m hm, has_asDictionary_nil m.markAsRead⟩
  simp only [changesChats, chatsDiffer, decide_eq_true_eq] at h
  exact h (hsame.sub _)

/-- A marking of one of the conversations on the screens. -/
def Marking (currentUser : String) (names : List String) (person : String → String)
    (messages : List (String × Message)) (w : Write) : Prop :=
  ∃ chatPartner ∈ names, ∃ unread, (∀ m ∈ unread, Known person messages chatPartner m) ∧
    w = storeRead currentUser chatPartner unread

/-- The message is stored as read under the name, which may be one of the person. -/
def StoredAsRead (currentUser : String) (person : String → String)
    (g : String × String × Message) (t : Tree) : Prop :=
  person g.1 = g.2.1 → Encoded t currentUser g.1 g.2.2

instance (currentUser : String) (person : String → String) (g : String × String × Message)
    (t : Tree) : Decidable (StoredAsRead currentUser person g t) :=
  inferInstanceAs (Decidable (_ → PathTree.Same _ _))

/-- **Markings settle**: a message stored as read stays so, and a marking that changes anything
    stores another one. -/
theorem settles_marking (currentUser : String) (names : List String) (person : String → String)
    (hone : OneMessage messages) :
    Settles Write.apply (changesChats currentUser)
      (Marking currentUser names person messages)
      (unmet (StoredAsRead currentUser person) (names ×ˢ messages))
      (names ×ˢ messages).length := by
  refine settles_unmet ?_ ?_
  · rintro w ⟨chatPartner, -, unread, hknown, rfl⟩ t ⟨name, p, m⟩ hg hmet hp
    have hmem : (p, m) ∈ messages := (List.mem_product.mp hg).2
    by_cases hnamed : name = chatPartner ∧ ∃ m' ∈ unread, m'.id = m.id
    · obtain ⟨rfl, m', hm', hid⟩ := hnamed
      have hread : m'.markAsRead = m :=
        congrArg Prod.snd (hone _ (hknown m' hm') _ hmem hp hid)
      have hstored : Encoded ((storeRead currentUser name unread).apply t) currentUser name
          m'.markAsRead := encoded_storeRead hone hknown hm'
      rw [hread] at hstored
      exact hstored
    · refine (hmet hp).congr fun q => leafAt_storeRead_other ?_ q
      by_cases hname : name = chatPartner
      · exact Or.inr fun m' hm' hid => hnamed ⟨hname, m', hm', hid⟩
      · exact Or.inl hname
  · rintro w ⟨chatPartner, hname, unread, hknown, rfl⟩ t hchanges
    obtain ⟨m, hm, hnot⟩ := exists_of_changesChats hchanges
    refine ⟨(chatPartner, person chatPartner, m.markAsRead),
      List.mem_product.mpr ⟨hname, hknown m hm⟩, fun hmet => hnot (hmet rfl), fun _ => ?_⟩
    exact encoded_storeRead hone hknown hm

/-! ### What a device holds -/

/-- What a device has read and holds are known messages. -/
structure ChatDevice.Holds (person : String → String) (messages : List (String × Message))
    (d : ChatDevice) : Prop where
  snapshots : ∀ snapshot ∈ d.snapshots, StoredById person messages snapshot
  board : Observer.Holds (KnownDictionary person messages) (KnownChat person messages) d.board
  chat : ∀ chat, d.chat = some chat → KnownChat person messages chat

/-- The partner whose conversation is open, unless it is lost. -/
def ChatDevice.partner (d : ChatDevice) : Option String :=
  d.chat.map fun chat => chat.chatPartner.username

/-- How often the screen may still react: to each snapshot, to each group when it is joined,
    and to what it shows. -/
def ChatDevice.turns (currentUser : String) (d : ChatDevice) : Nat :=
  d.snapshots.length + Observer.notified d.board + (d.markChatAsRead currentUser).2.length

namespace ChatDevice

variable {d : ChatDevice} {snapshot : Tree} {w : Write}

/-- **What one reaction of the screen does.**  It writes at most once, a marking of the
    conversation that is open; what the device holds is known, and the partner the same or lost. -/
structure Reaction (currentUser : String) (person : String → String)
    (messages : List (String × Message)) (shown : Option String) (r : ChatDevice × List Write) :
    Prop where
  holds : r.1.Holds person messages
  partner : ∀ name, r.1.partner = some name → shown = some name
  once : r.2.length ≤ 1
  marking : ∀ w ∈ r.2, ∃ name, shown = some name ∧ ∃ unread,
    (∀ m ∈ unread, Known person messages name m) ∧ w = storeRead currentUser name unread

theorem Reaction.mono {r : ChatDevice × List Write} {shown shown' : Option String}
    (h : Reaction currentUser person messages shown r)
    (hshown : ∀ name, shown = some name → shown' = some name) :
    Reaction currentUser person messages shown' r where
  holds := h.holds
  partner := fun name hname => hshown name (h.partner name hname)
  once := h.once
  marking := by
    intro w hw
    obtain ⟨name, hname, hmarking⟩ := h.marking w hw
    exact ⟨name, hshown name hname, hmarking⟩

theorem reaction_nothing (h : d.Holds person messages) :
    Reaction currentUser person messages d.partner (d, []) :=
  ⟨h, fun _ hname => hname, by simp, by simp⟩

theorem length_markChatAsRead (currentUser : String) (d : ChatDevice) :
    (d.markChatAsRead currentUser).2.length ≤ 1 := by
  simp only [markChatAsRead]
  split
  · exact length_markWrites currentUser _
  · simp

/-- Marking pays for its write. -/
theorem turns_markChatAsRead (currentUser : String) (d : ChatDevice) :
    (d.markChatAsRead currentUser).1.turns currentUser +
      (d.markChatAsRead currentUser).2.length = d.turns currentUser := by
  cases hchat : d.chat with
  | none => simp [turns, markChatAsRead, hchat]
  | some chat => simp [turns, markChatAsRead, hchat, markWrites_marked]

theorem Holds.markChatAsRead (h : d.Holds person messages) (currentUser : String) :
    Reaction currentUser person messages d.partner (d.markChatAsRead currentUser) := by
  refine ⟨⟨h.snapshots, h.board, ?_⟩, ?_, length_markChatAsRead currentUser d, ?_⟩
  · intro marked hmarked m hm
    obtain ⟨chat, hchat, rfl⟩ := Option.map_eq_some_iff.mp hmarked
    obtain ⟨m', hm', rfl⟩ := List.mem_map.mp hm
    have hknown := h.chat chat hchat m' hm'
    split_ifs <;> exact hknown
  · intro name hname
    simpa [ChatDevice.partner, ChatDevice.markChatAsRead, DirectChat.markedAsRead] using hname
  · intro w hw
    simp only [ChatDevice.markChatAsRead] at hw
    split at hw
    · rename_i chat hchat
      rw [markWrites_eq] at hw
      split_ifs at hw
      · cases hw
      · exact ⟨chat.chatPartner.username, by simp [ChatDevice.partner, hchat],
          chat.unreadMessages (some currentUser),
          fun m hm => h.chat chat hchat m (List.mem_of_mem_filter hm), List.mem_singleton.mp hw⟩
    · cases hw

/-- A notification leads to one write at most. -/
theorem turns_updateChat (currentUser : String) (d : ChatDevice) :
    (d.updateChat currentUser).1.turns currentUser + (d.updateChat currentUser).2.length ≤
      d.snapshots.length + Observer.notified d.board + 1 := by
  rw [updateChat, turns_markChatAsRead, turns]
  exact Nat.add_le_add_left (length_markChatAsRead ..) _

theorem Holds.updateChat (h : d.Holds person messages)
    (hmirror : ∀ chat ∈ d.board.mirror, KnownChat person messages chat) (currentUser : String) :
    Reaction currentUser person messages d.partner (d.updateChat currentUser) := by
  have hfound : ∀ chat, d.lookUpChat.chat = some chat →
      chat ∈ d.board.mirror ∧ d.partner = some chat.chatPartner.username := by
    intro chat hchat
    obtain ⟨before, hbefore, hfind⟩ := Option.bind_eq_some_iff.mp hchat
    have hequal : chat.chatPartner.isEqual before.chatPartner = true :=
      List.find?_some (p := fun c : DirectChat => c.chatPartner.isEqual before.chatPartner) hfind
    refine ⟨List.mem_of_find?_eq_some hfind, ?_⟩
    simp [ChatDevice.partner, hbefore, (User.isEqual_iff.mp hequal).1]
  have hholds : d.lookUpChat.Holds person messages :=
    ⟨h.snapshots, h.board, fun chat hchat => hmirror chat (hfound chat hchat).1⟩
  refine (hholds.markChatAsRead currentUser).mono fun name hname => ?_
  obtain ⟨chat, hchat, rfl⟩ := Option.map_eq_some_iff.mp hname
  exact (hfound chat hchat).2

theorem Holds.onBoard (h : d.Holds person messages)
    (hsnapshot : StoredById person messages snapshot) :
    (d.onBoard snapshot).Holds person messages := by
  refine ⟨h.snapshots, h.board.observe fun elements hreact e he item hitem => ?_, h.chat⟩
  simp only [fetchChats] at hreact
  split at hreact
  · rename_i dictionary hdictionary
    obtain rfl := Tree.asDictionary_eq_some hdictionary
    obtain rfl := Sum.inr.inj hreact
    obtain ⟨key, -, rfl⟩ := List.mem_map.mp he
    exact hsnapshot.knownDictionary hitem
  · cases hreact

theorem Holds.observe (h : d.Holds person messages)
    (hsnapshot : StoredById person messages snapshot) (currentUser : String) :
    Reaction currentUser person messages d.partner (d.observe currentUser snapshot) := by
  have hholds := h.onBoard hsnapshot
  unfold ChatDevice.observe
  split_ifs with hanswered
  · refine hholds.updateChat (fun chat hchat => ?_) currentUser
    -- nothing is published without a dictionary
    have hmirror : (d.onBoard snapshot).board.mirror = [] := by
      simp only [ChatDevice.onBoard, Observer.observe, fetchChats] at hanswered ⊢
      cases hdictionary : Tree.asDictionary snapshot with
      | none => rfl
      | some dictionary =>
        rw [hdictionary] at hanswered
        cases hanswered
    rw [hmirror] at hchat
    cases hchat
  · exact reaction_nothing hholds

theorem turns_observe (currentUser : String) (d : ChatDevice) (snapshot : Tree) :
    (d.observe currentUser snapshot).1.turns currentUser +
      (d.observe currentUser snapshot).2.length ≤ d.turns currentUser + 1 := by
  have hnotified := Observer.notified_observe (O := fetchChats) d.board snapshot
  unfold observe
  split_ifs with hanswered
  · have hturns := turns_updateChat currentUser (d.onBoard snapshot)
    rw [if_pos hanswered] at hnotified
    simp only [turns, onBoard] at hturns ⊢
    omega
  · rw [if_neg hanswered] at hnotified
    have hmark : ((d.onBoard snapshot).markChatAsRead currentUser).2 =
        (d.markChatAsRead currentUser).2 := rfl
    simp only [turns, hmark, List.length_nil]
    simp only [onBoard]
    omega

/-! A device that is handed something reacts to it, which takes no turn it did not have. -/

theorem Holds.observed (h : d.Holds person messages) {snapshots : List Tree}
    (hsnapshots : d.snapshots = snapshot :: snapshots) (currentUser : String) :
    Reaction currentUser person messages d.partner
        (({ d with snapshots } : ChatDevice).observe currentUser snapshot) ∧
      (({ d with snapshots } : ChatDevice).observe currentUser snapshot).1.turns currentUser +
        (({ d with snapshots } : ChatDevice).observe currentUser snapshot).2.length ≤
          d.turns currentUser := by
  have hall := h.snapshots
  rw [hsnapshots] at hall
  have hrest : ({ d with snapshots } : ChatDevice).Holds person messages :=
    ⟨fun x hx => hall x (by simp [hx]), h.board, h.chat⟩
  refine ⟨hrest.observe (hall snapshot (by simp)) currentUser, ?_⟩
  refine (turns_observe currentUser { d with snapshots } snapshot).trans ?_
  simp only [turns, ChatDevice.markChatAsRead, hsnapshots, List.length_cons]
  omega

theorem Holds.returned (h : d.Holds person messages) {fork index : Nat} {response : Tree}
    {board : Board Tree (String × Tree) DirectChat (List DirectChat)}
    (hok : Observer.Permitted (fun _ => True) (SamePerson person) d.board
      (.returned fork index response))
    (hboard : fetchChats.step d.board (.returned fork index response) = some board)
    (currentUser : String) :
    Reaction currentUser person messages d.partner ({ d with board }, []) ∧
      ({ d with board } : ChatDevice).turns currentUser ≤ d.turns currentUser := by
  have hholds : ({ d with board } : ChatDevice).Holds person messages := by
    refine ⟨h.snapshots, ?_, h.chat⟩
    refine h.board.returned hok (fun item entry hitem hresponse hentry => ?_) hboard
    exact hitem.completion hresponse hentry
  refine ⟨reaction_nothing hholds, ?_⟩
  simp only [turns, ChatDevice.markChatAsRead, Observer.notified_returned hboard]
  exact Nat.le_refl _

theorem Holds.joined (h : d.Holds person messages) {fork : Nat}
    {board : Board Tree (String × Tree) DirectChat (List DirectChat)}
    (hboard : fetchChats.step d.board (.joined fork) = some board) (currentUser : String) :
    Reaction currentUser person messages d.partner
        (({ d with board } : ChatDevice).updateChat currentUser) ∧
      (({ d with board } : ChatDevice).updateChat currentUser).1.turns currentUser +
        (({ d with board } : ChatDevice).updateChat currentUser).2.length ≤
          d.turns currentUser := by
  obtain ⟨hjoined, gathered, hgathered, hmirror⟩ := h.board.joined hboard
  have hholds : ({ d with board } : ChatDevice).Holds person messages :=
    ⟨h.snapshots, hjoined, h.chat⟩
  refine ⟨hholds.updateChat (fun chat hchat => ?_) currentUser, ?_⟩
  · rw [hmirror] at hchat
    exact hgathered chat (List.mem_mergeSort.mp hchat)
  · have hnotified := Observer.notified_joined hboard
    refine (turns_updateChat currentUser { d with board }).trans ?_
    simp only [turns]
    omega

/-- A snapshot that is raised is one turn more. -/
theorem turns_raise (currentUser : String) (d : ChatDevice) (before after : Tree) :
    (d.raise currentUser before after).turns currentUser =
      d.turns currentUser + if chatsDiffer currentUser before after then 1 else 0 := by
  unfold raise
  split_ifs
  · simp only [turns, List.length_append, List.length_singleton]
    simp only [markChatAsRead]
    omega
  · rfl

theorem partner_raise (currentUser : String) (d : ChatDevice) (before after : Tree) :
    (d.raise currentUser before after).partner = d.partner := by
  unfold raise
  split_ifs <;> rfl

theorem Holds.raise (h : d.Holds person messages) {before after : Tree}
    (hafter : ChatsById currentUser person messages after) :
    (d.raise currentUser before after).Holds person messages := by
  unfold ChatDevice.raise
  split_ifs
  · exact ⟨List.forall_mem_append.mpr ⟨h.snapshots, List.forall_mem_singleton.mpr hafter⟩,
      h.board, h.chat⟩
  · exact h

end ChatDevice

/-! ### Runs -/

namespace OpenChats

variable {Device : Type} [DecidableEq Device] {s s' : OpenChats Device} {i : Device}
variable {d : ChatDevice} {writes : List Write}

/-- Everything stored and on its way consists of known messages under their ids, and the devices
    hold known messages. -/
structure Consistent (currentUser : String) (person : String → String)
    (messages : List (String × Message)) (s : OpenChats Device) : Prop where
  database : s.database.Keeps (ChatsById currentUser person messages)
    (ChatWrite currentUser person messages)
  device : ∀ i, (s.device i).Holds person messages

/-- Only conversations with these partners are open. -/
def Within (names : List String) (s : OpenChats Device) : Prop :=
  ∀ i name, (s.device i).partner = some name → name ∈ names

/-- The record found under a name is that of the same person, and a message that is sent is one
    of those there are. -/
def Allowed (person : String → String) (messages : List (String × Message))
    (s : OpenChats Device) : ChatEvent Device → Prop
  | .returned i fork index response =>
      Observer.Permitted (fun _ => True) (SamePerson person) (s.device i).board
        (.returned fork index response)
  | .messageSent _ chatPartner m => Known person messages chatPartner m
  | _ => True

theorem forall_update {P : ChatDevice → Prop} (h : ∀ j, P (s.device j)) (hd : P d) (j : Device) :
    P (Function.update s.device i d j) :=
  (Function.forall_update_iff s.device fun _ d => P d).mpr ⟨hd, fun j _ => h j⟩ j

theorem Consistent.issue (hone : OneMessage messages)
    (h : s.Consistent currentUser person messages) (hd : d.Holds person messages)
    (hwrites : ∀ w ∈ writes, ChatWrite currentUser person messages w) :
    (s.issue currentUser i d writes).Consistent currentUser person messages := by
  have hdatabase : ∀ (writes : List Write) (database : Replicated Device Write Tree),
      (∀ w ∈ writes, ChatWrite currentUser person messages w) →
      database.Keeps (ChatsById currentUser person messages)
        (ChatWrite currentUser person messages) →
      (writes.foldl (fun database w => database.issue i w) database).Keeps
        (ChatsById currentUser person messages) (ChatWrite currentUser person messages) := by
    intro writes
    induction writes with
    | nil => exact fun _ _ hkeeps => hkeeps
    | cons w rest ih =>
      intro database hall hkeeps
      exact ih _ (fun w' hw' => hall w' (by simp [hw'])) (hkeeps.issue (hall w (by simp)))
  have hkeeps := hdatabase writes s.database hwrites h.database
  refine ⟨hkeeps, forall_update h.device (hd.raise ?_)⟩
  exact (hkeeps.replica i).view fun w t hw ht => ht.apply hone hw

theorem Consistent.react (hone : OneMessage messages)
    (h : s.Consistent currentUser person messages) {shown : Option String}
    {r : ChatDevice × List Write}
    (hr : ChatDevice.Reaction currentUser person messages shown r) :
    (s.react currentUser i r).Consistent currentUser person messages := by
  have hissue := h.issue (i := i) hone hr.holds fun w hw => by
    obtain ⟨name, -, unread, hknown, rfl⟩ := hr.marking w hw
    exact .read hknown
  exact ⟨hissue.database, hissue.device⟩

theorem Consistent.write (hone : OneMessage messages)
    (h : s.Consistent currentUser person messages) {w : Write}
    (hw : ChatWrite currentUser person messages w) (device : Option Device) :
    (s.write currentUser device w).Consistent currentUser person messages := by
  cases device with
  | some i => exact h.issue hone (h.device i) (List.forall_mem_singleton.mpr hw)
  | none => exact ⟨h.database.commit (fun w t hw ht => ht.apply hone hw) hw, h.device⟩

/-- What a device does when it is handed something. -/
theorem step_cases {e : ChatEvent Device}
    (h : s.Consistent currentUser person messages) (hok : Allowed person messages s e)
    (hst : s.step currentUser e = some s') :
    (∃ i r, s' = s.react currentUser i r ∧
      ChatDevice.Reaction currentUser person messages (s.device i).partner r ∧
      r.1.turns currentUser + r.2.length ≤ (s.device i).turns currentUser) ∨
    (∃ i database, s.database.arrive Write.apply (changesChats currentUser) i = some database ∧
      s' = { s with database }) ∨
    (∃ i database, s.database.receive Write.apply i = some database ∧
      s' = { s with
        database
        device := Function.update s.device i ((s.device i).raise currentUser (s.view i)
          ((database.replica i).view Write.apply)) }) ∨
    ∃ device w, e.isOutside = true ∧ ChatWrite currentUser person messages w ∧
      s' = s.write currentUser device w := by
  cases e with
  | observed i =>
    simp only [step] at hst
    split at hst
    · cases hst
    · rename_i snapshot snapshots hsnapshots
      obtain ⟨hreaction, hturns⟩ := (h.device i).observed hsnapshots currentUser
      exact Or.inl ⟨i, _, (Option.some.inj hst).symm, hreaction, hturns⟩
  | returned i fork index response =>
    obtain ⟨board, hboard, rfl⟩ := Option.map_eq_some_iff.mp hst
    obtain ⟨hreaction, hturns⟩ := (h.device i).returned hok hboard currentUser
    exact Or.inl ⟨i, _, rfl, hreaction, hturns⟩
  | joined i fork =>
    obtain ⟨board, hboard, rfl⟩ := Option.map_eq_some_iff.mp hst
    obtain ⟨hreaction, hturns⟩ := (h.device i).joined hboard currentUser
    exact Or.inl ⟨i, _, rfl, hreaction, hturns⟩
  | viewDidAppear i =>
    exact Or.inl ⟨i, _, (Option.some.inj hst).symm, (h.device i).markChatAsRead _,
      (ChatDevice.turns_markChatAsRead ..).le⟩
  | arrived i =>
    obtain ⟨database, hdatabase, rfl⟩ := Option.map_eq_some_iff.mp hst
    exact Or.inr (Or.inl ⟨i, database, hdatabase, rfl⟩)
  | received i =>
    obtain ⟨database, hdatabase, rfl⟩ := Option.map_eq_some_iff.mp hst
    exact Or.inr (Or.inr (Or.inl ⟨i, database, hdatabase, rfl⟩))
  | messageSent device chatPartner m =>
    exact Or.inr (Or.inr (Or.inr ⟨device, _, rfl, .message hok, (Option.some.inj hst).symm⟩))
  | chatDeleted device chatPartner =>
    exact Or.inr (Or.inr (Or.inr ⟨device, _, rfl, .deleted chatPartner,
      (Option.some.inj hst).symm⟩))

theorem Consistent.step {e : ChatEvent Device} (hone : OneMessage messages)
    (h : s.Consistent currentUser person messages) (hok : Allowed person messages s e)
    (hst : s.step currentUser e = some s') : s'.Consistent currentUser person messages := by
  have hkeep : ∀ w t, ChatWrite currentUser person messages w →
      ChatsById currentUser person messages t → ChatsById currentUser person messages (w.apply t) :=
    fun w t hw ht => ht.apply hone hw
  rcases step_cases h hok hst with ⟨i, r, rfl, hr, -⟩ | ⟨i, database, hdatabase, rfl⟩ |
    ⟨i, database, hdatabase, rfl⟩ | ⟨device, w, -, hw, rfl⟩
  · exact h.react hone hr
  · exact ⟨h.database.arrive hkeep hdatabase, h.device⟩
  · have hkeeps := h.database.receive hkeep hdatabase
    exact ⟨hkeeps, forall_update h.device ((h.device i).raise ((hkeeps.replica i).view hkeep))⟩
  · exact h.write hone hw device

theorem Within.step {e : ChatEvent Device}
    (h : s.Consistent currentUser person messages) (hnames : s.Within names)
    (hok : Allowed person messages s e) (hst : s.step currentUser e = some s') :
    s'.Within names := by
  have hraise : ∀ (i : Device) (d : ChatDevice) (before after : Tree),
      (∀ name, d.partner = some name → (s.device i).partner = some name) →
      ∀ j name, (Function.update s.device i (d.raise currentUser before after) j).partner =
        some name → name ∈ names := by
    intro i d before after hd
    refine forall_update (P := fun d => ∀ name, d.partner = some name → name ∈ names) hnames ?_
    intro name hname
    rw [ChatDevice.partner_raise] at hname
    exact hnames i name (hd name hname)
  rcases step_cases h hok hst with ⟨i, r, rfl, hr, -⟩ | ⟨i, database, -, rfl⟩ |
    ⟨i, database, -, rfl⟩ | ⟨device, w, -, -, rfl⟩
  · exact hraise i r.1 _ _ hr.partner
  · exact hnames
  · exact hraise i (s.device i) _ _ fun _ hname => hname
  · cases device with
    | some i => exact hraise i (s.device i) _ _ fun _ hname => hname
    | none => exact hnames

/-- Every device has just opened a conversation, and the first snapshot is due. -/
def opened (currentUser : String) (db : Tree) (chat : Device → Option DirectChat) :
    OpenChats Device where
  database := {
    store := db
    replica := fun _ => { base := db, sent := [], pending := [], updates := [] } }
  device := fun i => {
    snapshots := [db.sub (directChatsRef currentUser)]
    board := .initial []
    chat := chat i }
  written := []

omit [DecidableEq Device] in
theorem consistent_opened {db : Tree} (h : ChatsById currentUser person messages db)
    {chat : Device → Option DirectChat}
    (hchat : ∀ i c, chat i = some c → KnownChat person messages c) :
    (opened currentUser db chat).Consistent currentUser person messages where
  database := ⟨h, fun _ => ⟨h, by simp [opened], by simp [opened], by simp [opened]⟩⟩
  device := fun i => ⟨List.forall_mem_singleton.mpr h, fun _ hf => (by cases hf), hchat i⟩

/-! ### The writes left -/

theorem turns_update {currentUser : String} {d : ChatDevice} (j : Device) (hj : j ≠ i) :
    (Function.update s.device i d j).turns currentUser = (s.device j).turns currentUser := by
  rw [Function.update_of_ne hj]

theorem turns_issue_nil (s : OpenChats Device) (i : Device) (d : ChatDevice) :
    ((s.issue currentUser i d []).device i).turns currentUser = d.turns currentUser := by
  have hraise := ChatDevice.turns_raise currentUser d (s.view i) (s.view i)
  rw [chatsDiffer_self] at hraise
  simp only [issue, Function.update_self]
  exact hraise

theorem turns_issue_one (s : OpenChats Device) (i : Device) (d : ChatDevice) (w : Write) :
    ((s.issue currentUser i d [w]).device i).turns currentUser = d.turns currentUser +
      if changesChats currentUser w ((s.database.replica i).view Write.apply) then 1 else 0 := by
  have hraise := ChatDevice.turns_raise currentUser d (s.view i)
    (((s.database.issue i w).replica i).view Write.apply)
  have hview : ((s.database.issue i w).replica i).view Write.apply = w.apply (s.view i) := by
    simp only [Replicated.issue, Function.update_self, Replica.view_issue, view]
  rw [hview] at hraise
  simp only [issue, Function.update_self, List.foldl_cons, List.foldl_nil, hview]
  exact hraise

section WritesLeft

variable [Fintype Device]

open Classical in
/-- How many writes the markings may still issue, if nobody sends or deletes anything. -/
noncomputable def writesLeft (currentUser : String) (names : List String)
    (person : String → String) (messages : List (String × Message)) (s : OpenChats Device) : Nat :=
  potential Write.apply (Marking currentUser names person messages)
    (unmet (StoredAsRead currentUser person) (names ×ˢ messages)) (names ×ˢ messages).length
    s.database fun i => (s.device i).turns currentUser

open Classical in
/-- A reaction pays for its write. -/
theorem writesLeft_react (hone : OneMessage messages) (hnames : s.Within names)
    {r : ChatDevice × List Write}
    (hr : ChatDevice.Reaction currentUser person messages (s.device i).partner r)
    (hturns : r.1.turns currentUser + r.2.length ≤ (s.device i).turns currentUser) :
    (s.react currentUser i r).writesLeft currentUser names person messages + r.2.length ≤
      s.writesLeft currentUser names person messages := by
  obtain ⟨d, writes⟩ := r
  match writes, hr.once with
  | [], _ =>
    refine potential_rest (i := i) ?_ turns_update
    exact (turns_issue_nil s i d).le.trans hturns
  | [w], _ =>
    obtain ⟨name, hname, hmarking⟩ := hr.marking w (by simp)
    refine potential_issue (settles_marking currentUser names person hone)
      ⟨name, hnames i name hname, hmarking⟩ ?_ turns_update
    have hpays : ((s.issue currentUser i d [w]).device i).turns currentUser + 1 ≤
        (s.device i).turns currentUser +
          if changesChats currentUser w ((s.database.replica i).view Write.apply) then 1
          else 0 := by
      have hturns' : d.turns currentUser + 1 ≤ (s.device i).turns currentUser := hturns
      rw [turns_issue_one]
      omega
    exact hpays

open Classical in
theorem writesLeft_write (hone : OneMessage messages) (w : Write) (device : Option Device) :
    (s.write currentUser device w).writesLeft currentUser names person messages ≤
      s.writesLeft currentUser names person messages +
        disturbance (names ×ˢ messages).length Device := by
  cases device with
  | some i =>
    refine potential_disturb (settles_marking currentUser names person hone) ?_ turns_update
    have honce : ((s.issue currentUser i (s.device i) [w]).device i).turns currentUser ≤
        (s.device i).turns currentUser + 1 := by
      rw [turns_issue_one]
      split_ifs <;> omega
    exact honce
  | none =>
    refine (potential_elsewhere (settles_marking currentUser names person hone) w _).trans ?_
    exact Nat.add_le_add_left (Nat.le_succ_of_le (Nat.le_add_right _ _)) _

open Classical in
/-- **A step** pays for its write, if it is not one of the user or of another account. -/
theorem writesLeft_step (hone : OneMessage messages)
    (h : s.Consistent currentUser person messages) (hnames : s.Within names)
    {e : ChatEvent Device} (hok : Allowed person messages s e)
    (hst : s.step currentUser e = some s') :
    s'.written.length + s'.writesLeft currentUser names person messages ≤
      s.written.length + s.writesLeft currentUser names person messages +
        if e.isOutside then disturbance (names ×ˢ messages).length Device else 0 := by
  have hsettles := settles_marking currentUser names person hone
  rcases step_cases h hok hst with ⟨i, r, rfl, hr, hturns⟩ | ⟨i, database, hdatabase, rfl⟩ |
    ⟨i, database, hdatabase, rfl⟩ | ⟨device, w, houtside, -, rfl⟩
  · have hreact := writesLeft_react hone hnames hr hturns
    have hwritten : (s.react currentUser i r).written.length = s.written.length + r.2.length :=
      List.length_append
    omega
  · have harrive := potential_arrive hsettles hdatabase fun i => (s.device i).turns currentUser
    simp only [writesLeft]
    omega
  · refine Nat.le_add_right_of_le (Nat.add_le_add_left ?_ _)
    refine potential_receive hsettles hdatabase ?_ (fun hview => ?_) turns_update
    · simp only [Function.update_self, ChatDevice.turns_raise]
      split_ifs <;> omega
    · simp only [Function.update_self, ChatDevice.turns_raise, hview, view, chatsDiffer_self,
        Bool.false_eq_true, if_false, Nat.add_zero]
      exact Nat.le_refl _
  · have hwrite : (s.write currentUser device w).writesLeft currentUser names person messages ≤
        s.writesLeft currentUser names person messages +
          disturbance (names ×ˢ messages).length Device := writesLeft_write hone w device
    have hwritten : (s.write currentUser device w).written = s.written := by
      cases device <;> rfl
    rw [hwritten, if_pos houtside]
    omega

/-- Along a run the writes are paid for. -/
theorem written_run (hone : OneMessage messages)
    (h : s.Consistent currentUser person messages) (hnames : s.Within names)
    {events : List (ChatEvent Device)}
    (run : Run (step currentUser) (Allowed person messages) s events s') :
    s'.written.length + s'.writesLeft currentUser names person messages ≤
      s.written.length + s.writesLeft currentUser names person messages +
        events.countP ChatEvent.isOutside * disturbance (names ×ˢ messages).length Device := by
  refine (run.history (fun done s' => s'.Consistent currentUser person messages ∧
    s'.Within names ∧
    s'.written.length + s'.writesLeft currentUser names person messages ≤
      s.written.length + s.writesLeft currentUser names person messages +
        done.countP ChatEvent.isOutside * disturbance (names ×ˢ messages).length Device)
    ?_ ⟨h, hnames, by simp⟩).2.2
  rintro done u e v ⟨hu, hwithin, hpaid⟩ hok hst
  refine ⟨hu.step hone hok hst, hwithin.step hu hok hst, ?_⟩
  have hstep := writesLeft_step hone hu hwithin hok hst
  rw [List.countP_append, List.countP_singleton, Nat.add_mul]
  split_ifs at hstep ⊢ <;> omega

end WritesLeft

/-- **The feedback loop issues only finitely many writes**, in whatever order the look-ups
    return and writes and updates arrive, if only finitely many messages are sent and chats
    deleted. -/
theorem feedback_finite [Fintype Device] {state : Nat → OpenChats Device}
    {event : Nat → ChatEvent Device} (hone : OneMessage messages)
    (hstart : (state 0).Consistent currentUser person messages)
    (hrun : ∀ k, Allowed person messages (state k) (event k) ∧
      (state k).step currentUser (event k) = some (state (k + 1)))
    (hfinite : {k | (event k).isOutside = true}.Finite) :
    ∃ bound, ∀ k, (state k).written.length ≤ bound := by
  obtain ⟨names, hnames⟩ : ∃ names, (state 0).Within names :=
    ⟨Finset.univ.toList.filterMap fun i => ((state 0).device i).partner, fun i name hname =>
      List.mem_filterMap.mpr ⟨i, by simp, hname⟩⟩
  refine ⟨(state 0).written.length + (state 0).writesLeft currentUser names person messages +
    hfinite.toFinset.card * disturbance (names ×ˢ messages).length Device, fun k => ?_⟩
  have hpaid := written_run hone hstart hnames (run_of_sequence hrun k)
  have hcount : ((List.range k).map event).countP ChatEvent.isOutside ≤
      hfinite.toFinset.card := by
    rw [List.countP_map, List.countP_eq_length_filter,
      ← List.toFinset_card_of_nodup (List.nodup_range.filter _)]
    refine Finset.card_le_card fun j hj => ?_
    simpa using (List.mem_filter.mp (List.mem_toFinset.mp hj)).2
  have hcost := Nat.mul_le_mul_right (disturbance (names ×ˢ messages).length Device) hcount
  omega

def hello : Message := newMessage "bobbob" "hello" 5 "-0"

/-- The message of bob is fetched and marked, and the chat deleted later; then the screen appears
    again and again. -/
def helloEvent : Nat → ChatEvent (Fin 1)
  | 0 => .observed 0
  | 1 => .returned 0 0 0 (record "bobbob")
  | 2 => .joined 0 0
  | 3 => .arrived 0
  | 4 => .chatDeleted (some 0) "bobbob"
  | _ => .viewDidAppear 0

def helloState : Nat → OpenChats (Fin 1)
  | 0 => opened "alice1" ((storeMessage "alice1" "bobbob" hello).apply .empty)
      fun _ => some ⟨somebody "bobbob", []⟩
  | k + 1 => ((helloState k).step "alice1" (helloEvent k)).getD (helloState k)

theorem helloState_step (k : Nat) :
    (helloState k).step "alice1" (helloEvent k) = some (helloState (k + 1)) := by
  have hsome : ((helloState k).step "alice1" (helloEvent k)).isSome := by
    by_cases hk : k < 5
    · have hall : ∀ k < 5, ((helloState k).step "alice1" (helloEvent k)).isSome := by
        decide +kernel
      exact hall k hk
    · obtain ⟨j, rfl⟩ := Nat.exists_eq_add_of_le (Nat.le_of_not_lt hk)
      rw [Nat.add_comm]
      rfl
  obtain ⟨t, ht⟩ := Option.isSome_iff_exists.mp hsome
  rw [helloState, ht]
  rfl

theorem feedback_finite_hello : (helloState 5).written.length = 1 ∧
    ∃ bound, ∀ k, (helloState k).written.length ≤ bound := by
  have hknown : Known (fun _ => "") [("", hello.markAsRead)] "bobbob" hello := by
    simp [Known]
  have hone : OneMessage [("", hello.markAsRead)] := by
    simp [OneMessage]
  have hempty : ChatsById "alice1" (fun _ => "") [("", hello.markAsRead)] .empty := by
    rw [chatsById_iff]
    intro name key hhas
    cases hhas
  have hstart : (helloState 0).Consistent "alice1" (fun _ => "") [("", hello.markAsRead)] := by
    refine consistent_opened (hempty.apply hone (.message hknown)) ?_
    rintro i c ⟨rfl⟩ m hm
    cases hm
  have hallowed : ∀ k, Allowed (fun _ => "") [("", hello.markAsRead)] (helloState k)
      (helloEvent k) := by
    rintro (_ | _ | _ | _ | _ | k)
    case succ.zero => exact fun _ _ _ _ _ _ => rfl
    all_goals trivial
  have hfinite : {k | (helloEvent k).isOutside = true}.Finite := by
    refine (Set.finite_lt_nat 5).subset ?_
    rintro (_ | _ | _ | _ | _ | k) hk
    case succ.succ.succ.succ.succ => cases hk
    all_goals simp
  exact ⟨by decide +kernel,
    feedback_finite hone hstart (fun k => ⟨hallowed k, helloState_step k⟩) hfinite⟩

end OpenChats

end TeamUp
