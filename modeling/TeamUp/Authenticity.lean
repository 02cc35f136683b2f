import TeamUp.MessageOrder

/-!
# Authentic messages

Marking as read writes whole messages back from a local copy of any age, so a session
stores messages that others have sent.  As long as it marks what it was shown, every
message of a conversation is one that one of the two users sent to the other, with its
text and time, also when chats are deleted and teammates removed in between; and no
message is in a chat twice.
-/

namespace TeamUp

open Protocol

variable {client : Session} {w : Write} {catalogue : List Game} {a b : String}
variable {sent : List Message} {db : Tree} {s t : State}

/-! ### One copy -/

/-- The write stores messages that were sent, as far as it stores any in this copy. -/
structure Carries (sent : List Message) (a b : String) (w : Write) : Prop where
  message : ∀ m : Message, w = storeMessage a b m → m ∈ sent
  read : marksIn a b w = true → ∃ unread, w = storeRead a b unread ∧
    ∀ m ∈ unread, ∃ m₀ ∈ sent, m.markAsRead = m₀.markAsRead

theorem Carries.mono {sent' : List Message} (h : Carries sent a b w) (hsub : sent ⊆ sent') :
    Carries sent' a b w where
  message := fun m hm => hsub (h.message m hm)
  read := fun hmarks => by
    obtain ⟨unread, rfl, hread⟩ := h.read hmarks
    exact ⟨unread, rfl, fun m hm => (hread m hm).imp fun _ hm₀ => ⟨hsub hm₀.1, hm₀.2⟩⟩

/-- Storing a message again leaves its record as it was, but for the read flag. -/
theorem stores_again {m : Message} {r : Bool} (h : Stores db a b { m with read := r }) :
    Stores ((storeMessage a b m).apply db) a b m := by
  intro field
  have hlookup := m.lookup_asDictionary field
  cases hfield : m.field field with
  | none =>
    rw [hfield] at hlookup
    have hold : ({ m with read := r } : Message).field field = none := by
      fun_cases Message.field m field <;> simp_all [Message.field]
    exact (Write.leafAt_update_of_lookup_none hlookup []).trans ((h field).trans hold)
  | some value =>
    rw [hfield] at hlookup
    exact Write.leafAt_update_of_lookup m.nodup_asDictionary hlookup []

/-- **A copy goes on holding messages that were sent** when such are written to it, whichever
    record they meet. -/
theorem HoldsSent.apply (h : HoldsSent sent a b db) (hdistinct : (sent.map Message.id).Nodup)
    (happ : AppWrite client w) (hw : Carries sent a b w) : HoldsSent sent a b (w.apply db) := by
  intro k hk
  rw [happ.has_message] at hk
  cases htarget : (message a b k).target w with
  | none =>
    rw [htarget] at hk
    obtain ⟨m, hm, r, rfl, hstores⟩ := h k hk
    exact ⟨m, hm, r, rfl,
      (happ.stores_of_untouched (m := { m with read := r }) htarget).mpr hstores⟩
  | some x =>
    rcases happ.message_target htarget with
      ⟨-, m, rfl, rfl⟩ | ⟨-, unread, -, rfl⟩ | ⟨rfl, -⟩
    · have hm := hw.message m rfl
      refine ⟨m, hm, m.read, rfl, ?_⟩
      cases hhas : db.has (directChatRef a b ++ [m.id]) with
      | false => exact stores_message hhas
      | true =>
        obtain ⟨m', hm', r, hid, hstores⟩ := h m.id hhas
        obtain rfl := List.inj_on_of_nodup_map hdistinct hm' hm hid
        exact stores_again hstores
    · obtain ⟨unread', hsame, hread⟩ := hw.read (marksIn_storeRead a b unread)
      rw [hsame, message_target_read] at htarget
      split at htarget
      · rename_i hmem
        obtain ⟨-, m, hm, rfl⟩ := hmem
        obtain ⟨m', hm', hid, hstores⟩ : ∃ m' ∈ unread', m'.id = m.id ∧
            Stores ((storeRead a b unread').apply db) a b m'.markAsRead := stores_read hm
        obtain ⟨m₀, hm₀, hmark⟩ := hread m' hm'
        have hid₀ : m₀.id = m'.id := (congrArg Message.id hmark).symm
        rw [hmark] at hstores
        exact ⟨m₀, hm₀, true, hid₀.trans hid, hsame ▸ hstores⟩
      · cases htarget
    · rw [htarget] at hk
      cases hk

theorem HoldsSent.mono {sent' : List Message} (h : HoldsSent sent a b db) (hsub : sent ⊆ sent') :
    HoldsSent sent' a b db := by
  intro k hk
  obtain ⟨m, hm, hrest⟩ := h k hk
  exact ⟨m, hsub hm, hrest⟩

theorem HoldsSent.applyAll (h : HoldsSent sent a b db) (hdistinct : (sent.map Message.id).Nodup)
    {ws : List Write} (hws : ∀ w ∈ ws, AppWrite client w ∧ Carries sent a b w) :
    HoldsSent sent a b ((app catalogue).applyAll ws db) := by
  induction ws generalizing db with
  | nil => exact h
  | cons w rest ih =>
    obtain ⟨happ, hw⟩ := hws w List.mem_cons_self
    exact ih (h.apply hdistinct happ hw) fun w' hw' => hws w' (List.mem_cons_of_mem _ hw')

/-- What is stored decodes to a message that was sent. -/
theorem HoldsSent.stored {k : String} {m : Message} (h : HoldsSent sent a b db)
    (hm : storedMessage db a b k = some m) :
    m.id = k ∧ ∃ m₀ ∈ sent, m.markAsRead = m₀.markAsRead := by
  obtain ⟨m₀, hm₀, r, rfl, hstores⟩ := h k (has_of_storedMessage hm)
  have hsame : some m = some _ := hm.symm.trans hstores.decodes
  obtain rfl := Option.some.inj hsame
  exact ⟨rfl, m₀, hm₀, rfl⟩

/-! ### Runs -/

/-- A chat marked as read was decoded from a snapshot the session was shown at some time. -/
def marksShown (s : State) : Event → Bool
  | .start client (.markDirectChatMessagesAsRead chat) _ => s.decoded client chat
  | _ => true

/-- One copy of a conversation along a run, and what is on its way to it. -/
structure Authentic (sent : List Message) (a b : String) (s : State) : Prop where
  issued : Issued (fun client w => AppWrite client w ∧ Carries sent a b w) (fun _ _ _ => True) s
  stored : HoldsSent sent a b s.store
  distinct : (sent.map Message.id).Nodup
  minted : ∀ m ∈ sent, m.id ∈ s.minted
  seen : ∀ view ∈ s.seen, HoldsSent sent a b view.2

namespace Authentic

theorem initial {ids : List String} (hempty : db.has (directChatRef a b) = false) :
    Authentic [] a b (State.initial db ids) where
  issued := .of_quiescent ⟨rfl, rfl, rfl⟩
  stored := fun k hk => by
    obtain ⟨q, hq⟩ := PathTree.has_iff_leafAt.mp hk
    rw [List.append_assoc] at hq
    exact (hq (PathTree.leafAt_of_not_has hempty _)).elim
  distinct := List.nodup_nil
  minted := by simp
  seen := by simp [State.initial]

/-- A message of a chat that was decoded from what a session was shown was sent. -/
theorem of_decoded (h : Authentic sent a b s) {chat : DirectChat} (huser : client.user = a)
    (hpartner : chat.chatPartner.username = b) (hdecoded : s.decoded client chat = true)
    {m : Message} (hm : m ∈ chat.messages) : ∃ m₀ ∈ sent, m.markAsRead = m₀.markAsRead := by
  obtain ⟨view, hview, hshown⟩ := List.any_eq_true.mp hdecoded
  simp only [Bool.and_eq_true, decide_eq_true_eq, List.all_eq_true] at hshown
  obtain ⟨hclient, hall⟩ := hshown
  obtain ⟨key, -, hkey⟩ := List.mem_filterMap.mp (hall m hm)
  have hstored : storedMessage view.2 a b key = some m := by
    rw [storedMessage, ← PathTree.sub_sub, ← huser, ← hpartner]
    exact hkey
  exact ((h.seen view hview).stored hstored).2

/-- What an operation writes to the copy are messages that were sent, its own among them. -/
theorem carries (h : Authentic sent a b s) {op : Op} {id : String}
    (hshown : marksShown s (.start client op id) = true) (hw : w ∈ opWrites client op id) :
    Carries (sent ++ sentBy a b (.start client op id)) a b w where
  message := fun m hm => List.mem_append_right _ (sentBy_of_storeMessage (hm ▸ hw)).1
  read := fun hmarks => by
    obtain ⟨unread, rfl⟩ := (appWrite_of_mem hw).of_marksIn hmarks
    obtain ⟨chat, rfl, huser, hpartner, hsame⟩ := op_of_storeRead hw
    refine ⟨chat.unreadMessages (some client.user), ?_, fun m hm => ?_⟩
    · rw [storeRead, hsame, storeRead]
    · obtain ⟨m₀, hm₀, hmark⟩ := h.of_decoded huser hpartner hshown (List.mem_filter.mp hm).1
      exact ⟨m₀, List.mem_append_left _ hm₀, hmark⟩

theorem callback_carries (client : Session) (hw : CallbackWrite w) : Carries sent a b w where
  message := fun m hm => ((hw.away a b).1 m hm).elim
  read := fun hmarks => by
    have happ : AppWrite client w := .callback hw
    obtain ⟨unread, hread⟩ := happ.of_marksIn hmarks
    exact ((hw.away a b).2.1 unread hread).elim

theorem start (h : Authentic sent a b s) {op : Op} {id : String}
    (hshown : marksShown s (.start client op id) = true) (hfresh : id ∉ s.minted) :
    Authentic (sent ++ sentBy a b (.start client op id)) a b
      (s.issue client id (begin client op id)) := by
  have hsub := List.subset_append_left sent (sentBy a b (.start client op id))
  have hold : Issued (fun client' w => AppWrite client' w ∧
      Carries (sent ++ sentBy a b (.start client op id)) a b w) (fun _ _ _ => True) s :=
    h.issued.mono (fun _ _ hw => ⟨hw.1, hw.2.mono hsub⟩) fun _ _ _ _ => trivial
  refine ⟨hold.issue ⟨fun w hw => ?_, fun _ _ _ => trivial⟩ id, h.stored.mono hsub, ?_, ?_,
    fun view hview => (h.seen view hview).mono hsub⟩
  · have hmem : w ∈ opWrites client op id := writes_begin client op id ▸ mem_writes.mpr hw
    exact ⟨appWrite_of_mem hmem, h.carries hshown hmem⟩
  · rw [List.map_append]
    refine h.distinct.append (nodup_sentBy op id) fun k hk hk' => ?_
    obtain ⟨m, hm, rfl⟩ := List.mem_map.mp hk
    obtain ⟨m', hm', hid⟩ := List.mem_map.mp hk'
    exact hfresh ((of_sentBy hm').1 ▸ hid ▸ h.minted m hm)
  · intro m hm
    rcases List.mem_append.mp hm with hearlier | hnew
    · exact List.mem_cons_of_mem _ (h.minted m hearlier)
    · rw [(of_sentBy hnew).1]
      exact List.mem_cons_self

/-- **Every step keeps the messages authentic**, deletions and removals included. -/
theorem step (h : Authentic sent a b s) {e : Event} (hshown : marksShown s e = true)
    (hst : (app catalogue).step s e = some t) : Authentic (sent ++ sentBy a b e) a b t := by
  cases e with
  | start client op id =>
    obtain ⟨-, hfresh, rfl⟩ := step_start _ hst
    exact h.start hshown hfresh
  | deliver index =>
    obtain ⟨before, e, after, hout, -, rfl⟩ := step_deliver _ hst
    obtain ⟨happ, hcarries⟩ := h.issued.writes e (mem_of_split hout)
    simp only [sentBy, List.append_nil]
    refine ⟨⟨fun e' he' => h.issued.writes e' (rest_of_split hout he'), fun _ _ => trivial,
      fun _ _ => trivial⟩, h.stored.apply h.distinct happ hcarries, h.distinct, h.minted, h.seen⟩
  | serve index response =>
    obtain ⟨before, c, after, -, -, -, rfl⟩ := step_serve _ hst
    simp only [sentBy, List.append_nil]
    exact ⟨⟨h.issued.writes, fun _ _ => trivial, fun _ _ => trivial⟩, h.stored, h.distinct,
      h.minted, h.seen⟩
  | resume index id =>
    obtain ⟨before, answer, after, -, -, -, -, rfl⟩ := step_resume _ hst
    have hrest : Issued (fun client w => AppWrite client w ∧ Carries sent a b w)
        (fun _ _ _ => True) { s with answers := before ++ after } :=
      ⟨h.issued.writes, fun _ _ => trivial, fun _ _ => trivial⟩
    simp only [sentBy, List.append_nil]
    refine ⟨hrest.issue ⟨fun w hw => ?_, fun _ _ _ => trivial⟩ id, h.stored, h.distinct,
      fun m hm => List.mem_cons_of_mem _ (h.minted m hm), h.seen⟩
    have hcallback := callbackWrite_of_mem hw
    exact ⟨.callback hcallback, callback_carries answer.client hcallback⟩
  | observe client =>
    obtain rfl := step_observe _ hst
    simp only [sentBy, List.append_nil]
    refine ⟨⟨h.issued.writes, fun _ _ => trivial, fun _ _ => trivial⟩, h.stored, h.distinct,
      h.minted, fun view hview => ?_⟩
    rcases List.mem_append.mp hview with hold | hnew
    · exact h.seen view hold
    · rw [List.mem_singleton.mp hnew]
      have hown : ∀ w ∈ (s.outstanding.filter fun e => e.client = client).map Issue.write,
          AppWrite client w ∧ Carries sent a b w := by
        intro w hw
        obtain ⟨e, he, rfl⟩ := List.mem_map.mp hw
        obtain ⟨hmem, hclient⟩ := List.mem_filter.mp he
        exact of_decide_eq_true hclient ▸ h.issued.writes e hmem
      exact h.stored.applyAll h.distinct hown

theorem of_run (hempty : db.has (directChatRef a b) = false) {ids : List String}
    {events : List Event} (run : (app catalogue).Run (fun s e => marksShown s e = true)
      (State.initial db ids) events t) : Authentic (sentBetween a b events) a b t := by
  refine run.history (fun done u => Authentic (sentBetween a b done) a b u) ?_ (initial hempty)
  intro done u e v hu hok hst
  have hstep := hu.step hok hst
  rwa [sentBetween, List.flatMap_append, List.flatMap_singleton]

end Authentic

/-! ### Chats -/

/-- One of the two users sent the message to the other, but for the read flag. -/
def SentBetween (a b : String) (events : List Event) (m : Message) : Prop :=
  ∃ client text partner timestamp,
    .start client (.sendDirectMessage text partner timestamp) m.id ∈ events ∧
      SamePair client.user partner.username a b ∧
      m = { newMessage client.user text timestamp m.id with read := m.read }

theorem sentBetween_of_mem {events : List Event} {m m₀ : Message}
    (hm₀ : m₀ ∈ sentBetween a b events) (hmark : m.markAsRead = m₀.markAsRead) :
    SentBetween a b events m := by
  obtain ⟨e, he, hsent⟩ := List.mem_flatMap.mp hm₀
  obtain ⟨text, imageUrl, fromUser, timestamp, read, id⟩ := m
  simp only [Message.markAsRead] at hmark
  cases e with
  | start client op id' =>
    cases op with
    | sendDirectMessage text' partner timestamp' =>
      simp only [sentBy] at hsent
      split at hsent
      · rename_i hpair
        obtain rfl := List.mem_singleton.mp hsent
        simp only [newMessage, Message.mk.injEq, true_and] at hmark
        obtain ⟨rfl, rfl, rfl, rfl, rfl⟩ := hmark
        exact ⟨client, text', partner, timestamp, he, hpair, rfl⟩
      · cases hsent
    | _ => cases hsent
  | _ => cases hsent

/-- **Every message of a chat is one that one of the two users sent to the other, and it is in
    the chat once**, in every chat a session may make of what it was ever shown, in runs with
    deletions, removals and late marks. -/
theorem messages_authentic (hempty : db.has (directChatRef a b) = false) {ids : List String}
    {events : List Event} (run : (app catalogue).Run (fun s e => marksShown s e = true)
      (State.initial db ids) events t) {view : Tree}
    (hview : view = t.store ∨ ∃ client, (client, view) ∈ t.seen) (partner : User) :
    let chat := DirectChat.ofDictionary partner (view.sub (directChatRef a b))
    (∀ m ∈ chat.messages, SentBetween a b events m) ∧ (chat.messages.map Message.id).Nodup := by
  have hauthentic := Authentic.of_run hempty run
  have hholds : HoldsSent (sentBetween a b events) a b view := by
    rcases hview with rfl | ⟨client, hseen⟩
    · exact hauthentic.stored
    · exact hauthentic.seen _ hseen
  have hdecode : ∀ {key m}, (Tree.get (view.sub (directChatRef a b)) key).asDictionary.bind
      Message.ofDictionary = some m → storedMessage view a b key = some m := by
    intro key m hm
    rw [storedMessage, ← PathTree.sub_sub]
    exact hm
  intro chat
  constructor
  · intro m hm
    obtain ⟨key, -, hkey⟩ := List.mem_filterMap.mp hm
    obtain ⟨-, m₀, hm₀, hmark⟩ := hholds.stored (hdecode hkey)
    exact sentBetween_of_mem hm₀ hmark
  · -- each message is under its id
    have hnodup : (view.sub (directChatRef a b)).keys.Nodup := List.nodup_dedup _
    simp only [chat, DirectChat.ofDictionary, List.map_filterMap]
    refine hnodup.filterMap fun key key' id hid hid' => ?_
    obtain ⟨m, hm, rfl⟩ := Option.map_eq_some_iff.mp hid
    obtain ⟨m', hm', hsame⟩ := Option.map_eq_some_iff.mp hid'
    rw [← (hholds.stored (hdecode hm)).1, ← (hholds.stored (hdecode hm')).1, hsame]

/-- Bob's second device marks alice's greeting after his first has deleted the chat: the
    greeting is back, and it is still hers. -/
def lateMarkOfGreeting : List Event :=
  [.start ⟨"alice1", 1⟩ (.sendDirectMessage "hi" (somebody "bobbob") 5) "-0",
    .deliver 0, .deliver 0, .observe ⟨"bobbob", 2⟩,
    .start ⟨"bobbob", 1⟩ (.deleteDirectChat ⟨somebody "alice1", []⟩) "-1", .deliver 0,
    .start ⟨"bobbob", 2⟩ (.markDirectChatMessagesAsRead
      ⟨somebody "alice1", [newMessage "alice1" "hi" 5 "-0"]⟩) "-2", .deliver 0]

theorem messages_authentic_lateMark :
    ∃ t, (app []).exec marksShown (State.initial PathTree.empty []) lateMarkOfGreeting = some t ∧
      (DirectChat.ofDictionary (somebody "alice1")
        (t.store.sub (directChatRef "bobbob" "alice1"))).messages ≠ [] ∧
      ∀ m ∈ (DirectChat.ofDictionary (somebody "alice1")
        (t.store.sub (directChatRef "bobbob" "alice1"))).messages,
        SentBetween "bobbob" "alice1" lateMarkOfGreeting m := by
  have hend : ((app []).exec marksShown (State.initial PathTree.empty [])
      lateMarkOfGreeting).map (fun t => (DirectChat.ofDictionary (somebody "alice1")
        (t.store.sub (directChatRef "bobbob" "alice1"))).messages) =
          some [(newMessage "alice1" "hi" 5 "-0").markAsRead] := by
    decide +kernel
  obtain ⟨t, ht, hmessages⟩ := Option.map_eq_some_iff.mp hend
  have run := run_of_exec (fun s e h => h) ht
  exact ⟨t, ht, by simp [hmessages],
    (messages_authentic rfl run (Or.inl rfl) (somebody "alice1")).1⟩

end TeamUp
