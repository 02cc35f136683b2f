import TeamUp.Teammates

/-!
# Conversations and teammates

Each of two users keeps a copy of their conversation.  Whether a copy holds any
message is a register that sending and marking as read set, and that deleting the
chat or removing the teammate clears.  With the teammate entries of
`TeamUp.Teammates` this gives: a conversation exists only between teammates, as
long as nobody writes to it while a removal is on its way.
-/

namespace TeamUp

open Protocol

variable {client : Session} {w : Write} {catalogue : List Game}

/-! ### One copy of a conversation -/

theorem has_of_mem_asDictionary {m : Message} {e : String × Tree} (he : e ∈ m.asDictionary) :
    e.2.has [] = true := by
  obtain ⟨text, imageUrl, fromUser, timestamp, read, id⟩ := m
  cases text <;> cases imageUrl <;>
    simp only [Message.asDictionary, List.append_nil, List.cons_append, List.nil_append,
      List.mem_cons, List.not_mem_nil, or_false] at he <;>
    rcases he with rfl | rfl | rfl | rfl | rfl | rfl <;> rfl

theorem has_asDictionary (m : Message) : (Tree.ofDictionary m.asDictionary).has [] = true :=
  PathTree.has_iff_leafAt.mpr ⟨["id"], by simp [m.leafAt_asDictionary, Message.field]⟩

theorem has_of_mem_readMessages {unread : List Message} {e : String × Tree}
    (he : e ∈ readMessages unread) : e.2.has [] = true := by
  obtain ⟨m, -, rfl⟩ := Dictionary.mem_of_mem_collect he
  exact has_asDictionary m.markAsRead

theorem readMessages_ne_nil {unread : List Message} (h : unread ≠ []) :
    readMessages unread ≠ [] := by
  obtain ⟨m, hm⟩ := List.exists_mem_of_ne_nil unread h
  intro hnil
  have hkey : m.id ∈ (readMessages unread).map Prod.fst := Dictionary.key_mem_collect hm
  rw [hnil] at hkey
  cases hkey

/-- Whether the copy that `a` keeps of the conversation with `b` holds anything. -/
def conversation (a b : String) : Register Tree Write Bool := presence (directChatRef a b)

theorem conversation_target_message (a b x y : String) (m : Message) :
    (conversation a b).target (storeMessage x y m) =
      if x = a ∧ y = b then some true else none := by
  by_cases h : x = a ∧ y = b
  · obtain ⟨rfl, rfl⟩ := h
    rw [if_pos ⟨rfl, rfl⟩]
    refine presence_target_within ?_ fun e he => ?_
    · simp [storeMessage, Write.puts, Message.asDictionary]
    · obtain ⟨f, hf, rfl⟩ := List.mem_map.mp he
      exact ⟨by simp, has_of_mem_asDictionary hf⟩
  · rw [if_neg h]
    refine presence_target_beside (Write.beside_of_ref ?_)
    simp only [Incomparable, Write.ref, storeMessage]
    refine ⟨fun hpre => ?_, fun hpre => h ?_⟩
    · exact absurd hpre.length_le (by simp)
    · simp only [List.cons_append, List.nil_append, List.cons_prefix_cons] at hpre
      exact ⟨hpre.2.1.symm, hpre.2.2.2.2.1.symm⟩

theorem conversation_target_read (a b x y : String) {unread : List Message} (hne : unread ≠ []) :
    (conversation a b).target (storeRead x y unread) =
      if x = a ∧ y = b then some true else none := by
  by_cases h : x = a ∧ y = b
  · obtain ⟨rfl, rfl⟩ := h
    rw [if_pos ⟨rfl, rfl⟩]
    refine presence_target_within ?_ fun e he => ?_
    · simpa [storeRead, Write.puts] using readMessages_ne_nil hne
    · obtain ⟨f, hf, rfl⟩ := List.mem_map.mp he
      exact ⟨by simp, has_of_mem_readMessages hf⟩
  · rw [if_neg h]
    refine presence_target_beside (Write.beside_of_ref ?_)
    simpa [Incomparable, Write.ref, storeRead, eq_comm, and_comm] using h

theorem conversation_target_drop (a b x y : String) :
    (conversation a b).target (dropChat x y) = if x = a ∧ y = b then some false else none := by
  by_cases h : x = a ∧ y = b <;>
    simp [conversation, presence, dropChat, Write.puts, presencePut, h]

theorem CallbackWrite.ref_beside (h : CallbackWrite w) (a b : String) :
    Incomparable w.ref (directChatRef a b) := by
  cases h <;> simp [Incomparable, Write.ref, TeamUp.addRequest]

theorem CallbackWrite.conversation_beside (h : CallbackWrite w) (a b : String) :
    w.Beside (directChatRef a b) := Write.beside_of_ref (h.ref_beside a b)

/-- A write of the app stores a message or messages as read, drops a chat, or lies
    beside all conversations. -/
theorem AppWrite.conversation_cases (h : AppWrite client w) :
    (∃ x y m, w = TeamUp.storeMessage x y m) ∨
      (∃ x y unread, unread ≠ [] ∧ w = TeamUp.storeRead x y unread) ∨
      (∃ x y, w = TeamUp.dropChat x y) ∨ ∀ a b, w.Beside (directChatRef a b) := by
  cases h with
  | storeMessage x y m => exact Or.inl ⟨x, y, m, rfl⟩
  | storeRead y unread hne => exact Or.inr (Or.inl ⟨client.user, y, unread, hne, rfl⟩)
  | dropChat x y => exact Or.inr (Or.inr (Or.inl ⟨x, y, rfl⟩))
  | storeField u value hfield =>
    refine Or.inr (Or.inr (Or.inr fun a b e he => ?_))
    rw [List.mem_singleton.mp he]
    simp only [profileFields, List.mem_cons, List.not_mem_nil, or_false] at hfield
    rcases hfield with rfl | rfl | rfl | rfl | rfl | rfl <;> simp [Incomparable]
  | callback hw => exact Or.inr (Or.inr (Or.inr hw.conversation_beside))
  | addTeammate | dropTeammate | dropRequest | dropPlaying =>
    refine Or.inr (Or.inr (Or.inr fun a b => Write.beside_of_ref ?_))
    simp [Incomparable, Write.ref, TeamUp.addTeammate, TeamUp.dropTeammate, TeamUp.dropRequest,
      TeamUp.dropPlaying]

theorem AppWrite.conversation_keepsBelow (h : AppWrite client w) (a b : String) :
    w.KeepsBelow (directChatRef a b) := by
  rcases h.conversation_cases with ⟨x, y, m, rfl⟩ | ⟨x, y, unread, -, rfl⟩ | ⟨x, y, rfl⟩ | hbeside
  · intro e he _
    obtain ⟨f, hf, rfl⟩ := List.mem_map.mp he
    exact Or.inr (has_of_mem_asDictionary hf)
  · intro e he _
    obtain ⟨f, hf, rfl⟩ := List.mem_map.mp he
    exact Or.inr (has_of_mem_readMessages hf)
  · intro e he hpre
    rw [List.mem_singleton.mp he] at hpre ⊢
    exact Or.inl (hpre.eq_of_length (by simp)).symm
  · exact (hbeside a b).keepsBelow

theorem conversation_follows (a b : String) :
    (conversation a b).Follows (app catalogue) (Write.KeepsBelow (directChatRef a b)) :=
  presence_follows rfl _

/-- The write stores something in the copy `x` keeps of the conversation with `y`. -/
def storesIn (x y : String) : Write → Bool
  | .updateChildValues ref _ => decide (directChatRef x y <+: ref)
  | _ => false

theorem AppWrite.conversation_target (h : AppWrite client w) {a b : String} {x : Bool}
    (hx : x ∈ (conversation a b).target w) :
    (storesIn a b w = true ∧ x = true) ∨ (w = TeamUp.dropChat a b ∧ x = false) := by
  rcases h.conversation_cases with
    ⟨u, v, m, rfl⟩ | ⟨u, v, unread, hne, rfl⟩ | ⟨u, v, rfl⟩ | hbeside
  · rw [conversation_target_message] at hx
    split at hx
    · rename_i huv
      exact Or.inl ⟨by simp [storesIn, TeamUp.storeMessage, huv], (Option.some.inj hx).symm⟩
    · cases hx
  · rw [conversation_target_read a b u v hne] at hx
    split at hx
    · rename_i huv
      exact Or.inl ⟨by simp [storesIn, TeamUp.storeRead, huv], (Option.some.inj hx).symm⟩
    · cases hx
  · rw [conversation_target_drop] at hx
    split at hx
    · rename_i huv
      exact Or.inr ⟨by rw [huv.1, huv.2], (Option.some.inj hx).symm⟩
    · cases hx
  · rw [conversation, presence_target_beside (hbeside a b)] at hx
    cases hx

/-! ### What operations do to a conversation -/

/-- A copy of a conversation once an operation and all its writes have run. -/
def conversationAfter (a b : String) (client : Session) (v : Bool) : Op → Bool
  | .sendDirectMessage _ partner _ =>
      if SamePair client.user partner.username a b then true else v
  | .markDirectChatMessagesAsRead chat =>
      if chat.hasNewMessages (some client.user) = true ∧
        client.user = a ∧ chat.chatPartner.username = b then true else v
  | .deleteDirectChat chat =>
      if client.user = a ∧ chat.chatPartner.username = b then false else v
  | .removeTeammate t => if SamePair client.user t.username a b then false else v
  | _ => v

theorem op_of_storesIn {op : Op} {id x y : String} (hw : w ∈ opWrites client op id)
    (hstores : storesIn x y w = true) :
    (∃ text partner timestamp, op = .sendDirectMessage text partner timestamp ∧
        SamePair client.user partner.username x y) ∨
      ∃ chat, op = .markDirectChatMessagesAsRead chat ∧
        chat.hasNewMessages (some client.user) = true ∧
        client.user = x ∧ chat.chatPartner.username = y := by
  cases op with
  | sendDirectMessage text partner timestamp =>
    refine Or.inl ⟨text, partner, timestamp, rfl, ?_⟩
    simp only [opWrites, List.mem_cons, List.not_mem_nil, or_false] at hw
    rcases hw with rfl | rfl
    · have h : x = client.user ∧ y = partner.username := by
        simpa [storesIn, storeMessage] using hstores
      exact Or.inl ⟨h.1.symm, h.2.symm⟩
    · have h : x = partner.username ∧ y = client.user := by
        simpa [storesIn, storeMessage] using hstores
      exact Or.inr ⟨h.1.symm, h.2.symm⟩
  | markDirectChatMessagesAsRead chat =>
    simp only [opWrites] at hw
    split at hw
    · cases hw
    · rename_i hunread
      rw [List.mem_singleton.mp hw] at hstores
      have h : x = client.user ∧ y = chat.chatPartner.username := by
        simpa [storesIn, storeRead] using hstores
      exact Or.inr ⟨chat, rfl, by simpa [DirectChat.hasNewMessages] using hunread,
        h.1.symm, h.2.symm⟩
  | requestPlayerToTeamUp | goOnlineForGame => cases hw
  | acceptTeammateRequest r =>
    simp only [opWrites, List.mem_cons, List.not_mem_nil, or_false] at hw
    rcases hw with rfl | rfl | rfl | rfl <;>
      simp [storesIn, addTeammate, dropRequest] at hstores
  | removeTeammate t =>
    simp only [opWrites, List.mem_cons, List.not_mem_nil, or_false] at hw
    rcases hw with rfl | rfl | rfl | rfl <;> cases hstores
  | declineTeammateRequest | deleteDirectChat | goOfflineForGame =>
    rw [List.mem_singleton.mp hw] at hstores
    cases hstores
  | updateBio | updateUserGames | editRegion | editMicStatus | setProfilePicture
  | fetchFCMToken | removeFCMToken =>
    rw [List.mem_singleton.mp hw] at hstores
    simp [storesIn, storeField] at hstores

theorem op_of_storeMessage {op : Op} {id x y : String} {m : Message}
    (hw : storeMessage x y m ∈ opWrites client op id) :
    ∃ text partner timestamp, op = .sendDirectMessage text partner timestamp ∧
      m = newMessage client.user text timestamp id ∧
      SamePair client.user partner.username x y := by
  have hstores : storesIn x y (storeMessage x y m) = true := by simp [storesIn, storeMessage]
  rcases op_of_storesIn hw hstores with ⟨text, partner, timestamp, rfl, hpair⟩ | ⟨chat, rfl, -⟩
  · refine ⟨text, partner, timestamp, rfl, ?_, hpair⟩
    have hdict : m.asDictionary = (newMessage client.user text timestamp id).asDictionary := by
      simp only [opWrites, storeMessage, List.mem_cons, Write.updateChildValues.injEq,
        List.not_mem_nil, or_false] at hw
      rcases hw with h | h <;> exact h.2
    have hdecode := congrArg (fun d => Message.ofDictionary (Tree.ofDictionary d)) hdict
    simpa [Message.ofDictionary_asDictionary] using hdecode
  · simp only [opWrites] at hw
    split at hw <;> simp [storeMessage, storeRead] at hw

theorem op_of_storeRead {op : Op} {id x y : String} {unread : List Message}
    (hw : storeRead x y unread ∈ opWrites client op id) :
    ∃ chat, op = .markDirectChatMessagesAsRead chat ∧
      client.user = x ∧ chat.chatPartner.username = y ∧
      readMessages unread = readMessages (chat.unreadMessages (some client.user)) := by
  have hstores : storesIn x y (storeRead x y unread) = true := by simp [storesIn, storeRead]
  rcases op_of_storesIn hw hstores with ⟨text, partner, timestamp, rfl, -⟩ | ⟨chat, rfl, -, hx, hy⟩
  · simp [opWrites, storeMessage, storeRead] at hw
  · refine ⟨chat, rfl, hx, hy, ?_⟩
    simp only [opWrites] at hw
    split at hw
    · cases hw
    · exact (Write.updateChildValues.inj (List.mem_singleton.mp hw)).2

theorem op_of_dropChat {op : Op} {id x y : String} (hw : dropChat x y ∈ opWrites client op id) :
    (∃ chat, op = .deleteDirectChat chat ∧
        client.user = x ∧ chat.chatPartner.username = y) ∨
      ∃ t, op = .removeTeammate t ∧ SamePair client.user t.username x y := by
  cases op with
  | deleteDirectChat chat =>
    have h : x = client.user ∧ y = chat.chatPartner.username := by
      simpa [opWrites, dropChat] using hw
    exact Or.inl ⟨chat, rfl, h.1.symm, h.2.symm⟩
  | removeTeammate t =>
    refine Or.inr ⟨t, rfl, ?_⟩
    simp only [opWrites, dropTeammate, dropChat, List.mem_cons, Write.removeValue.injEq,
      List.cons_append, List.nil_append, List.cons.injEq, and_true, true_and,
      List.not_mem_nil, or_false] at hw
    rcases hw with h | h | h | h
    · simp at h
    · simp at h
    · exact Or.inl ⟨h.1.symm, h.2.symm⟩
    · exact Or.inr ⟨h.1.symm, h.2.symm⟩
  | markDirectChatMessagesAsRead chat =>
    simp only [opWrites] at hw
    split at hw <;> simp [dropChat, storeRead] at hw
  | _ =>
    simp [opWrites, addTeammate, dropRequest, dropChat, storeMessage, storeField,
      dropPlaying] at hw

theorem conversation_target_of_mem {op : Op} {id a b : String} {x : Bool}
    (hw : w ∈ opWrites client op id) (hx : x ∈ (conversation a b).target w) (v : Bool) :
    x = conversationAfter a b client v op := by
  rcases (appWrite_of_mem hw).conversation_target hx with ⟨hstores, rfl⟩ | ⟨rfl, rfl⟩
  · rcases op_of_storesIn hw hstores with ⟨text, partner, timestamp, rfl, hpair⟩ | ⟨chat, rfl, h⟩
    · simp only [conversationAfter, if_pos hpair]
    · simp only [conversationAfter, if_pos h]
  · rcases op_of_dropChat hw with ⟨chat, rfl, h⟩ | ⟨t, rfl, hpair⟩
    · simp only [conversationAfter, if_pos h]
    · simp only [conversationAfter, if_pos hpair]

theorem conversation_updateAll (op : Op) (id a b : String) (v : Bool) :
    (conversation a b).updateAll v (opWrites client op id) =
      conversationAfter a b client v op := by
  refine Register.updateAll_eq _ (fun w hw x hx => conversation_target_of_mem hw hx v) ?_
  intro hnone
  cases op with
  | sendDirectMessage text partner timestamp =>
    refine if_neg fun hpair => ?_
    rcases hpair with ⟨rfl, rfl⟩ | ⟨rfl, rfl⟩
    · have htouched := hnone (storeMessage client.user partner.username
        (newMessage client.user text timestamp id)) (by simp [opWrites])
      simp [conversation_target_message] at htouched
    · have htouched := hnone (storeMessage partner.username client.user
        (newMessage client.user text timestamp id)) (by simp [opWrites])
      simp [conversation_target_message] at htouched
  | markDirectChatMessagesAsRead chat =>
    refine if_neg ?_
    rintro ⟨hnew, rfl, rfl⟩
    have hunread : chat.unreadMessages (some client.user) ≠ [] := by
      simpa [DirectChat.hasNewMessages] using hnew
    have htouched := hnone (storeRead client.user chat.chatPartner.username
      (chat.unreadMessages (some client.user))) (by simp [opWrites, hunread])
    simp [conversation_target_read _ _ _ _ hunread] at htouched
  | deleteDirectChat chat =>
    refine if_neg ?_
    rintro ⟨rfl, rfl⟩
    have htouched := hnone (dropChat client.user chat.chatPartner.username) (by simp [opWrites])
    simp [conversation_target_drop] at htouched
  | removeTeammate t =>
    refine if_neg fun hpair => ?_
    rcases hpair with ⟨rfl, rfl⟩ | ⟨rfl, rfl⟩
    · have htouched := hnone (dropChat client.user t.username) (by simp [opWrites])
      simp [conversation_target_drop] at htouched
    · have htouched := hnone (dropChat t.username client.user) (by simp [opWrites])
      simp [conversation_target_drop] at htouched
  | _ => rfl

theorem conversation_unaffected (a b : String) :
    (conversation a b).Unaffected (app catalogue) where
  resume := fun _ _ _ _ _ hw =>
    presence_target_beside ((callbackWrite_of_mem hw).conversation_beside a b)
  effect := fun _ _ _ _ => rfl

/-! ### Runs -/

/-- The two are teammates, and no write of a removal between them is on its way. -/
def Befriended (s : State) (x y : String) : Prop :=
  s.store.has (teammatesRef x ++ [y]) = true ∧
    ∀ e ∈ s.outstanding,
      e.write ∉ [dropTeammate x y, dropTeammate y x, dropChat x y, dropChat y x]

/-- Messages are sent and read only between users who are teammates and stay so,
    and a teammate is removed only when no other session is writing to the
    conversation. -/
def Unopposed (s : State) : Event → Prop
  | .start client (.sendDirectMessage _ partner _) _ => Befriended s client.user partner.username
  | .start client (.markDirectChatMessagesAsRead chat) _ =>
      Befriended s client.user chat.chatPartner.username
  | .start client (.removeTeammate t) _ =>
      ∀ e ∈ s.outstanding, e.client ≠ client →
        storesIn client.user t.username e.write = false ∧
          storesIn t.username client.user e.write = false
  | _ => True

instance (s : State) (e : Event) : Decidable (Unopposed s e) := by
  rcases e with ⟨_, _ | _, _⟩ | _ <;> dsimp only [Unopposed, Befriended] <;> infer_instance

/-- Accepting, removing, sending and marking as read, each from a list the session
    was shown at some time. -/
def conversationOps (s : State) : Event → Bool
  | .start client (.acceptTeammateRequest r) _ =>
      s.shown client (teammateRequestsRef client.user) r.username
  | .start client (.removeTeammate t) _ => s.shown client (teammatesRef client.user) t.username
  | .start client (.sendDirectMessage _ partner _) _ =>
      s.shown client (teammatesRef client.user) partner.username ||
        s.shown client (directChatsRef client.user) partner.username
  | .start client (.markDirectChatMessagesAsRead chat) _ => s.decoded client chat
  | .start _ _ _ => false
  | _ => true

/-- Besides the settled teammate relation: a settled conversation is one between
    teammates. -/
structure ConversationsSettled (s : State) : Prop where
  teammates : TeammatesSettled s
  agrees : ∀ a b, (conversation a b).Agrees s
  befriended : ∀ a b, (conversation a b).settled s = true → (teammate a b).settled s = true

theorem Befriended.settled {s : State} {x y : String}
    (hissued : Issued AppWrite (fun _ _ _ => True) s) (h : Befriended s x y) :
    (teammate x y).settled s = true := by
  have hstored : (teammate x y).read s.store = true := h.1
  rw [Register.settled, hstored]
  refine Register.updateAll_of_agree _ fun w hw v hv => ?_
  obtain ⟨e, he, rfl⟩ := List.mem_map.mp hw
  rcases (hissued.writes e he).teammate_target hv with ⟨-, rfl⟩ | ⟨hdrop, -⟩
  · rfl
  · exact (h.2 e he (by simp [hdrop])).elim

theorem Befriended.settled_of_pair {s : State} {x y a b : String} (hs : TeammatesSettled s)
    (h : Befriended s x y) (hpair : SamePair x y a b) : (teammate a b).settled s = true := by
  rcases hpair with ⟨rfl, rfl⟩ | ⟨rfl, rfl⟩
  · exact h.settled hs.issued
  · rw [hs.symmetric]
    exact h.settled hs.issued

theorem Befriended.not_dropChat {s : State} {x y a b : String} (h : Befriended s x y)
    (hpair : SamePair x y a b) {e : Issue Session Write} (he : e ∈ s.outstanding) :
    e.write ≠ dropChat a b := by
  intro heq
  rcases hpair with ⟨rfl, rfl⟩ | ⟨rfl, rfl⟩ <;> exact h.2 e he (by simp [heq])

theorem Unopposed.agrees {s : State} {op : Op} {id : String}
    (hissued : Issued AppWrite (fun _ _ _ => True) s)
    (hops : conversationOps s (.start client op id) = true)
    (h : Unopposed s (.start client op id)) (a b : String) :
    ∀ w, .write w ∈ begin client op id → ∀ e ∈ s.outstanding, e.client ≠ client →
      ∀ x ∈ (conversation a b).target w, ∀ y ∈ (conversation a b).target e.write, x = y := by
  intro w hw e he hne x hx y hy
  have hmem : w ∈ opWrites client op id := writes_begin client op id ▸ mem_writes.mpr hw
  rcases (appWrite_of_mem hmem).conversation_target hx with ⟨hstores, rfl⟩ | ⟨rfl, rfl⟩ <;>
    rcases (hissued.writes e he).conversation_target hy with ⟨hother, rfl⟩ | ⟨heq, rfl⟩
  · rfl
  · rcases op_of_storesIn hmem hstores with ⟨text, partner, timestamp, rfl, hpair⟩ | ⟨chat, rfl, hc⟩
    · have hfriends : Befriended s client.user partner.username := h
      exact (hfriends.not_dropChat hpair he heq).elim
    · have hfriends : Befriended s client.user chat.chatPartner.username := h
      exact (hfriends.not_dropChat (Or.inl hc.2) he heq).elim
  · rcases op_of_dropChat hmem with ⟨chat, rfl, -⟩ | ⟨t, rfl, hpair⟩
    · cases hops
    · obtain ⟨h₁, h₂⟩ := h e he hne
      rcases hpair with ⟨rfl, rfl⟩ | ⟨rfl, rfl⟩
      · rw [h₁] at hother
        cases hother
      · rw [h₂] at hother
        cases hother
  · rfl

theorem ConversationsSettled.step {s t : State} {e : Event} (h : ConversationsSettled s)
    (hops : conversationOps s e = true) (horder : InOrder s e) (hundisturbed : Undisturbed s e)
    (hunopposed : Unopposed s e) (hst : (app catalogue).step s e = some t) :
    ConversationsSettled t := by
  have hissued := h.teammates.issued
  have hteammate : ∀ a b, (teammate a b).settled t = (teammate a b).updateAll
      ((teammate a b).settled s) (Register.startWrites (app catalogue) e) :=
    fun a b => Register.settled_step _ (teammate_follows a b)
      (fun e he => (hissued.writes e he).teammate_keepsBelow a b) (h.teammates.agrees a b)
      (teammate_unaffected a b) horder hst
  have hconversation : ∀ a b, (conversation a b).settled t = (conversation a b).updateAll
      ((conversation a b).settled s) (Register.startWrites (app catalogue) e) :=
    fun a b => Register.settled_step _ (conversation_follows a b)
      (fun e he => (hissued.writes e he).conversation_keepsBelow a b) (h.agrees a b)
      (conversation_unaffected a b) horder hst
  refine ⟨h.teammates.step horder hundisturbed hst, fun a b => ?_, fun a b => ?_⟩
  · refine (h.agrees a b).step _ (conversation_unaffected a b) (fun client op id he => ?_) hst
    subst he
    exact hunopposed.agrees hissued hops a b
  · rw [hteammate a b, hconversation a b]
    cases e with
    | start client op id =>
      have hwrites : Register.startWrites (app catalogue) (.start client op id) =
        opWrites client op id := writes_begin client op id
      rw [hwrites, teammate_updateAll, conversation_updateAll]
      intro hstored
      cases op with
      | acceptTeammateRequest r =>
        simp only [teammateAfter]
        split
        · rfl
        · exact h.befriended a b hstored
      | removeTeammate t =>
        simp only [teammateAfter, conversationAfter] at hstored ⊢
        split at hstored
        · cases hstored
        · rename_i hother
          rw [if_neg hother]
          exact h.befriended a b hstored
      | sendDirectMessage text partner timestamp =>
        simp only [conversationAfter] at hstored
        split at hstored
        · rename_i hpair
          have hfriends : Befriended s client.user partner.username := hunopposed
          exact hfriends.settled_of_pair h.teammates hpair
        · exact h.befriended a b hstored
      | markDirectChatMessagesAsRead chat =>
        simp only [conversationAfter] at hstored
        split at hstored
        · rename_i hnames
          have hfriends : Befriended s client.user chat.chatPartner.username := hunopposed
          exact hfriends.settled_of_pair h.teammates (Or.inl hnames.2)
        · exact h.befriended a b hstored
      | deleteDirectChat chat => cases hops
      | _ => exact h.befriended a b hstored
    | _ => exact h.befriended a b

/-- Whoever has stored messages with someone is their teammate, on both sides. -/
def OnlyTeammatesConverse (db : Tree) : Prop :=
  ∀ a b, db.has (directChatRef a b) = true →
    db.has (teammatesRef a ++ [b]) = true ∧ db.has (teammatesRef b ++ [a]) = true

/-- Users who are not teammates keep no conversation. -/
theorem OnlyTeammatesConverse.no_conversation {db : Tree} (h : OnlyTeammatesConverse db)
    {a b : String} (hnot : db.has (teammatesRef a ++ [b]) = false) :
    db.has (directChatRef a b) = false ∧ db.has (directChatRef b a) = false := by
  constructor
  · refine Bool.eq_false_iff.mpr fun hstored => ?_
    rw [(h a b hstored).1] at hnot
    cases hnot
  · refine Bool.eq_false_iff.mpr fun hstored => ?_
    rw [(h b a hstored).2] at hnot
    cases hnot

/-- **Only teammates have a conversation whenever nothing is outstanding**, in every
    run in which nobody writes to one while a removal is on its way, and opposite
    operations on one pair of users do not overlap. -/
theorem conversations_between_teammates {db : Tree} {ids : List String} {events : List Event}
    {t : State} (hdb : Symmetric db) (hchats : OnlyTeammatesConverse db)
    (run : (app catalogue).Run
      (fun s e => conversationOps s e = true ∧ InOrder s e ∧ Undisturbed s e ∧ Unopposed s e)
      (State.initial db ids) events t)
    (hrest : t.outstanding = []) :
    OnlyTeammatesConverse t.store ∧
      ∀ a b, t.store.has (teammatesRef a ++ [b]) = false →
        t.store.has (directChatRef a b) = false ∧ t.store.has (directChatRef b a) = false := by
  have hstart : ConversationsSettled (State.initial db ids) := by
    refine ⟨.of_quiescent ⟨rfl, rfl, rfl⟩ hdb, fun a b => ?_, fun a b => ?_⟩
    · simp [Register.Agrees, State.initial]
    · intro hstored
      exact (hchats a b hstored).1
  have hsettled : ConversationsSettled t := by
    refine run.invariant ConversationsSettled ?_ hstart
    exact fun u e v hu hok hst => hu.step hok.1 hok.2.1 hok.2.2.1 hok.2.2.2 hst
  have honly : OnlyTeammatesConverse t.store := by
    intro a b hstored
    have hab := hsettled.befriended a b
    rw [Register.settled_of_none_outstanding _ hrest,
      Register.settled_of_none_outstanding _ hrest] at hab
    have hsymm := hsettled.teammates.symmetric_of_rest hrest a b
    exact ⟨hab hstored, hsymm ▸ hab hstored⟩
  exact ⟨honly, fun a b hnot => honly.no_conversation hnot⟩

theorem onlyTeammatesConverse_requested : OnlyTeammatesConverse requested := by
  intro a b hstored
  have hbeside : Incomparable (teammateRequestsRef "bobbob" ++ ["alice1"]) (directChatRef a b) := by
    simp [Incomparable]
  rw [requested, PathTree.has_put_beside _ _ hbeside] at hstored
  cases hstored

/-- Bob writes to alice after he accepted her request. -/
def greeting : List Event :=
  acceptance ++ [.observe ⟨"bobbob", 1⟩,
    .start ⟨"bobbob", 1⟩ (.sendDirectMessage "hi" (somebody "alice1") 5) "-2",
    .deliver 0, .deliver 0]

theorem conversations_between_teammates_greeting :
    ∃ t, (app []).exec (fun s e => decide
        (conversationOps s e = true ∧ InOrder s e ∧ Undisturbed s e ∧ Unopposed s e))
      (State.initial requested []) greeting = some t ∧ OnlyTeammatesConverse t.store := by
  have hrest : ((app []).exec (fun s e => decide
      (conversationOps s e = true ∧ InOrder s e ∧ Undisturbed s e ∧ Unopposed s e))
      (State.initial requested []) greeting).map Config.outstanding = some [] := by
    decide +kernel
  obtain ⟨t, ht, hout⟩ := Option.map_eq_some_iff.mp hrest
  have run := run_of_exec (fun s e h => of_decide_eq_true h) ht
  exact ⟨t, ht, (conversations_between_teammates symmetric_requested
    onlyTeammatesConverse_requested run hout).1⟩

/-- Alice removes bob, whose chat screen is still open: everything she wrote has
    arrived when he sends another message. -/
def lateGreeting : List Event :=
  acceptance ++ [.observe ⟨"bobbob", 1⟩, .observe ⟨"alice1", 1⟩,
    .start ⟨"alice1", 1⟩ (.removeTeammate (somebody "bobbob")) "-2",
    .deliver 0, .deliver 0, .deliver 0, .deliver 0,
    .start ⟨"bobbob", 1⟩ (.sendDirectMessage "hi" (somebody "alice1") 5) "-3",
    .deliver 0, .deliver 0]

theorem not_only_teammates_converse :
    ¬ ∀ (db : Tree) (ids : List String) (events : List Event) (t : State),
      Symmetric db → OnlyTeammatesConverse db →
      (app []).Run (fun s e => conversationOps s e = true ∧ InOrder s e)
        (State.initial db ids) events t →
      t.outstanding = [] → OnlyTeammatesConverse t.store := by
  intro hall
  have hend : ((app []).exec (fun s e => decide (conversationOps s e = true ∧ InOrder s e))
      (State.initial requested []) lateGreeting).map (fun t => (t.outstanding,
        t.store.has (directChatRef "alice1" "bobbob"),
        t.store.has (teammatesRef "alice1" ++ ["bobbob"]))) = some ([], true, false) := by
    decide +kernel
  obtain ⟨t, ht, hout⟩ := Option.map_eq_some_iff.mp hend
  obtain ⟨hrest, hchat, hfriend⟩ : t.outstanding = [] ∧ _ = true ∧ _ = false := by
    simpa only [Prod.mk.injEq] using hout
  have run := run_of_exec (fun s e h => of_decide_eq_true h) ht
  have honly := hall requested [] lateGreeting t symmetric_requested
    onlyTeammatesConverse_requested run hrest
  rw [(honly "alice1" "bobbob" hchat).1] at hfriend
  cases hfriend

end TeamUp
