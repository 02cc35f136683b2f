import TeamUp.DeletedChats

/-!
# The two copies of a conversation

Every message is written to both copies, and marking as read replaces whole
records by local decodes of any age.  Without deletions this loses, repeats and
changes nothing but the read flag, in whatever order the writes arrive: `Copy`
says what one copy holds while some writes are still on their way, and every
write that arrives preserves it.
-/

namespace TeamUp

open Protocol

variable {client : Session} {w : Write} {catalogue : List Game} {a b k : String}

/-! ### Records -/

/-- The message `a` decodes from the record stored under a key. -/
def storedMessage (db : Tree) (a b k : String) : Option Message :=
  (Tree.asDictionary (db.sub (directChatRef a b ++ [k]))).bind Message.ofDictionary

/-- The record under the id of a message has exactly its fields. -/
def Stores (db : Tree) (a b : String) (m : Message) : Prop :=
  ∀ field, db.leafAt (directChatRef a b ++ [m.id, field]) = m.field field

theorem Stores.decodes {db : Tree} {m : Message} (h : Stores db a b m) :
    storedMessage db a b m.id = some m := by
  refine Message.decodes_of_field fun field => ?_
  rw [PathTree.leafAt_sub]
  exact h field

/-- Storing a message where nothing is stored yet. -/
theorem stores_message {db : Tree} {m : Message}
    (h : db.has (directChatRef a b ++ [m.id]) = false) :
    Stores ((storeMessage a b m).apply db) a b m := by
  intro field
  have hold : db.leafAt (directChatRef a b ++ [m.id] ++ [field]) = none :=
    PathTree.leafAt_of_not_has h [field]
  have hlookup := m.lookup_asDictionary field
  cases hfield : m.field field with
  | none =>
    rw [hfield] at hlookup
    exact (Write.leafAt_update_of_lookup_none hlookup []).trans hold
  | some value =>
    rw [hfield] at hlookup
    exact Write.leafAt_update_of_lookup m.nodup_asDictionary hlookup []

/-- Marking as read replaces the record of each message it marks. -/
theorem stores_read {db : Tree} {unread : List Message} {m : Message} (hm : m ∈ unread) :
    ∃ m' ∈ unread, m'.id = m.id ∧ Stores ((storeRead a b unread).apply db) a b m'.markAsRead := by
  have hkey : m.id ∈ (readMessages unread).map Prod.fst := Dictionary.key_mem_collect hm
  obtain ⟨e, he, hid⟩ := List.mem_map.mp hkey
  obtain ⟨m', hm', rfl⟩ := Dictionary.mem_of_mem_collect he
  refine ⟨m', hm', hid, fun field => ?_⟩
  have hnodup : ((readMessages unread).map Prod.fst).Nodup := Dictionary.nodup_collect unread
  have hnamed : ((storeRead a b unread).apply db).leafAt
      (directChatRef a b ++ [m'.id, field]) = _ :=
    Write.leafAt_update_named hnodup he [field]
  exact hnamed.trans (Message.leafAt_asDictionary m'.markAsRead field)

/-- A write that does not touch a message leaves its record alone. -/
theorem AppWrite.stores_of_untouched (h : AppWrite client w) {m : Message} {db : Tree}
    (htarget : (message a b m.id).target w = none) :
    Stores (w.apply db) a b m ↔ Stores db a b m := by
  have hbeside : w.Beside (directChatRef a b ++ [m.id]) :=
    beside_of_target_none (h.message_keepsBelow a b m.id) htarget
  have hsame : ∀ field, (w.apply db).leafAt (directChatRef a b ++ [m.id, field]) =
      db.leafAt (directChatRef a b ++ [m.id, field]) :=
    fun field => hbeside.leafAt db [field]
  simp only [Stores, hsame]

theorem has_of_storedMessage {db : Tree} {m : Message} (h : storedMessage db a b k = some m) :
    db.has (directChatRef a b ++ [k]) = true := by
  cases hhas : db.has (directChatRef a b ++ [k]) with
  | true => rfl
  | false =>
    have hempty : (db.sub (directChatRef a b ++ [k])).isEmpty = true := by
      simpa [PathTree.has] using hhas
    rw [storedMessage, Tree.asDictionary, hempty] at h
    cases h

/-! ### One copy -/

/-- What the copy `a` keeps of the conversation with `b` holds of the messages sent
    so far, while the given writes have not arrived. -/
structure Copy (sent : List Message) (a b : String) (db : Tree) (ws : List Write) : Prop where
  stored : ∀ k, db.has (directChatRef a b ++ [k]) = true →
    ∃ m ∈ sent, ∃ r, m.id = k ∧ Stores db a b { m with read := r }
  /-- A message on its way is not stored yet. -/
  pending : ∀ w ∈ ws, ∀ m : Message, w = storeMessage a b m →
    m ∈ sent ∧ db.has (directChatRef a b ++ [m.id]) = false
  once : ws.Pairwise fun w w' => ∀ m m' : Message,
    w = storeMessage a b m → w' = storeMessage a b m' → m.id ≠ m'.id
  /-- What is marked as read is a stored message. -/
  marked : ∀ w ∈ ws, marksIn a b w = true → ∃ unread, w = storeRead a b unread ∧
    ∀ m ∈ unread, db.has (directChatRef a b ++ [m.id]) = true ∧
      ∃ m₀ ∈ sent, m.markAsRead = m₀.markAsRead
  kept : ∀ w ∈ ws, w ≠ dropChat a b

namespace Copy

variable {sent : List Message} {db : Tree} {ws : List Write}

theorem sublist (h : Copy sent a b db ws) {ws' : List Write} (hsub : ws'.Sublist ws) :
    Copy sent a b db ws' where
  stored := h.stored
  pending := fun w hw => h.pending w (hsub.subset hw)
  once := h.once.sublist hsub
  marked := fun w hw => h.marked w (hsub.subset hw)
  kept := fun w hw => h.kept w (hsub.subset hw)

/-- What a write makes of the messages it touches. -/
theorem cases_target (h : Copy sent a b db ws) (hw : w ∈ ws) (happ : AppWrite client w) {x : Bool}
    (htarget : (message a b k).target w = some x) :
    x = true ∧ ((∃ m ∈ sent, m.id = k ∧ w = storeMessage a b m ∧
        db.has (directChatRef a b ++ [k]) = false) ∨
      (∃ m₀ ∈ sent, m₀.id = k ∧ db.has (directChatRef a b ++ [k]) = true ∧
        Stores (w.apply db) a b m₀.markAsRead)) := by
  rcases happ.message_target htarget with
    ⟨rfl, m, rfl, rfl⟩ | ⟨rfl, unread, -, hread⟩ | ⟨-, hdrop⟩
  · obtain ⟨hm, habsent⟩ := h.pending _ hw m rfl
    exact ⟨rfl, Or.inl ⟨m, hm, rfl, rfl, habsent⟩⟩
  · obtain ⟨unread', rfl, hall⟩ := h.marked w hw (by rw [hread]; exact marksIn_storeRead a b unread)
    rw [message_target_read] at htarget
    split at htarget
    · rename_i hmem
      obtain ⟨-, m, hm, rfl⟩ := hmem
      obtain ⟨m', hm', hid, hstores⟩ : ∃ m' ∈ unread', m'.id = m.id ∧
          Stores ((storeRead a b unread').apply db) a b m'.markAsRead := stores_read hm
      obtain ⟨hhas, m₀, hm₀, hsame⟩ := hall m' hm'
      have hid₀ : m'.markAsRead.id = m₀.markAsRead.id := congrArg Message.id hsame
      exact ⟨rfl, Or.inr ⟨m₀, hm₀, hid₀.symm.trans hid, hid ▸ hhas, hsame ▸ hstores⟩⟩
    · cases htarget
  · exact (h.kept w hw hdrop).elim

theorem has_mono (h : Copy sent a b db ws) (hw : w ∈ ws) (happ : AppWrite client w)
    (hhas : db.has (directChatRef a b ++ [k]) = true) :
    (w.apply db).has (directChatRef a b ++ [k]) = true := by
  rw [happ.has_message]
  cases htarget : (message a b k).target w with
  | none => exact hhas
  | some x => exact (h.cases_target hw happ htarget).1

/-- **A write that arrives preserves the copy**, whichever it is. -/
theorem apply {before after : List Write} (h : Copy sent a b db (before ++ w :: after))
    (happ : AppWrite client w) : Copy sent a b (w.apply db) (before ++ after) := by
  have hw : w ∈ before ++ w :: after := by simp
  have hsub := split_sublist before w after
  refine ⟨?_, ?_, h.once.sublist hsub, ?_, fun w' hw' => h.kept w' (hsub.subset hw')⟩
  · intro k hk
    cases htarget : (message a b k).target w with
    | none =>
      rw [happ.has_message, htarget] at hk
      obtain ⟨m, hm, r, rfl, hstores⟩ := h.stored k hk
      exact ⟨m, hm, r, rfl,
        (happ.stores_of_untouched (m := { m with read := r }) htarget).mpr hstores⟩
    | some x =>
      rcases (h.cases_target hw happ htarget).2 with
        ⟨m, hm, rfl, rfl, habsent⟩ | ⟨m₀, hm₀, rfl, -, hstores⟩
      · exact ⟨m, hm, m.read, rfl, stores_message habsent⟩
      · exact ⟨m₀, hm₀, true, rfl, hstores⟩
  · intro w' hw' m hm
    obtain ⟨hmem, habsent⟩ := h.pending w' (hsub.subset hw') m hm
    refine ⟨hmem, ?_⟩
    rw [happ.has_message]
    cases htarget : (message a b m.id).target w with
    | none => exact habsent
    | some x =>
      rcases (h.cases_target hw happ htarget).2 with
        ⟨m', -, hid, hstore, -⟩ | ⟨m₀, -, -, hhas, -⟩
      · -- the same message would be on its way twice
        rcases pairwise_around h.once hw' with honce | honce
        · exact (honce m m' hm hstore hid.symm).elim
        · exact (honce m' m hstore hm hid).elim
      · rw [habsent] at hhas
        cases hhas
  · intro w' hw' hmarks
    obtain ⟨unread, hread, hall⟩ := h.marked w' (hsub.subset hw') hmarks
    exact ⟨unread, hread, fun m hm => ⟨h.has_mono hw happ (hall m hm).1, (hall m hm).2⟩⟩

/-- The read flag of a stored message is never taken back. -/
theorem read_mono (h : Copy sent a b db ws) (hw : w ∈ ws) (happ : AppWrite client w)
    (hread : (storedMessage db a b k).map Message.read = some true) :
    (storedMessage (w.apply db) a b k).map Message.read = some true := by
  obtain ⟨m, hm, hflag⟩ := Option.map_eq_some_iff.mp hread
  have hhas := has_of_storedMessage hm
  cases htarget : (message a b k).target w with
  | none =>
    obtain ⟨m₀, -, r, rfl, hstores⟩ := h.stored k hhas
    have hsame : some m = some _ := hm.symm.trans hstores.decodes
    have hafter := (happ.stores_of_untouched (m := { m₀ with read := r }) htarget).mpr hstores
    rw [show m₀.id = ({ m₀ with read := r } : Message).id from rfl, hafter.decodes,
      ← Option.some.inj hsame]
    exact congrArg some hflag
  | some x =>
    rcases (h.cases_target hw happ htarget).2 with ⟨m', -, -, -, habsent⟩ | ⟨m₀, -, rfl, -, hstores⟩
    · rw [habsent] at hhas
      cases hhas
    · have hdecodes := hstores.decodes
      rw [show m₀.id = m₀.markAsRead.id from rfl, hdecodes]
      rfl

/-- Issuing new writes, where each stored message is a new one under a fresh id and
    marks concern stored messages. -/
theorem append (h : Copy sent a b db ws) {new : List Message} {id : String} {ws' : List Write}
    (hfresh : ∀ m ∈ sent, m.id ≠ id)
    (hsend : ∀ m : Message, storeMessage a b m ∈ ws' → m ∈ new ∧ m.id = id)
    (honce : ws'.Pairwise fun w w' => ∀ m m' : Message,
      w = storeMessage a b m → w' ≠ storeMessage a b m')
    (hmark : ∀ w ∈ ws', marksIn a b w = true → ∃ unread, w = storeRead a b unread ∧
      ∀ m ∈ unread, db.has (directChatRef a b ++ [m.id]) = true ∧
        ∃ m₀ ∈ sent, m.markAsRead = m₀.markAsRead)
    (hkept : dropChat a b ∉ ws') : Copy (sent ++ new) a b db (ws ++ ws') := by
  have habsent : db.has (directChatRef a b ++ [id]) = false := by
    refine Bool.eq_false_iff.mpr fun hhas => ?_
    obtain ⟨m, hm, r, hid, -⟩ := h.stored id hhas
    exact hfresh m hm hid
  refine ⟨?_, ?_, ?_, ?_, ?_⟩
  · intro k hk
    obtain ⟨m, hm, r, hid, hstores⟩ := h.stored k hk
    exact ⟨m, List.mem_append_left new hm, r, hid, hstores⟩
  · intro w hw m hm
    rcases List.mem_append.mp hw with hold | hnew
    · obtain ⟨hmem, hnot⟩ := h.pending w hold m hm
      exact ⟨List.mem_append_left new hmem, hnot⟩
    · obtain ⟨hmem, rfl⟩ := hsend m (hm ▸ hnew)
      exact ⟨List.mem_append_right sent hmem, habsent⟩
  · refine List.pairwise_append.mpr ⟨h.once, ?_, ?_⟩
    · exact honce.imp fun hne m m' hm hm' => (hne m m' hm hm').elim
    · intro w hw w' hw' m m' hm hm' hid
      obtain ⟨-, rfl⟩ := hsend m' (hm' ▸ hw')
      exact hfresh m (h.pending w hw m hm).1 hid
  · intro w hw hmarks
    have hw' : ∃ unread, w = storeRead a b unread ∧
        ∀ m ∈ unread, db.has (directChatRef a b ++ [m.id]) = true ∧
          ∃ m₀ ∈ sent, m.markAsRead = m₀.markAsRead := by
      rcases List.mem_append.mp hw with hold | hnew
      · exact h.marked w hold hmarks
      · exact hmark w hnew hmarks
    obtain ⟨unread, hread, hall⟩ := hw'
    refine ⟨unread, hread, fun m hm => ?_⟩
    obtain ⟨hhas, m₀, hm₀, hsame⟩ := hall m hm
    exact ⟨hhas, m₀, List.mem_append_left new hm₀, hsame⟩
  · intro w hw
    rcases List.mem_append.mp hw with hold | hnew
    · exact h.kept w hold
    · exact fun hdrop => hkept (hdrop ▸ hnew)

/-- What a session sees: its own outstanding writes applied. -/
theorem applyAll (h : Copy sent a b db ws) (happ : ∀ w ∈ ws, AppWrite client w) :
    Copy sent a b ((app catalogue).applyAll ws db) [] ∧
      ∀ k, ((app catalogue).applyAll ws db).has (directChatRef a b ++ [k]) = true →
        db.has (directChatRef a b ++ [k]) = true ∨
          ∃ m : Message, m.id = k ∧ storeMessage a b m ∈ ws := by
  induction ws generalizing db with
  | nil => exact ⟨h, fun k hk => Or.inl hk⟩
  | cons w rest ih =>
    have hw := happ w (by simp)
    have hsplit : Copy sent a b db ([] ++ w :: rest) := h
    have hrest : Copy sent a b (w.apply db) ([] ++ rest) := hsplit.apply hw
    obtain ⟨hcopy, hstored⟩ := ih hrest fun w' hw' => happ w' (by simp [hw'])
    refine ⟨hcopy, fun k hk => ?_⟩
    rcases hstored k hk with hhas | ⟨m, hid, hmem⟩
    · cases htarget : (message a b k).target w with
      | none =>
        rw [hw.has_message, htarget] at hhas
        exact Or.inl hhas
      | some x =>
        rcases (h.cases_target (by simp) hw htarget).2 with ⟨m, -, hid, rfl, -⟩ | ⟨-, -, -, hold, -⟩
        · exact Or.inr ⟨m, hid, by simp⟩
        · exact Or.inl hold
    · exact Or.inr ⟨m, hid, by simp [hmem]⟩

end Copy

/-! ### Runs -/

/-- The message an event sends between two users. -/
def sentBy (a b : String) : Event → List Message
  | .start client (.sendDirectMessage text partner timestamp) id =>
      if SamePair client.user partner.username a b then
        [newMessage client.user text timestamp id]
      else []
  | _ => []

/-- What is sent is stored in both copies under the generated id. -/
theorem of_sentBy {op : Op} {id : String} {m : Message}
    (hm : m ∈ sentBy a b (.start client op id)) :
    m.id = id ∧ storeMessage a b m ∈ opWrites client op id := by
  cases op with
  | sendDirectMessage text partner timestamp =>
    simp only [sentBy] at hm
    split at hm
    · rename_i hpair
      obtain rfl := List.mem_singleton.mp hm
      refine ⟨rfl, ?_⟩
      rcases hpair with ⟨rfl, rfl⟩ | ⟨rfl, rfl⟩ <;> simp [opWrites]
    · cases hm
  | _ => cases hm

theorem sentBy_of_storeMessage {op : Op} {id : String} {m : Message}
    (hm : storeMessage a b m ∈ opWrites client op id) :
    m ∈ sentBy a b (.start client op id) ∧ m.id = id := by
  obtain ⟨text, partner, timestamp, rfl, rfl, hpair⟩ := op_of_storeMessage hm
  refine ⟨?_, rfl⟩
  rw [sentBy, if_pos hpair]
  exact List.mem_singleton.mpr rfl

theorem nodup_sentBy (op : Op) (id : String) :
    ((sentBy a b (.start client op id)).map Message.id).Nodup := by
  cases op with
  | sendDirectMessage text partner timestamp =>
    simp only [sentBy]
    split <;> simp
  | _ => exact List.nodup_nil

/-- The messages sent between two users, in the order of sending. -/
def sentBetween (a b : String) (events : List Event) : List Message :=
  events.flatMap (sentBy a b)

/-- No chat is deleted and no teammate removed, and a chat marked as read was decoded
    from a snapshot the session was shown at some time. -/
def messageOps (s : State) : Event → Bool
  | .start _ (.deleteDirectChat _) _ => false
  | .start _ (.removeTeammate _) _ => false
  | .start client (.markDirectChatMessagesAsRead chat) _ => s.decoded client chat
  | _ => true

/-- One copy of a conversation along a run. -/
structure Conversed (sent : List Message) (a b : String) (s : State) : Prop where
  issued : Issued AppWrite (fun _ _ _ => True) s
  copy : Copy sent a b s.store (s.outstanding.map Issue.write)
  complete : ∀ m ∈ sent, s.store.has (directChatRef a b ++ [m.id]) = true ∨
    storeMessage a b m ∈ s.outstanding.map Issue.write
  distinct : (sent.map Message.id).Nodup
  minted : ∀ m ∈ sent, m.id ∈ s.minted
  /-- What a session of `a` was shown is stored, its own messages on their way apart. -/
  seen : ∀ view ∈ s.seen, view.1.user = a →
    ∀ k, view.2.has (directChatRef a b ++ [k]) = true →
      ∃ m ∈ sent, ∃ r, m.id = k ∧ Stores view.2 a b { m with read := r } ∧
        (m.fromUser ≠ a → s.store.has (directChatRef a b ++ [k]) = true)

theorem AppWrite.from_of_storeMessage {m : Message}
    (h : AppWrite client (TeamUp.storeMessage a b m)) : m.fromUser = client.user := by
  generalize hw : TeamUp.storeMessage a b m = w at h
  cases h with
  | storeMessage x y m' hfrom =>
    have hdict := (Write.updateChildValues.inj hw).2
    have hdecode := congrArg (fun d => Message.ofDictionary (Tree.ofDictionary d)) hdict
    have hsame : m = m' := by simpa [Message.ofDictionary_asDictionary] using hdecode
    rw [hsame, hfrom]
  | callback hcallback => exact ((hcallback.away a b).1 m hw.symm).elim
  | _ =>
    simp [TeamUp.storeMessage, TeamUp.addTeammate, TeamUp.dropTeammate, TeamUp.dropRequest,
      TeamUp.storeRead, TeamUp.dropChat, TeamUp.storeField, TeamUp.dropPlaying] at hw

namespace Conversed

variable {sent : List Message} {s t : State}

theorem deliver (h : Conversed sent a b s) {index : Nat}
    (hst : (app catalogue).step s (.deliver index) = some t) : Conversed sent a b t := by
  have hissued := appWrite_step h.issued hst
  obtain ⟨before, e, after, hout, -, rfl⟩ := step_deliver _ hst
  have happ := h.issued.writes e (mem_of_split hout)
  have hcopy := h.copy
  rw [hout, List.map_append, List.map_cons] at hcopy
  have hmem : e.write ∈ before.map Issue.write ++ e.write :: after.map Issue.write := by simp
  refine ⟨hissued, ?_, ?_, h.distinct, h.minted, ?_⟩
  · rw [List.map_append]
    exact hcopy.apply happ
  · intro m hm
    rcases h.complete m hm with hhas | hpending
    · exact Or.inl (hcopy.has_mono hmem happ hhas)
    · rw [hout] at hpending
      simp only [List.map_append, List.map_cons, List.mem_append, List.mem_cons] at hpending ⊢
      rcases hpending with hearlier | hthis | hlater
      · exact Or.inr (Or.inl hearlier)
      · refine Or.inl ?_
        rw [app_apply, happ.has_message, ← hthis, message_target_message,
          if_pos ⟨⟨rfl, rfl⟩, rfl⟩]
        rfl
      · exact Or.inr (Or.inr hlater)
  · intro view hview huser k hk
    obtain ⟨m, hm, r, hid, hstores, hhas⟩ := h.seen view hview huser k hk
    exact ⟨m, hm, r, hid, hstores, fun hfrom => hcopy.has_mono hmem happ (hhas hfrom)⟩

theorem observe (h : Conversed sent a b s) (client : Session) :
    Conversed sent a b { s with seen := s.seen ++ [(client, (app catalogue).view s client)] } := by
  refine ⟨⟨h.issued.writes, h.issued.calls, h.issued.answers⟩, h.copy, h.complete, h.distinct,
    h.minted, ?_⟩
  intro view hview huser k hk
  rcases List.mem_append.mp hview with hold | hnew
  · exact h.seen view hold huser k hk
  · obtain rfl := List.mem_singleton.mp hnew
    have hown : ∀ w ∈ (s.outstanding.filter fun e => e.client = client).map Issue.write,
        AppWrite client w := by
      intro w hw
      obtain ⟨e, he, rfl⟩ := List.mem_map.mp hw
      obtain ⟨hmem, hclient⟩ := List.mem_filter.mp he
      exact of_decide_eq_true hclient ▸ h.issued.writes e hmem
    have hview : Copy sent a b ((app catalogue).view s client) [] ∧ ∀ k, _ :=
      (h.copy.sublist (List.filter_sublist.map Issue.write)).applyAll hown
    obtain ⟨hcopy, hstored⟩ := hview
    obtain ⟨m, hm, r, hid, hstores⟩ := hcopy.stored k hk
    refine ⟨m, hm, r, hid, hstores, fun hfrom => ?_⟩
    rcases hstored k hk with hhas | ⟨m', hid', hmem⟩
    · exact hhas
    · -- a message of its own, which is from `a`
      have hm' := (h.copy.pending _ ((List.filter_sublist.map Issue.write).subset hmem) m' rfl).1
      have hsame : m' = m := List.inj_on_of_nodup_map h.distinct hm' hm (hid'.trans hid.symm)
      have hown' := (hown _ hmem).from_of_storeMessage
      exact (hfrom (hsame ▸ hown'.trans huser)).elim

/-- A message of a chat decoded from what a session of `a` was shown, and not from `a`
    itself, is stored. -/
theorem of_decoded (h : Conversed sent a b s) {chat : DirectChat} (huser : client.user = a)
    (hpartner : chat.chatPartner.username = b) (hdecoded : s.decoded client chat = true)
    {m : Message} (hm : m ∈ chat.messages) (hfrom : m.fromUser ≠ a) :
    s.store.has (directChatRef a b ++ [m.id]) = true ∧
      ∃ m₀ ∈ sent, m.markAsRead = m₀.markAsRead := by
  obtain ⟨view, hview, hshown⟩ := List.any_eq_true.mp hdecoded
  simp only [Bool.and_eq_true, decide_eq_true_eq, List.all_eq_true] at hshown
  obtain ⟨hclient, hall⟩ := hshown
  obtain ⟨key, -, hkey⟩ := List.mem_filterMap.mp (hall m hm)
  have hstored : storedMessage view.2 a b key = some m := by
    rw [storedMessage, ← PathTree.sub_sub, ← huser, ← hpartner]
    exact hkey
  obtain ⟨m₀, hm₀, r, rfl, hstores, hhas⟩ :=
    h.seen view hview (hclient ▸ huser) key (has_of_storedMessage hstored)
  have hsame : some m = some _ := hstored.symm.trans hstores.decodes
  obtain rfl := Option.some.inj hsame
  exact ⟨hhas hfrom, m₀, hm₀, rfl⟩

/-- What a session marks as read is stored. -/
theorem marks (h : Conversed sent a b s) {op : Op} {id : String}
    (hops : messageOps s (.start client op id) = true) (hw : w ∈ opWrites client op id)
    (hmarks : marksIn a b w = true) : ∃ unread, w = storeRead a b unread ∧
      ∀ m ∈ unread, s.store.has (directChatRef a b ++ [m.id]) = true ∧
        ∃ m₀ ∈ sent, m.markAsRead = m₀.markAsRead := by
  obtain ⟨unread, rfl⟩ := (appWrite_of_mem hw).of_marksIn hmarks
  obtain ⟨chat, rfl, huser, hpartner, hsame⟩ := op_of_storeRead hw
  refine ⟨chat.unreadMessages (some client.user), ?_, fun m hm => ?_⟩
  · rw [storeRead, hsame, storeRead]
  · obtain ⟨hmem, hunread⟩ := List.mem_filter.mp hm
    have hfrom : m.fromUser ≠ a := by
      intro heq
      simp [heq, huser] at hunread
    exact h.of_decoded huser hpartner hops hmem hfrom

theorem start (hab : a ≠ b) (h : Conversed sent a b s) {op : Op} {id : String}
    (hops : messageOps s (.start client op id) = true) (hfresh : id ∉ s.minted) :
    Conversed (sent ++ sentBy a b (.start client op id)) a b
      (s.issue client id (begin client op id)) := by
  have hids : ∀ m ∈ sent, m.id ≠ id := fun m hm heq => hfresh (heq ▸ h.minted m hm)
  have hdrop : dropChat a b ∉ opWrites client op id := by
    intro hmem
    rcases op_of_dropChat hmem with ⟨chat, rfl, -⟩ | ⟨t, rfl, -⟩ <;> cases hops
  have hwrites : (s.issue client id (begin client op id)).outstanding.map Issue.write =
      s.outstanding.map Issue.write ++ opWrites client op id := by
    rw [Config.writes_issue, writes_begin]
  refine ⟨h.issued.issue (permitted_begin op id) id, ?_, ?_, ?_, ?_, ?_⟩
  · rw [hwrites]
    exact h.copy.append hids (fun _ => sentBy_of_storeMessage) (opWrites_once hab op id)
      (fun _ => h.marks hops) hdrop
  · intro m hm
    rw [hwrites]
    rcases List.mem_append.mp hm with hold | hsent
    · exact (h.complete m hold).imp_right (List.mem_append_left _)
    · exact Or.inr (List.mem_append_right _ (of_sentBy hsent).2)
  · rw [List.map_append]
    refine h.distinct.append (nodup_sentBy op id) ?_
    intro k hk hk'
    obtain ⟨m, hm, rfl⟩ := List.mem_map.mp hk
    obtain ⟨m', hm', hid⟩ := List.mem_map.mp hk'
    exact hids m hm (hid.symm.trans (of_sentBy hm').1)
  · intro m hm
    rcases List.mem_append.mp hm with hold | hsent
    · exact List.mem_cons_of_mem _ (h.minted m hold)
    · rw [(of_sentBy hsent).1]
      exact List.mem_cons_self
  · intro view hview huser k hk
    obtain ⟨m, hm, r, hid, hstores, hhas⟩ := h.seen view hview huser k hk
    exact ⟨m, List.mem_append_left _ hm, r, hid, hstores, hhas⟩

theorem step (hab : a ≠ b) (h : Conversed sent a b s) {e : Event}
    (hops : messageOps s e = true) (hst : (app catalogue).step s e = some t) :
    Conversed (sent ++ sentBy a b e) a b t := by
  cases e with
  | start client op id =>
    obtain ⟨-, hfresh, rfl⟩ := step_start _ hst
    exact h.start hab hops hfresh
  | deliver index =>
    simp only [sentBy, List.append_nil]
    exact h.deliver hst
  | serve index response =>
    have hissued := appWrite_step h.issued hst
    obtain ⟨before, c, after, -, -, -, rfl⟩ := step_serve _ hst
    simp only [sentBy, List.append_nil]
    exact ⟨hissued, h.copy, h.complete, h.distinct, h.minted, h.seen⟩
  | resume index id =>
    have hissued := appWrite_step h.issued hst
    obtain ⟨before, answer, after, -, -, -, hfresh, rfl⟩ := step_resume _ hst
    simp only [sentBy, List.append_nil]
    have hcallback : ∀ w ∈ (resume catalogue answer.callback answer.response id).filterMap
        Command.write?, CallbackWrite w := fun w hw => callbackWrite_of_mem (mem_writes.mp hw)
    have hids : ∀ m ∈ sent, m.id ≠ id := fun m hm heq => hfresh (heq ▸ h.minted m hm)
    have hcopy : Copy (sent ++ []) a b s.store (s.outstanding.map Issue.write ++
        (resume catalogue answer.callback answer.response id).filterMap Command.write?) :=
      h.copy.append hids
      (fun m hm => (((hcallback _ hm).away a b).1 m rfl).elim)
      (List.pairwise_of_forall_mem_list fun w hw w' _ m m' hm _ =>
        ((hcallback w hw).away a b).1 m hm)
      (fun w hw hmarks => by
        have happ : AppWrite answer.client w := .callback (hcallback w hw)
        obtain ⟨unread, hread⟩ := happ.of_marksIn hmarks
        exact (((hcallback w hw).away a b).2.1 unread hread).elim)
      (fun hdrop => ((hcallback _ hdrop).away a b).2.2 rfl)
    rw [List.append_nil] at hcopy
    refine ⟨hissued, ?_, fun m hm => ?_, h.distinct,
      fun m hm => List.mem_cons_of_mem _ (h.minted m hm), h.seen⟩
    · rw [Config.writes_issue]
      exact hcopy
    · rw [Config.writes_issue]
      exact (h.complete m hm).imp_right (List.mem_append_left _)
  | observe client =>
    obtain rfl := step_observe _ hst
    simp only [sentBy, List.append_nil]
    exact h.observe client

end Conversed

theorem Conversed.initial {db : Tree} {ids : List String}
    (hempty : db.has (directChatRef a b) = false) :
    Conversed [] a b (State.initial db ids) where
  issued := .of_quiescent ⟨rfl, rfl, rfl⟩
  copy :=
    { stored := fun k hk => by
        obtain ⟨q, hq⟩ := PathTree.has_iff_leafAt.mp hk
        rw [List.append_assoc] at hq
        exact (hq (PathTree.leafAt_of_not_has hempty _)).elim
      pending := by simp [State.initial]
      once := List.Pairwise.nil
      marked := by simp [State.initial]
      kept := by simp [State.initial] }
  complete := by simp
  distinct := List.nodup_nil
  minted := by simp
  seen := by simp [State.initial]

/-- A step never takes a read flag back. -/
theorem Conversed.read_step {sent : List Message} {s t : State} (h : Conversed sent a b s)
    {e : Event} (hst : (app catalogue).step s e = some t)
    (hread : (storedMessage s.store a b k).map Message.read = some true) :
    (storedMessage t.store a b k).map Message.read = some true := by
  cases e with
  | deliver index =>
    obtain ⟨before, e, after, hout, -, rfl⟩ := step_deliver _ hst
    have hmem : e ∈ s.outstanding := mem_of_split hout
    exact h.copy.read_mono (List.mem_map_of_mem hmem) (h.issued.writes e hmem) hread
  | start client op id =>
    obtain ⟨-, -, rfl⟩ := step_start _ hst
    exact hread
  | serve index response =>
    obtain ⟨before, c, after, -, -, -, rfl⟩ := step_serve _ hst
    exact hread
  | resume index id =>
    obtain ⟨before, answer, after, -, -, -, -, rfl⟩ := step_resume _ hst
    exact hread
  | observe client =>
    obtain rfl := step_observe _ hst
    exact hread

/-- The copy `a` keeps of the conversation with `b` holds exactly these messages, each
    as it was sent but for the read flag. -/
def Keeps (db : Tree) (a b : String) (sent : List Message) : Prop :=
  (∀ k, db.has (directChatRef a b ++ [k]) = true ↔ k ∈ sent.map Message.id) ∧
    ∀ m ∈ sent, ∃ r, storedMessage db a b m.id = some { m with read := r }

theorem Conversed.keeps {sent : List Message} {s : State} (h : Conversed sent a b s)
    (hrest : s.outstanding = []) : Keeps s.store a b sent := by
  have hstored : ∀ m ∈ sent, s.store.has (directChatRef a b ++ [m.id]) = true := by
    intro m hm
    rcases h.complete m hm with hhas | hpending
    · exact hhas
    · simp [hrest] at hpending
  constructor
  · intro k
    constructor
    · intro hk
      obtain ⟨m, hm, r, hid, -⟩ := h.copy.stored k hk
      exact List.mem_map.mpr ⟨m, hm, hid⟩
    · intro hk
      obtain ⟨m, hm, rfl⟩ := List.mem_map.mp hk
      exact hstored m hm
  · intro m hm
    obtain ⟨m₀, hm₀, r, hid, hstores⟩ := h.copy.stored m.id (hstored m hm)
    obtain rfl := List.inj_on_of_nodup_map h.distinct hm₀ hm hid
    exact ⟨r, hstores.decodes⟩

theorem sentBy_swap (e : Event) : sentBy a b e = sentBy b a e := by
  cases e with
  | start client op id =>
    cases op with
    | sendDirectMessage text partner timestamp => simp only [sentBy, SamePair.swap (a := a)]
    | _ => rfl
  | _ => rfl

theorem sentBetween_swap (a b : String) (events : List Event) :
    sentBetween b a events = sentBetween a b events :=
  congrArg (fun f => events.flatMap f) (funext fun e => sentBy_swap e)

theorem Conversed.of_run (hab : a ≠ b) {db : Tree} {ids : List String}
    (hempty : db.has (directChatRef a b) = false) {events : List Event} {t : State}
    (run : (app catalogue).Run (fun s e => messageOps s e = true) (State.initial db ids)
      events t) : Conversed (sentBetween a b events) a b t := by
  refine run.history (fun done u => Conversed (sentBetween a b done) a b u) ?_ (.initial hempty)
  intro done u e v hu hok hst
  have hstep := hu.step hab hok hst
  rwa [sentBetween, List.flatMap_append, List.flatMap_singleton]

/-- **Both copies hold each sent message exactly once whenever nothing is outstanding,
    and a read flag is never taken back**, in every run without deletions, whatever
    the order in which the writes arrive. -/
theorem copies_agree (hab : a ≠ b) {db : Tree} {ids : List String}
    (hempty : db.has (directChatRef a b) = false) (hempty' : db.has (directChatRef b a) = false)
    {events : List Event} {t : State}
    (run : (app catalogue).Run (fun s e => messageOps s e = true) (State.initial db ids)
      events t) :
    (t.outstanding = [] → ((sentBetween a b events).map Message.id).Nodup ∧
      Keeps t.store a b (sentBetween a b events) ∧ Keeps t.store b a (sentBetween a b events)) ∧
    ∀ events' u, (app catalogue).Run (fun s e => messageOps s e = true) t events' u → ∀ k,
      ((storedMessage t.store a b k).map Message.read = some true →
        (storedMessage u.store a b k).map Message.read = some true) ∧
      ((storedMessage t.store b a k).map Message.read = some true →
        (storedMessage u.store b a k).map Message.read = some true) := by
  have hmono : ∀ {x y : String} {sent : List Message}, x ≠ y → Conversed sent x y t →
      ∀ events' u, (app catalogue).Run (fun s e => messageOps s e = true) t events' u →
        ∀ k, (storedMessage t.store x y k).map Message.read = some true →
          (storedMessage u.store x y k).map Message.read = some true := by
    intro x y sent hxy hs events' u later k hread
    have hlater : Conversed (sent ++ sentBetween x y events') x y u ∧
        (storedMessage u.store x y k).map Message.read = some true := by
      refine later.history (fun done v => Conversed (sent ++ sentBetween x y done) x y v ∧
        (storedMessage v.store x y k).map Message.read = some true) ?_
        ⟨by simpa [sentBetween] using hs, hread⟩
      intro done v e w hv hok hst
      have hstep := hv.1.step hxy hok hst
      refine ⟨?_, hv.1.read_step hst hv.2⟩
      rwa [sentBetween, List.flatMap_append, List.flatMap_singleton, ← List.append_assoc]
    exact hlater.2
  have hs := Conversed.of_run hab hempty run
  have hs' := Conversed.of_run hab.symm hempty' run
  constructor
  · intro hrest
    exact ⟨hs.distinct, hs.keeps hrest, sentBetween_swap a b events ▸ hs'.keeps hrest⟩
  · intro events' u later k
    exact ⟨hmono hab hs events' u later k, hmono hab.symm hs' events' u later k⟩

/-- Bob greets alice, who reads it. -/
def readGreeting : List Event :=
  [.start ⟨"bobbob", 1⟩ (.sendDirectMessage "hi" (somebody "alice1") 5) "-0",
    .deliver 1, .observe ⟨"alice1", 1⟩,
    .start ⟨"alice1", 1⟩ (.markDirectChatMessagesAsRead
      ⟨somebody "bobbob", [newMessage "bobbob" "hi" 5 "-0"]⟩) "-1",
    .deliver 1, .deliver 0]

theorem copies_agree_readGreeting :
    ∃ t, (app []).exec messageOps (State.initial PathTree.empty []) readGreeting = some t ∧
      Keeps t.store "alice1" "bobbob" [newMessage "bobbob" "hi" 5 "-0"] ∧
      Keeps t.store "bobbob" "alice1" [newMessage "bobbob" "hi" 5 "-0"] := by
  have hrest : ((app []).exec messageOps (State.initial PathTree.empty [])
      readGreeting).map Config.outstanding = some [] := by decide +kernel
  obtain ⟨t, ht, hout⟩ := Option.map_eq_some_iff.mp hrest
  have run := run_of_exec (fun s e h => h) ht
  exact ⟨t, ht, ((copies_agree (by decide) rfl rfl run).1 hout).2⟩

end TeamUp
