import TeamUp.Conversations

/-!
# Deleted chats

Deleting a chat removes one copy of a conversation, while marking as read writes
whole messages from a local copy of any age.  Each stored message is a register
of its own.  Deleted messages stay deleted as long as only messages that are
still stored are marked as read, and no deletion overlaps with it.
-/

namespace TeamUp

open Protocol

variable {client : Session} {w : Write} {catalogue : List Game}

/-! ### One message -/

/-- Whether the copy `a` keeps of the conversation with `b` holds a message `k`. -/
def message (a b k : String) : Register Tree Write Bool := presence (directChatRef a b ++ [k])

theorem message_target_message (a b k x y : String) (m : Message) :
    (message a b k).target (storeMessage x y m) =
      if (x = a ∧ y = b) ∧ m.id = k then some true else none := by
  by_cases h : (x = a ∧ y = b) ∧ m.id = k
  · obtain ⟨⟨rfl, rfl⟩, rfl⟩ := h
    rw [if_pos ⟨⟨rfl, rfl⟩, rfl⟩]
    refine presence_target_within ?_ fun e he => ?_
    · simp [storeMessage, Write.puts, Message.asDictionary]
    · obtain ⟨f, hf, rfl⟩ := List.mem_map.mp he
      exact ⟨by simp, has_of_mem_asDictionary hf⟩
  · rw [if_neg h]
    refine presence_target_beside (Write.beside_of_ref ?_)
    simp only [Incomparable, Write.ref, storeMessage, List.cons_append, List.nil_append,
      List.cons_prefix_cons, true_and, List.prefix_nil, and_true]
    exact ⟨fun hpre => h ⟨⟨hpre.1, hpre.2.1⟩, hpre.2.2⟩,
      fun hpre => h ⟨⟨hpre.1.symm, hpre.2.1.symm⟩, hpre.2.2.symm⟩⟩

theorem message_target_read (a b k x y : String) (unread : List Message) :
    (message a b k).target (storeRead x y unread) =
      if (x = a ∧ y = b) ∧ ∃ m ∈ unread, m.id = k then some true else none := by
  have hput : ∀ e ∈ (storeRead x y unread).puts,
      ∃ m ∈ unread,
        e = (directChatRef x y ++ [m.id], Tree.ofDictionary m.markAsRead.asDictionary) := by
    intro e he
    obtain ⟨f, hf, rfl⟩ := List.mem_map.mp he
    obtain ⟨m, hm, rfl⟩ := Dictionary.mem_of_mem_collect hf
    exact ⟨m, hm, rfl⟩
  by_cases h : (x = a ∧ y = b) ∧ ∃ m ∈ unread, m.id = k
  · obtain ⟨⟨rfl, rfl⟩, m, hm, rfl⟩ := h
    rw [if_pos ⟨⟨rfl, rfl⟩, m, hm, rfl⟩]
    have hchild : ∀ m' : Message, presencePut (directChatRef x y ++ [m.id])
        (directChatRef x y ++ [m'.id]) (Tree.ofDictionary m'.markAsRead.asDictionary) =
          if m'.id = m.id then some true else none :=
      fun m' => presencePut_child _ _ _ (has_asDictionary m'.markAsRead)
    refine presence_target_eq (fun e he v hv => ?_) ?_
    · obtain ⟨m', -, rfl⟩ := hput e he
      rw [hchild] at hv
      split at hv
      · exact (Option.some.inj hv).symm
      · cases hv
    · have hkey : m.id ∈ (readMessages unread).map Prod.fst := Dictionary.key_mem_collect hm
      obtain ⟨f, hf, hid⟩ := List.mem_map.mp hkey
      obtain ⟨m', -, rfl⟩ := Dictionary.mem_of_mem_collect hf
      refine ⟨_, List.mem_map.mpr ⟨_, hf, rfl⟩, ?_⟩
      rw [hchild, if_pos hid]
  · rw [if_neg h]
    refine presence_target_beside fun e he => ?_
    obtain ⟨m, hm, rfl⟩ := hput e he
    simp only [Incomparable, List.cons_append, List.nil_append,
      List.cons_prefix_cons, true_and, List.prefix_nil, and_true]
    exact ⟨fun hpre => h ⟨⟨hpre.1, hpre.2.1⟩, m, hm, hpre.2.2⟩,
      fun hpre => h ⟨⟨hpre.1.symm, hpre.2.1.symm⟩, m, hm, hpre.2.2.symm⟩⟩

theorem message_target_drop (a b k x y : String) :
    (message a b k).target (dropChat x y) = if x = a ∧ y = b then some false else none := by
  by_cases h : x = a ∧ y = b <;>
    simp [message, presence, dropChat, Write.puts, presencePut, h]

/-- A write of the app that touches a message stores it, stores it as read, or drops
    the chat. -/
theorem AppWrite.message_target (h : AppWrite client w) {a b k : String} {x : Bool}
    (hx : x ∈ (message a b k).target w) :
    (x = true ∧ ∃ m : Message, m.id = k ∧ w = TeamUp.storeMessage a b m) ∨
      (x = true ∧ ∃ unread : List Message, (∃ m ∈ unread, m.id = k) ∧
        w = TeamUp.storeRead a b unread) ∨
      (x = false ∧ w = TeamUp.dropChat a b) := by
  rcases h.conversation_cases with
    ⟨u, v, m, rfl⟩ | ⟨u, v, unread, -, rfl⟩ | ⟨u, v, rfl⟩ | hbeside
  · rw [message_target_message] at hx
    split at hx
    · rename_i huv
      obtain ⟨⟨rfl, rfl⟩, hid⟩ := huv
      exact Or.inl ⟨(Option.some.inj hx).symm, m, hid, rfl⟩
    · cases hx
  · rw [message_target_read] at hx
    split at hx
    · rename_i huv
      obtain ⟨⟨rfl, rfl⟩, hid⟩ := huv
      exact Or.inr (Or.inl ⟨(Option.some.inj hx).symm, unread, hid, rfl⟩)
    · cases hx
  · rw [message_target_drop] at hx
    split at hx
    · rename_i huv
      exact Or.inr (Or.inr ⟨(Option.some.inj hx).symm, by rw [huv.1, huv.2]⟩)
    · cases hx
  · rw [message, presence_target_beside ((hbeside a b).below [k])] at hx
    cases hx

theorem AppWrite.message_keepsBelow (h : AppWrite client w) (a b k : String) :
    w.KeepsBelow (directChatRef a b ++ [k]) := by
  intro e he hpre
  have habove : directChatRef a b <+: e.1 := (List.prefix_append _ _).trans hpre
  rcases h.conversation_keepsBelow a b e he habove with heq | hvalue
  · rw [heq] at hpre
    exact absurd hpre.length_le (by simp)
  · exact Or.inr hvalue

/-- **What a write makes of a stored message.** -/
theorem AppWrite.has_message (h : AppWrite client w) (a b k : String) (st : Tree) :
    (w.apply st).has (directChatRef a b ++ [k]) =
      ((message a b k).target w).getD (st.has (directChatRef a b ++ [k])) :=
  has_apply (h.message_keepsBelow a b k) st

/-- The write marks messages of the copy `x` keeps of the conversation with `y` as read. -/
def marksIn (x y : String) : Write → Bool
  | .updateChildValues ref _ => decide (ref = directChatRef x y)
  | _ => false

theorem AppWrite.of_marksIn (h : AppWrite client w) {x y : String}
    (hmarks : marksIn x y w = true) : ∃ unread, w = TeamUp.storeRead x y unread := by
  cases h with
  | storeRead v unread =>
    have hnames : client.user = x ∧ v = y := by simpa [marksIn, TeamUp.storeRead] using hmarks
    exact ⟨unread, by rw [hnames.1, hnames.2]⟩
  | callback hw =>
    have hbeside := hw.ref_beside x y
    cases w with
    | updateChildValues ref values =>
      have href : ref = directChatRef x y := by simpa [marksIn] using hmarks
      exact (hbeside.1 (by rw [Write.ref, href])).elim
    | setValue | removeValue => cases hmarks
  | _ =>
    simp [marksIn, TeamUp.addTeammate, TeamUp.dropTeammate, TeamUp.dropRequest,
      TeamUp.storeMessage, TeamUp.dropChat, TeamUp.storeField, TeamUp.dropPlaying] at hmarks

/-! ### Before a deletion -/

/-- What holds of one copy of a conversation while deletions and read-marking do
    not overlap. -/
structure Deletable (a b : String) (s : State) : Prop where
  issued : Issued AppWrite (fun _ _ _ => True) s
  stored : ∀ k, s.store.has (directChatRef a b ++ [k]) = true → k ∈ s.minted
  /-- A message on its way is not stored yet. -/
  sent : ∀ e ∈ s.outstanding, ∀ m : Message, e.write = storeMessage a b m →
    m.id ∈ s.minted ∧ s.store.has (directChatRef a b ++ [m.id]) = false
  once : s.outstanding.Pairwise fun e e' => ∀ m m' : Message,
    e.write = storeMessage a b m → e'.write = storeMessage a b m' → m.id ≠ m'.id
  /-- A message being marked as read is stored. -/
  marked : ∀ e ∈ s.outstanding, ∀ unread : List Message, e.write = storeRead a b unread →
    ∀ m ∈ unread, s.store.has (directChatRef a b ++ [m.id]) = true
  /-- No mark is issued after a deletion, and none before the deletion of another
      session. -/
  ordered : s.outstanding.Pairwise fun e e' =>
    (e.write = dropChat a b → marksIn a b e'.write = false) ∧
      (e.client ≠ e'.client → marksIn a b e.write = true → e'.write ≠ dropChat a b)

theorem marksIn_storeRead (a b : String) (unread : List Message) :
    marksIn a b (storeRead a b unread) = true := by simp [marksIn, storeRead]

namespace Deletable

variable {a b : String} {s t : State}

/-- No mark is on its way when a deletion arrives. -/
theorem not_marked (h : Deletable a b s) {before after : List (Issue Session Write)}
    {e : Issue Session Write} (hout : s.outstanding = before ++ e :: after)
    (hbefore : ∀ e' ∈ before, e'.client ≠ e.client) (hdrop : e.write = dropChat a b) :
    ∀ e' ∈ before ++ after, marksIn a b e'.write = false := by
  have hordered := h.ordered
  rw [hout, List.pairwise_append, List.pairwise_cons] at hordered
  obtain ⟨-, ⟨hafter, -⟩, hcross⟩ := hordered
  intro e' he'
  rcases List.mem_append.mp he' with hearlier | hlater
  · refine Bool.eq_false_iff.mpr fun hmarks => ?_
    exact (hcross e' hearlier e (by simp)).2 (hbefore e' hearlier) hmarks hdrop
  · exact (hafter e' hlater).1 hdrop

theorem deliver (h : Deletable a b s) {index : Nat}
    (horder : InOrder s (.deliver index : Event))
    (hst : (app catalogue).step s (.deliver index) = some t) : Deletable a b t := by
  obtain ⟨before, e, after, hout, hlen, rfl⟩ := step_deliver _ hst
  have hbefore := horder.before hout hlen
  have hmem : e ∈ s.outstanding := mem_of_split hout
  have hsub : ∀ e' ∈ before ++ after, e' ∈ s.outstanding := fun _ hmem => rest_of_split hout hmem
  have hsublist : (before ++ after).Sublist s.outstanding := by
    rw [hout]
    exact split_sublist before e after
  have happ := h.issued.writes e hmem
  have hhas : ∀ k, ((app catalogue).apply e.write s.store).has (directChatRef a b ++ [k]) =
      ((message a b k).target e.write).getD (s.store.has (directChatRef a b ++ [k])) :=
    fun k => happ.has_message a b k s.store
  refine ⟨appWrite_step h.issued hst, ?_, ?_, h.once.sublist hsublist, ?_,
    h.ordered.sublist hsublist⟩
  · intro k hk
    rw [hhas] at hk
    cases htarget : (message a b k).target e.write with
    | none =>
      rw [htarget] at hk
      exact h.stored k hk
    | some x =>
      rcases happ.message_target htarget with
        ⟨-, m, rfl, hm⟩ | ⟨-, unread, ⟨m, hm, rfl⟩, hread⟩ | ⟨rfl, -⟩
      · exact (h.sent e hmem m hm).1
      · exact h.stored m.id (h.marked e hmem unread hread m hm)
      · rw [htarget] at hk
        cases hk
  · intro e' he' m hm
    obtain ⟨hminted, habsent⟩ := h.sent e' (hsub e' he') m hm
    refine ⟨hminted, ?_⟩
    rw [hhas]
    cases htarget : (message a b m.id).target e.write with
    | none => exact habsent
    | some x =>
      rcases happ.message_target htarget with
        ⟨-, m', hid, hm'⟩ | ⟨-, unread, ⟨m', hm', hid⟩, hread⟩ | ⟨rfl, -⟩
      · -- the same message would be on its way twice
        rcases pairwise_around (hout ▸ h.once) he' with honce | honce
        · exact (honce m m' hm hm' hid.symm).elim
        · exact (honce m' m hm' hm hid).elim
      · have hstored := h.marked e hmem unread hread m' hm'
        rw [hid, habsent] at hstored
        cases hstored
      · rfl
  · intro e' he' unread hread m hm
    rw [hhas]
    have hstored := h.marked e' (hsub e' he') unread hread m hm
    cases htarget : (message a b m.id).target e.write with
    | none => exact hstored
    | some x =>
      rcases happ.message_target htarget with ⟨rfl, -⟩ | ⟨rfl, -⟩ | ⟨-, hdrop⟩
      · rfl
      · rfl
      · have hnot := h.not_marked hout hbefore hdrop e' he'
        rw [hread, marksIn_storeRead] at hnot
        cases hnot

/-- Issuing keeps a copy deletable when every message among the new writes is fresh,
    marks concern stored messages of a copy not being deleted, and deletions meet
    no mark of another session. -/
theorem issue (h : Deletable a b s) {id : String} (hfresh : id ∉ s.minted)
    {commands : Commands} (hpermitted : Permitted AppWrite (fun _ _ _ => True) client commands)
    (hsend : ∀ m : Message, .write (storeMessage a b m) ∈ commands → m.id = id)
    (honce : (commands.filterMap Command.write?).Pairwise fun w w' =>
      ∀ m m' : Message, w = storeMessage a b m → w' ≠ storeMessage a b m')
    (hmark : ∀ unread : List Message, .write (storeRead a b unread) ∈ commands →
      (∀ m ∈ unread, s.store.has (directChatRef a b ++ [m.id]) = true) ∧
        ∀ e ∈ s.outstanding, e.write ≠ dropChat a b)
    (hdrop : .write (dropChat a b) ∈ commands →
      ∀ e ∈ s.outstanding, e.client ≠ client → marksIn a b e.write = false)
    (hapart : (commands.filterMap Command.write?).Pairwise fun w w' =>
      w = dropChat a b → marksIn a b w' = false) :
    Deletable a b (s.issue client id commands) := by
  have hnew : ∀ e ∈ (commands.filterMap Command.write?).map (Issue.mk client),
      e.client = client ∧ .write e.write ∈ commands := by
    intro e he
    obtain ⟨w, hw, rfl⟩ := List.mem_map.mp he
    exact ⟨rfl, mem_writes.mp hw⟩
  have habsent : s.store.has (directChatRef a b ++ [id]) = false :=
    Bool.eq_false_iff.mpr fun hstored => hfresh (h.stored id hstored)
  refine ⟨h.issued.issue hpermitted id, ?_, ?_, ?_, ?_, ?_⟩
  · exact fun k hk => List.mem_cons_of_mem _ (h.stored k hk)
  · intro e he m hm
    rcases List.mem_append.mp he with hold | hfreshly
    · obtain ⟨hminted, hnot⟩ := h.sent e hold m hm
      exact ⟨List.mem_cons_of_mem _ hminted, hnot⟩
    · have hid : m.id = id := hsend m (hm ▸ (hnew e hfreshly).2)
      rw [hid]
      exact ⟨List.mem_cons_self, habsent⟩
  · refine List.pairwise_append.mpr ⟨h.once, ?_, ?_⟩
    · rw [List.pairwise_map]
      exact honce.imp fun hne m m' hm hm' => (hne m m' hm hm').elim
    · intro e he e' he' m m' hm hm' hid
      have hid' : m'.id = id := hsend m' (hm' ▸ (hnew e' he').2)
      exact hfresh (hid' ▸ hid ▸ (h.sent e he m hm).1)
  · intro e he unread hread m hm
    rcases List.mem_append.mp he with hold | hfreshly
    · exact h.marked e hold unread hread m hm
    · exact (hmark unread (hread ▸ (hnew e hfreshly).2)).1 m hm
  · refine List.pairwise_append.mpr ⟨h.ordered, ?_, ?_⟩
    · rw [List.pairwise_map]
      exact hapart.imp fun hdm => ⟨hdm, fun hne => (hne rfl).elim⟩
    · intro e he e' he'
      obtain ⟨hclient, hcommand⟩ := hnew e' he'
      constructor
      · intro hd
        refine Bool.eq_false_iff.mpr fun hmarks => ?_
        obtain ⟨unread, hread⟩ := (hpermitted.1 _ hcommand).of_marksIn hmarks
        exact (hmark unread (hread ▸ hcommand)).2 e he hd
      · intro hne hmarks hd
        have hnot := hdrop (hd ▸ hcommand) e he (fun heq => hne (heq.trans hclient.symm))
        rw [hmarks] at hnot
        cases hnot

end Deletable

/-! ### Steps -/

/-- Only messages that are still stored are marked as read, in a chat no deletion of
    which is on its way, and a chat is deleted only when no other session's marks
    in it are on their way. -/
def Current (s : State) : Event → Prop
  | .start client (.markDirectChatMessagesAsRead chat) _ =>
      (∀ m ∈ chat.unreadMessages (some client.user), s.store.has
        (directChatRef client.user chat.chatPartner.username ++ [m.id]) = true) ∧
      ∀ e ∈ s.outstanding, e.write ≠ dropChat client.user chat.chatPartner.username
  | .start client (.deleteDirectChat chat) _ =>
      ∀ e ∈ s.outstanding, e.client ≠ client →
        marksIn client.user chat.chatPartner.username e.write = false
  | .start client (.removeTeammate t) _ =>
      ∀ e ∈ s.outstanding, e.client ≠ client →
        marksIn client.user t.username e.write = false ∧
          marksIn t.username client.user e.write = false
  | _ => True

instance (s : State) (e : Event) : Decidable (Current s e) := by
  rcases e with ⟨_, _ | _, _⟩ | _ <;> dsimp only [Current] <;> infer_instance

/-- A marked message is one of the unread messages of the chat given to the call. -/
theorem exists_of_readMessages {unread unread' : List Message}
    (h : readMessages unread = readMessages unread') {m : Message} (hm : m ∈ unread) :
    ∃ m' ∈ unread', m'.id = m.id := by
  have hkey : m.id ∈ (readMessages unread).map Prod.fst := Dictionary.key_mem_collect hm
  rw [h] at hkey
  obtain ⟨f, hf, hid⟩ := List.mem_map.mp hkey
  obtain ⟨m', hm', rfl⟩ := Dictionary.mem_of_mem_collect hf
  exact ⟨m', hm', hid⟩

theorem Current.stored {s : State} {op : Op} {id a b : String}
    (h : Current s (.start client op id)) {unread : List Message}
    (hw : storeRead a b unread ∈ opWrites client op id) :
    (∀ m ∈ unread, s.store.has (directChatRef a b ++ [m.id]) = true) ∧
      ∀ e ∈ s.outstanding, e.write ≠ dropChat a b := by
  obtain ⟨chat, rfl, rfl, rfl, hsame⟩ := op_of_storeRead hw
  refine ⟨fun m hm => ?_, h.2⟩
  obtain ⟨m', hm', hid⟩ := exists_of_readMessages hsame hm
  exact hid ▸ h.1 m' hm'

theorem CallbackWrite.away (h : CallbackWrite w) (a b : String) :
    (∀ m, w ≠ TeamUp.storeMessage a b m) ∧ (∀ unread, w ≠ TeamUp.storeRead a b unread) ∧
      w ≠ TeamUp.dropChat a b := by
  have hbeside := h.ref_beside a b
  refine ⟨fun m heq => hbeside.2 ?_, fun unread heq => hbeside.2 ?_, fun heq => hbeside.2 ?_⟩ <;>
    simp [heq, Write.ref, TeamUp.storeMessage, TeamUp.storeRead, TeamUp.dropChat]

/-- An operation stores a message at most once in one copy. -/
theorem opWrites_once {a b : String} (hab : a ≠ b) (op : Op) (id : String) :
    (opWrites client op id).Pairwise fun w w' =>
      ∀ m m' : Message, w = storeMessage a b m → w' ≠ storeMessage a b m' := by
  have hnames : ∀ {x y : String} {m m' : Message}, storeMessage x y m = storeMessage a b m' →
      x = a ∧ y = b := by
    intro x y m m' heq
    have href := (Write.updateChildValues.inj heq).1
    simp only [List.cons_append, List.nil_append, List.cons.injEq, and_true, true_and] at href
    exact ⟨href.1, href.2.1⟩
  by_cases hsend : ∃ text partner timestamp, op = .sendDirectMessage text partner timestamp
  · obtain ⟨text, partner, timestamp, rfl⟩ := hsend
    refine List.pairwise_pair.mpr fun m m' hm hm' => hab ?_
    exact (hnames hm).1.symm.trans (hnames hm').2
  · refine List.pairwise_of_forall_mem_list fun w hw w' _ m m' hm _ => ?_
    obtain ⟨text, partner, timestamp, rfl, -⟩ := op_of_storeMessage (hm ▸ hw)
    exact hsend ⟨text, partner, timestamp, rfl⟩

/-- No operation both deletes a chat and marks messages in it. -/
theorem opWrites_apart (a b : String) (op : Op) (id : String) :
    (opWrites client op id).Pairwise fun w w' =>
      w = dropChat a b → marksIn a b w' = false := by
  refine List.pairwise_of_forall_mem_list fun w hw w' hw' hd => ?_
  refine Bool.eq_false_iff.mpr fun hmarks => ?_
  obtain ⟨unread, rfl⟩ := (appWrite_of_mem hw').of_marksIn hmarks
  obtain ⟨chat, rfl, -⟩ := op_of_storeRead hw'
  rcases op_of_dropChat (hd ▸ hw) with ⟨chat', hop, -⟩ | ⟨t, hop, -⟩ <;> cases hop

theorem Deletable.step {a b : String} (hab : a ≠ b) {s t : State} {e : Event}
    (h : Deletable a b s) (horder : InOrder s e) (hcurrent : Current s e)
    (hst : (app catalogue).step s e = some t) : Deletable a b t := by
  cases e with
  | start client op id =>
    obtain ⟨-, hfresh, rfl⟩ := step_start _ hst
    have hmem : ∀ w, .write w ∈ begin client op id → w ∈ opWrites client op id :=
      fun w hw => writes_begin client op id ▸ mem_writes.mpr hw
    refine h.issue hfresh (permitted_begin op id) ?_ ?_ ?_ ?_ ?_
    · intro m hm
      obtain ⟨text, partner, timestamp, -, rfl, -⟩ := op_of_storeMessage (hmem _ hm)
      rfl
    · exact (writes_begin client op id).symm ▸ opWrites_once hab op id
    · exact fun unread hread => hcurrent.stored (hmem _ hread)
    · intro hd e he hne
      rcases op_of_dropChat (hmem _ hd) with ⟨chat, rfl, rfl, rfl⟩ | ⟨t, rfl, hpair⟩
      · exact hcurrent e he hne
      · obtain ⟨h₁, h₂⟩ := hcurrent e he hne
        rcases hpair with ⟨rfl, rfl⟩ | ⟨rfl, rfl⟩
        · exact h₁
        · exact h₂
    · exact (writes_begin client op id).symm ▸ opWrites_apart a b op id
  | deliver index => exact h.deliver horder hst
  | serve index response =>
    obtain ⟨before, c, after, -, -, -, rfl⟩ := step_serve _ hst
    exact ⟨appWrite_step h.issued hst, h.stored, h.sent, h.once, h.marked, h.ordered⟩
  | resume index id =>
    obtain ⟨before, answer, after, -, -, -, hfresh, rfl⟩ := step_resume _ hst
    have hrest : Deletable a b { s with answers := before ++ after } :=
      ⟨⟨h.issued.writes, fun _ _ => trivial, fun _ _ => trivial⟩, h.stored, h.sent, h.once,
        h.marked, h.ordered⟩
    have hcallback : ∀ w, .write w ∈ resume catalogue answer.callback answer.response id →
        CallbackWrite w := fun w hw => callbackWrite_of_mem hw
    refine hrest.issue hfresh ⟨fun w hw => .callback (hcallback w hw), fun _ _ _ => trivial⟩
      ?_ ?_ ?_ ?_ ?_
    · exact fun m hm => (((hcallback _ hm).away a b).1 m rfl).elim
    · refine List.pairwise_of_forall_mem_list fun w hw w' _ m m' hm _ => ?_
      exact ((hcallback w (mem_writes.mp hw)).away a b).1 m hm
    · exact fun unread hread => (((hcallback _ hread).away a b).2.1 unread rfl).elim
    · exact fun hd => (((hcallback _ hd).away a b).2.2 rfl).elim
    · refine List.pairwise_of_forall_mem_list fun w hw w' _ hd => ?_
      exact (((hcallback w (mem_writes.mp hw)).away a b).2.2 hd).elim
  | observe client =>
    obtain rfl := step_observe _ hst
    exact ⟨appWrite_step h.issued hst, h.stored, h.sent, h.once, h.marked, h.ordered⟩

/-! ### After a deletion -/

/-- A message that is not stored, and that nothing on its way stores again. -/
structure Gone (a b k : String) (s : State) : Prop where
  issued : Issued AppWrite (fun _ _ _ => True) s
  absent : s.store.has (directChatRef a b ++ [k]) = false
  unsent : ∀ e ∈ s.outstanding, (message a b k).target e.write ≠ some true
  minted : k ∈ s.minted

/-- The messages a deletion finds are gone once it has arrived. -/
theorem Deletable.gone {a b k : String} {s t : State} (h : Deletable a b s)
    {before after : List (Issue Session Write)} {e : Issue Session Write}
    (hout : s.outstanding = before ++ e :: after)
    (hbefore : ∀ e' ∈ before, e'.client ≠ e.client) (hdrop : e.write = dropChat a b)
    (hstored : s.store.has (directChatRef a b ++ [k]) = true)
    (ht : t = { s with
      store := e.write.apply s.store
      outstanding := before ++ after }) : Gone a b k t := by
  subst ht
  have hsub : ∀ e' ∈ before ++ after, e' ∈ s.outstanding := fun _ hmem => rest_of_split hout hmem
  refine ⟨⟨fun e' he' => h.issued.writes e' (hsub e' he'), fun _ _ => trivial,
    fun _ _ => trivial⟩, ?_, ?_, h.stored k hstored⟩
  · have happ := h.issued.writes e (mem_of_split hout)
    rw [happ.has_message, hdrop, message_target_drop, if_pos ⟨rfl, rfl⟩]
    rfl
  · intro e' he' htarget
    rcases (h.issued.writes e' (hsub e' he')).message_target htarget with
      ⟨-, m, rfl, hm⟩ | ⟨-, unread, -, hread⟩ | ⟨hfalse, -⟩
    · rw [(h.sent e' (hsub e' he') m hm).2] at hstored
      cases hstored
    · have hnot := h.not_marked hout hbefore hdrop e' he'
      rw [hread, marksIn_storeRead] at hnot
      cases hnot
    · cases hfalse

theorem Gone.step {a b k : String} {s t : State} {e : Event} (h : Gone a b k s)
    (hcurrent : Current s e) (hst : (app catalogue).step s e = some t) : Gone a b k t := by
  cases e with
  | start client op id =>
    obtain ⟨-, hfresh, rfl⟩ := step_start _ hst
    refine ⟨h.issued.issue (permitted_begin op id) id, h.absent, ?_,
      List.mem_cons_of_mem _ h.minted⟩
    intro e he htarget
    rcases List.mem_append.mp he with hold | hnew
    · exact h.unsent e hold htarget
    · obtain ⟨w, hw, rfl⟩ := List.mem_map.mp hnew
      have hmem : w ∈ opWrites client op id := writes_begin client op id ▸ hw
      rcases (appWrite_of_mem hmem).message_target htarget with
        ⟨-, m, rfl, rfl⟩ | ⟨-, unread, ⟨m, hm, rfl⟩, rfl⟩ | ⟨hfalse, -⟩
      · obtain ⟨text, partner, timestamp, -, rfl, -⟩ := op_of_storeMessage hmem
        exact hfresh h.minted
      · have hstored := (hcurrent.stored hmem).1 m hm
        rw [h.absent] at hstored
        cases hstored
      · cases hfalse
  | deliver index =>
    obtain ⟨before, e, after, hout, -, rfl⟩ := step_deliver _ hst
    have hmem : e ∈ s.outstanding := mem_of_split hout
    refine ⟨appWrite_step h.issued hst, ?_, fun e' he' => h.unsent e' ?_, h.minted⟩
    · rw [app_apply, (h.issued.writes e hmem).has_message, h.absent]
      cases htarget : (message a b k).target e.write with
      | none => rfl
      | some x =>
        cases x with
        | false => rfl
        | true => exact (h.unsent e hmem htarget).elim
    · exact rest_of_split hout he'
  | serve index response =>
    obtain ⟨before, c, after, -, -, -, rfl⟩ := step_serve _ hst
    exact ⟨appWrite_step h.issued hst, h.absent, h.unsent, h.minted⟩
  | resume index id =>
    have hissued := appWrite_step h.issued hst
    obtain ⟨before, answer, after, -, -, -, -, rfl⟩ := step_resume _ hst
    refine ⟨hissued, h.absent, fun e he htarget => ?_, List.mem_cons_of_mem _ h.minted⟩
    rcases List.mem_append.mp he with hold | hnew
    · exact h.unsent e hold htarget
    · obtain ⟨w, hw, rfl⟩ := List.mem_map.mp hnew
      have hcallback : CallbackWrite w := callbackWrite_of_mem (mem_writes.mp hw)
      rw [message, presence_target_beside ((hcallback.conversation_beside a b).below [k])]
        at htarget
      cases htarget
  | observe client =>
    obtain rfl := step_observe _ hst
    exact ⟨appWrite_step h.issued hst, h.absent, h.unsent, h.minted⟩

/-! ### Runs -/

/-- What a deletion of the copy `a` keeps finds in it is never in it again. -/
def DeletionsLast (catalogue : List Game) (ok : State → Event → Prop) (a b : String)
    (s₀ : State) : Prop :=
  ∀ events s index e t events' u, (app catalogue).Run ok s₀ events s →
    s.outstanding[index]? = some e → e.write = dropChat a b →
    ok s (.deliver index) → (app catalogue).step s (.deliver index) = some t →
    (app catalogue).Run ok t events' u →
    ∀ k, s.store.has (directChatRef a b ++ [k]) = true →
      u.store.has (directChatRef a b ++ [k]) = false

/-- Marking as read never adds a message to the copy `a` keeps. -/
def MarksAddNothing (catalogue : List Game) (ok : State → Event → Prop) (a b : String)
    (s₀ : State) : Prop :=
  ∀ events s index e t unread, (app catalogue).Run ok s₀ events s →
    s.outstanding[index]? = some e → e.write = storeRead a b unread →
    (app catalogue).step s (.deliver index) = some t →
    ∀ k, t.store.has (directChatRef a b ++ [k]) = true →
      s.store.has (directChatRef a b ++ [k]) = true

theorem Deletable.initial {a b : String} {db : Tree} {ids : List String}
    (hids : ∀ k, db.has (directChatRef a b ++ [k]) = true → k ∈ ids) :
    Deletable a b (State.initial db ids) where
  issued := .of_quiescent ⟨rfl, rfl, rfl⟩
  stored := hids
  sent := by simp [State.initial]
  once := List.Pairwise.nil
  marked := by simp [State.initial]
  ordered := List.Pairwise.nil

/-- **Deleted messages stay deleted and marking as read adds none**, in every run in
    which only messages still stored are marked, never across a deletion. -/
theorem deletions_last {a b : String} (hab : a ≠ b) {db : Tree} {ids : List String}
    (hids : ∀ k, db.has (directChatRef a b ++ [k]) = true → k ∈ ids) :
    DeletionsLast catalogue (fun s e => InOrder s e ∧ Current s e) a b
        (State.initial db ids) ∧
      MarksAddNothing catalogue (fun s e => InOrder s e ∧ Current s e) a b
        (State.initial db ids) := by
  have hdeletable : ∀ events s, (app catalogue).Run (fun s e => InOrder s e ∧ Current s e)
      (State.initial db ids) events s → Deletable a b s := by
    intro events s run
    refine run.invariant (Deletable a b) ?_ (.initial hids)
    exact fun u e v hu hok hst => hu.step hab hok.1 hok.2 hst
  constructor
  · intro events s index e t events' u run hget hdrop hok hst later k hstored
    have hs := hdeletable events s run
    obtain ⟨before, e', after, hout, hlen, rfl⟩ := step_deliver _ hst
    have heq : e' = e := by
      rw [hout, ← hlen] at hget
      simpa using hget
    subst heq
    have hgone := hs.gone hout (hok.1.before hout hlen) hdrop hstored rfl
    have hlater : Gone a b k u := by
      refine later.invariant (Gone a b k) ?_ hgone
      exact fun v e w hv hok hst => hv.step hok.2 hst
    exact hlater.absent
  · intro events s index e t unread run hget hread hst k hstored
    have hs := hdeletable events s run
    have hmem : e ∈ s.outstanding := List.mem_of_getElem? hget
    obtain ⟨before, e', after, hout, hlen, rfl⟩ := step_deliver _ hst
    have heq : e' = e := by
      rw [hout, ← hlen] at hget
      simpa using hget
    subst heq
    rw [app_apply, (hs.issued.writes e' hmem).has_message, hread, message_target_read] at hstored
    split at hstored
    · rename_i hmarked
      obtain ⟨-, m, hm, rfl⟩ := hmarked
      exact hs.marked e' hmem unread hread m hm
    · exact hstored

/-- The chat of a session is shown, the chat object decoded from a snapshot, at some
    time before; all sessions belong to the two users. -/
def chatOps (a b : String) (s : State) : Event → Bool
  | .start client op _ =>
      (decide (client.user = a) || decide (client.user = b)) &&
        match op with
        | .markDirectChatMessagesAsRead chat => s.decoded client chat
        | .deleteDirectChat chat =>
            s.shown client (directChatsRef client.user) chat.chatPartner.username
        | .removeTeammate t => s.shown client (teammatesRef client.user) t.username
        | _ => true
  | _ => true

/-- Bob's unread greeting in alice's copy of their conversation. -/
def greeted : Tree :=
  PathTree.empty.put (directChatRef "alice1" "bobbob" ++ ["-0"])
    (Tree.ofDictionary (newMessage "bobbob" "hi" 5 "-0").asDictionary)

theorem keys_greeted (k : String)
    (h : greeted.has (directChatRef "alice1" "bobbob" ++ [k]) = true) : k ∈ ["-0"] := by
  have hvalue := has_asDictionary (newMessage "bobbob" "hi" 5 "-0")
  rw [greeted, has_put _ fun _ => Or.inr hvalue, presencePut_child _ _ _ hvalue] at h
  split at h
  · rename_i heq
    simp [heq]
  · cases h

/-- Alice deletes the chat on her first device while it is open on the second. -/
def deletion : List Event :=
  [.observe ⟨"alice1", 1⟩, .observe ⟨"alice1", 2⟩,
    .start ⟨"alice1", 1⟩ (.deleteDirectChat ⟨somebody "bobbob", []⟩) "-1"]

/-- Bob writes again, and alice marks what she is shown. -/
def writesAgain : List Event :=
  [.start ⟨"bobbob", 1⟩ (.sendDirectMessage "hello" (somebody "alice1") 7) "-2", .deliver 0,
    .deliver 0, .observe ⟨"alice1", 2⟩,
    .start ⟨"alice1", 2⟩ (.markDirectChatMessagesAsRead
      ⟨somebody "bobbob", [newMessage "bobbob" "hello" 7 "-2"]⟩) "-3", .deliver 0]

/-- The deletion has arrived: only the new message is there. -/
theorem deletions_last_greeted :
    ∃ s t u, (app []).exec (fun s e => decide (InOrder s e ∧ Current s e))
        (State.initial greeted ["-0"]) deletion = some s ∧
      (app []).step s (.deliver 0) = some t ∧
      (app []).exec (fun s e => decide (InOrder s e ∧ Current s e)) t writesAgain = some u ∧
      u.store.has (directChatRef "alice1" "bobbob" ++ ["-0"]) = false ∧
      u.store.has (directChatRef "alice1" "bobbob" ++ ["-2"]) = true := by
  have hend : ((app []).exec (fun s e => decide (InOrder s e ∧ Current s e))
      (State.initial greeted ["-0"]) deletion).bind (fun s =>
        ((app []).step s (.deliver 0)).bind fun t =>
          ((app []).exec (fun s e => decide (InOrder s e ∧ Current s e)) t writesAgain).map
            fun u => (s.outstanding[0]?,
              s.store.has (directChatRef "alice1" "bobbob" ++ ["-0"]),
              u.store.has (directChatRef "alice1" "bobbob" ++ ["-2"]))) =
      some (some ⟨⟨"alice1", 1⟩, dropChat "alice1" "bobbob"⟩, true, true) := by
    decide +kernel
  obtain ⟨s, hs, hrest⟩ := Option.bind_eq_some_iff.mp hend
  obtain ⟨t, ht, hrest⟩ := Option.bind_eq_some_iff.mp hrest
  obtain ⟨u, hu, hout⟩ := Option.map_eq_some_iff.mp hrest
  obtain ⟨hget, hbefore, hafter⟩ : s.outstanding[0]? = _ ∧ _ = true ∧ _ = true := by
    simpa only [Prod.mk.injEq] using hout
  have run := run_of_exec (fun s e h => of_decide_eq_true h) hs
  have later := run_of_exec (fun s e h => of_decide_eq_true h) hu
  have hlast : DeletionsLast [] (fun s e => InOrder s e ∧ Current s e) "alice1" "bobbob"
      (State.initial greeted ["-0"]) := (deletions_last (by decide) keys_greeted).1
  have hgone := hlast deletion s 0 _ t writesAgain u run hget rfl
    ⟨fun e he e' he' => by simp at he', trivial⟩ ht later "-0" hbefore
  exact ⟨s, t, u, hs, ht, hu, hgone, hafter⟩

/-- Only after the deletion does the second device mark what it shows as read. -/
def lateMark : List Event :=
  [.start ⟨"alice1", 2⟩ (.markDirectChatMessagesAsRead
      ⟨somebody "bobbob", [newMessage "bobbob" "hi" 5 "-0"]⟩) "-2",
    .deliver 0]

theorem not_deletions_last :
    ¬ ∀ (a b : String) (db : Tree) (ids : List String), a ≠ b →
      (∀ k, db.has (directChatRef a b ++ [k]) = true → k ∈ ids) →
      DeletionsLast [] (fun s e => chatOps a b s e = true ∧ InOrder s e) a b
          (State.initial db ids) ∧
        MarksAddNothing [] (fun s e => chatOps a b s e = true ∧ InOrder s e) a b
          (State.initial db ids) := by
  intro hall
  obtain ⟨hlast, -⟩ := hall "alice1" "bobbob" greeted ["-0"] (by decide) keys_greeted
  have hend : ((app []).exec
      (fun s e => decide (chatOps "alice1" "bobbob" s e = true ∧ InOrder s e))
      (State.initial greeted ["-0"]) deletion).bind (fun s =>
        ((app []).step s (.deliver 0)).bind fun t =>
          ((app []).exec (fun s e => decide (chatOps "alice1" "bobbob" s e = true ∧ InOrder s e))
            t lateMark).map fun u =>
              (s.outstanding[0]?, s.store.has (directChatRef "alice1" "bobbob" ++ ["-0"]),
                u.store.has (directChatRef "alice1" "bobbob" ++ ["-0"]))) =
      some (some ⟨⟨"alice1", 1⟩, dropChat "alice1" "bobbob"⟩, true, true) := by
    decide +kernel
  obtain ⟨s, hs, hrest⟩ := Option.bind_eq_some_iff.mp hend
  obtain ⟨t, ht, hrest⟩ := Option.bind_eq_some_iff.mp hrest
  obtain ⟨u, hu, hout⟩ := Option.map_eq_some_iff.mp hrest
  obtain ⟨hget, hbefore, hafter⟩ : s.outstanding[0]? = _ ∧ _ = true ∧ _ = true := by
    simpa only [Prod.mk.injEq] using hout
  have run := run_of_exec (fun s e h => of_decide_eq_true h) hs
  have later := run_of_exec (fun s e h => of_decide_eq_true h) hu
  have hgone := hlast deletion s 0 _ t lateMark u run hget rfl
    ⟨rfl, fun _ _ _ h => by simp at h⟩ ht later "-0" hbefore
  rw [hafter] at hgone
  cases hgone

end TeamUp
