import TeamUp.FetchChats
import TeamUp.MessageCopies

/-!
# The order of the messages

A chat is sorted by the timestamps of its messages, which are whole seconds of the
clock of whoever sent them; messages with the same timestamp stay in the order in
which the dictionary was enumerated.  So the timestamps order a chat and nothing else
does: a message precedes another one in every enumeration of the same snapshot exactly
if its timestamp is smaller.
-/

namespace TeamUp

open Protocol

variable {catalogue : List Game} {a b : String} {sent : List Message} {view snapshot : Tree}
variable {lookup : String → Tree} {chat chat' : DirectChat}

/-! ### Sorting -/

/-- The message `i` is listed before the message `j`. -/
def Precedes (messages : List Message) (i j : String) : Prop :=
  [i, j].Sublist (messages.map Message.id)

instance (messages : List Message) (i j : String) : Decidable (Precedes messages i j) :=
  inferInstanceAs (Decidable (List.Sublist _ _))

theorem Precedes.asymm {messages : List Message} {i j : String}
    (hnodup : (messages.map Message.id).Nodup) (h : Precedes messages i j) :
    ¬ Precedes messages j i := by
  unfold Precedes at h ⊢
  generalize messages.map Message.id = ids at *
  induction ids with
  | nil => cases h
  | cons k rest ih =>
    obtain ⟨hk, hrest⟩ := List.nodup_cons.mp hnodup
    intro h'
    cases h with
    | cons _ hsub =>
      cases h' with
      | cons _ hsub' => exact ih hrest hsub hsub'
      | cons_cons _ _ => exact hk (hsub.subset (by simp))
    | cons_cons _ hsub =>
      cases h' with
      | cons _ hsub' => exact hk (hsub'.subset (by simp))
      | cons_cons _ _ => exact hk (List.singleton_sublist.mp hsub)

theorem sorted_total (m m' : Message) :
    (decide (m.timestamp ≤ m'.timestamp) || decide (m'.timestamp ≤ m.timestamp)) = true := by
  simpa using Int.le_total m.timestamp m'.timestamp

theorem sorted_trans (m m' m'' : Message) (h : decide (m.timestamp ≤ m'.timestamp) = true)
    (h' : decide (m'.timestamp ≤ m''.timestamp) = true) :
    decide (m.timestamp ≤ m''.timestamp) = true :=
  decide_eq_true (Int.le_trans (of_decide_eq_true h) (of_decide_eq_true h'))

theorem pairwise_sortedMessages (messages : List Message) :
    (sortedMessages messages).Pairwise fun m m' => m.timestamp ≤ m'.timestamp :=
  (List.pairwise_mergeSort sorted_trans sorted_total messages).imp of_decide_eq_true

/-- Sorted messages with different timestamps stand in the order of these. -/
theorem precedes_of_lt {messages : List Message}
    (hsorted : messages.Pairwise fun m m' => m.timestamp ≤ m'.timestamp) {m m' : Message}
    (hm : m ∈ messages) (hm' : m' ∈ messages) (hlt : m.timestamp < m'.timestamp) :
    Precedes messages m.id m'.id := by
  have hne : m ≠ m' := fun heq => Int.lt_irrefl _ (heq ▸ hlt)
  rcases pair_sublist hm hm' hne with hbefore | hafter
  · exact hbefore.map Message.id
  · have hle := List.pairwise_pair.mp (hsorted.sublist hafter)
    omega

/-- The sort is stable. -/
theorem precedes_sortedMessages {messages : List Message} {m m' : Message}
    (hle : m.timestamp ≤ m'.timestamp) (h : [m, m'].Sublist messages) :
    Precedes (sortedMessages messages) m.id m'.id :=
  (List.pair_sublist_mergeSort sorted_trans sorted_total (decide_eq_true hle) h).map Message.id

theorem mem_sortedMessages {messages : List Message} {m : Message} :
    m ∈ sortedMessages messages ↔ m ∈ messages :=
  (List.mergeSort_perm messages _).mem_iff

/-! ### The chat of a snapshot -/

/-- An observer of the chats of `a` that is given this view decodes this chat with `b`. -/
def Displays (view : Tree) (a b : String) (lookup : String → Tree) (chat : DirectChat) : Prop :=
  ∃ snapshot, (Query.value (directChatsRef a)).answers view snapshot = true ∧
    FetchChats.chatUnder snapshot lookup b = some chat

/-- A session of `a` was given a view from which it decodes this chat with `b`. -/
def Shown (s : State) (a b : String) (chat : DirectChat) : Prop :=
  ∃ view ∈ s.seen, view.1.user = a ∧ ∃ lookup, Displays view.2 a b lookup chat

/-- The message under a key of a chat. -/
def messageUnder (chatDictionary : Tree) (key : String) : Option Message :=
  (Tree.asDictionary (chatDictionary.get key)).bind Message.ofDictionary

/-- The chat under a key is that of the partner found, with what decodes sorted. -/
theorem chatUnder_eq_some : FetchChats.chatUnder snapshot lookup b = some chat ↔
    (Tree.asDictionary (snapshot.get b)).isSome ∧ ∃ user, fetchedUser (lookup b) = some user ∧
      (snapshot.get b).keys.filterMap (messageUnder (snapshot.get b)) ≠ [] ∧
      chat = ⟨user, sortedMessages ((snapshot.get b).keys.filterMap
        (messageUnder (snapshot.get b)))⟩ := by
  simp only [FetchChats.chatUnder, Option.bind_eq_bind, Option.bind_eq_some_iff, fetchedChat,
    List.isEmpty_iff]
  constructor
  · rintro ⟨chatDictionary, hdictionary, user, huser, hchat⟩
    obtain rfl := Tree.asDictionary_eq_some hdictionary
    split at hchat
    · cases hchat
    · rename_i hsome
      exact ⟨by rw [hdictionary]; rfl, user, huser, hsome, (Option.some.inj hchat).symm⟩
  · rintro ⟨hdictionary, user, huser, hsome, rfl⟩
    obtain ⟨chatDictionary, hchatDictionary⟩ := Option.isSome_iff_exists.mp hdictionary
    obtain rfl := Tree.asDictionary_eq_some hchatDictionary
    exact ⟨_, hchatDictionary, user, huser, if_neg hsome⟩

/-- What a copy of the conversation holds are messages sent, read or not. -/
def HoldsSent (sent : List Message) (a b : String) (view : Tree) : Prop :=
  ∀ k, view.has (directChatRef a b ++ [k]) = true →
    ∃ m ∈ sent, ∃ r, m.id = k ∧ Stores view a b { m with read := r }

theorem leafAt_snapshot (hsnapshot : (Query.value (directChatsRef a)).answers view snapshot = true)
    (path : List String) :
    (snapshot.get b).leafAt path = view.leafAt (directChatRef a b ++ path) := by
  rw [PathTree.leafAt_child, (of_decide_eq_true hsnapshot).leafAt]
  exact PathTree.leafAt_sub view (directChatsRef a) (b :: path)

theorem mem_keys_snapshot
    (hsnapshot : (Query.value (directChatsRef a)).answers view snapshot = true) {k : String} :
    k ∈ (snapshot.get b).keys ↔ view.has (directChatRef a b ++ [k]) = true := by
  rw [PathTree.mem_keys, PathTree.has_iff_leafAt, PathTree.has_iff_leafAt]
  simp only [leafAt_snapshot hsnapshot, List.append_assoc]

/-- However a snapshot is enumerated, it holds under a key the message stored there. -/
theorem messageUnder_snapshot
    (hsnapshot : (Query.value (directChatsRef a)).answers view snapshot = true)
    (hview : HoldsSent sent a b view) {k : String} (hk : k ∈ (snapshot.get b).keys) :
    messageUnder (snapshot.get b) k = storedMessage view a b k ∧
      ∃ m ∈ sent, ∃ r, m.id = k ∧ storedMessage view a b k = some { m with read := r } := by
  obtain ⟨m, hm, r, rfl, hstores⟩ := hview k ((mem_keys_snapshot hsnapshot).mp hk)
  have hunder : messageUnder (snapshot.get b) m.id = some { m with read := r } := by
    refine Message.decodes_of_field fun field => ?_
    rw [PathTree.leafAt_child, leafAt_snapshot hsnapshot]
    exact hstores field
  have hstored : storedMessage view a b m.id = some { m with read := r } := hstores.decodes
  exact ⟨hunder.trans hstored.symm, m, hm, r, rfl, hstored⟩

/-- The messages of a chat are listed under their ids. -/
theorem ids_snapshot (hsnapshot : (Query.value (directChatsRef a)).answers view snapshot = true)
    (hview : HoldsSent sent a b view) :
    ((snapshot.get b).keys.filterMap (messageUnder (snapshot.get b))).map Message.id =
      (snapshot.get b).keys := by
  rw [List.map_filterMap]
  refine (List.filterMap_congr fun k hk => ?_).trans List.filterMap_some
  obtain ⟨hunder, m, -, r, hid, hstored⟩ := messageUnder_snapshot hsnapshot hview hk
  rw [hunder, hstored]
  exact congrArg some hid

namespace Displays

theorem sorted (h : Displays view a b lookup chat) :
    chat.messages.Pairwise fun m m' => m.timestamp ≤ m'.timestamp := by
  obtain ⟨snapshot, -, hchat⟩ := h
  obtain ⟨-, user, -, -, rfl⟩ := chatUnder_eq_some.mp hchat
  exact pairwise_sortedMessages _

/-- A chat lists the ids under which its copy holds a message, each once. -/
theorem ids (h : Displays view a b lookup chat) (hview : HoldsSent sent a b view) :
    (chat.messages.map Message.id).Nodup ∧
      ∀ k, k ∈ chat.messages.map Message.id ↔ view.has (directChatRef a b ++ [k]) = true := by
  obtain ⟨snapshot, hsnapshot, hchat⟩ := h
  obtain ⟨-, user, -, -, rfl⟩ := chatUnder_eq_some.mp hchat
  have hperm : ((sortedMessages ((snapshot.get b).keys.filterMap
      (messageUnder (snapshot.get b)))).map Message.id).Perm (snapshot.get b).keys := by
    refine ((List.mergeSort_perm _ _).map Message.id).trans ?_
    rw [ids_snapshot hsnapshot hview]
  refine ⟨hperm.nodup_iff.mpr (List.nodup_dedup _), fun k => ?_⟩
  rw [hperm.mem_iff, mem_keys_snapshot hsnapshot]

/-- What a chat lists is stored in its copy. -/
theorem stored (h : Displays view a b lookup chat) (hview : HoldsSent sent a b view)
    {m : Message} (hm : m ∈ chat.messages) : storedMessage view a b m.id = some m := by
  obtain ⟨snapshot, hsnapshot, hchat⟩ := h
  obtain ⟨-, user, -, -, rfl⟩ := chatUnder_eq_some.mp hchat
  obtain ⟨k, hk, hunder⟩ := List.mem_filterMap.mp (mem_sortedMessages.mp hm)
  obtain ⟨hsame, m₀, -, r, hid, hstored⟩ := messageUnder_snapshot hsnapshot hview hk
  rw [hsame, hstored] at hunder
  rw [← Option.some.inj hunder]
  exact hid ▸ hstored

theorem of_sent (h : Displays view a b lookup chat) (hview : HoldsSent sent a b view)
    {m : Message} (hm : m ∈ chat.messages) : ∃ m₀ ∈ sent, ∃ r, m = { m₀ with read := r } := by
  have hstored := h.stored hview hm
  obtain ⟨m₀, hm₀, r, hid, hstores⟩ := hview m.id (has_of_storedMessage hstored)
  have hsame : storedMessage view a b m.id = some { m₀ with read := r } := hid ▸ hstores.decodes
  exact ⟨m₀, hm₀, r, Option.some.inj (hstored.symm.trans hsame)⟩

/-- Of two messages with the same timestamp, or in the wrong order, a snapshot of the same
    view may enumerate either one first. -/
theorem exists_precedes (h : Displays view a b lookup chat) (hview : HoldsSent sent a b view)
    {m m' : Message} (hm : m ∈ chat.messages) (hm' : m' ∈ chat.messages) (hne : m.id ≠ m'.id)
    (hle : m'.timestamp ≤ m.timestamp) :
    ∃ chat', Displays view a b lookup chat' ∧ Precedes chat'.messages m'.id m.id := by
  have hstored := h.stored hview hm
  have hstored' := h.stored hview hm'
  obtain ⟨snapshot, hsnapshot, hchat⟩ := h
  obtain ⟨hdictionary, user, huser, -, rfl⟩ := chatUnder_eq_some.mp hchat
  -- the same snapshot, enumerated from `m'` on
  obtain ⟨snapshot', hsame, hfirst⟩ : ∃ snapshot' : Tree, PathTree.Same snapshot' snapshot ∧
      (m'.id ∈ (snapshot'.get b).keys → m.id ∈ (snapshot'.get b).keys →
        [m'.id, m.id].Sublist (snapshot'.get b).keys) :=
    ⟨snapshot.startingAt ([b] ++ [m'.id]), PathTree.same_startingAt _ _,
      PathTree.pair_sublist_startingAt snapshot [b] hne⟩
  have hanswers : (Query.value (directChatsRef a)).answers view snapshot' = true :=
    decide_eq_true fun e => (hsame e).trans (of_decide_eq_true hsnapshot e)
  have hkey : m.id ∈ (snapshot'.get b).keys :=
    (mem_keys_snapshot hanswers).mpr (has_of_storedMessage hstored)
  have hkey' : m'.id ∈ (snapshot'.get b).keys :=
    (mem_keys_snapshot hanswers).mpr (has_of_storedMessage hstored')
  have hpair : [m', m].Sublist
      ((snapshot'.get b).keys.filterMap (messageUnder (snapshot'.get b))) := by
    have hunder := (messageUnder_snapshot hanswers hview hkey).1.trans hstored
    have hunder' := (messageUnder_snapshot hanswers hview hkey').1.trans hstored'
    have hsub := (hfirst hkey' hkey).filterMap (messageUnder (snapshot'.get b))
    simpa only [List.filterMap_cons, hunder, hunder', List.filterMap_nil] using hsub
  refine ⟨⟨user, _⟩, ⟨snapshot', hanswers, chatUnder_eq_some.mpr ⟨?_, user, huser, ?_, rfl⟩⟩,
    precedes_sortedMessages hle hpair⟩
  · rcases Tree.asDictionary_congr (hsame.sub [b]) with ⟨-, hnone⟩ | ⟨hsome, -⟩
    · rw [Tree.get, PathTree.child, hnone] at hdictionary
      cases hdictionary
    · exact Option.isSome_of_eq_some hsome
  · intro hnil
    rw [hnil] at hpair
    cases hpair

/-- **One message precedes another in every enumeration exactly if its timestamp is
    smaller.** -/
theorem precedes_iff (h : Displays view a b lookup chat) (hview : HoldsSent sent a b view)
    {m m' : Message} (hm : m ∈ chat.messages) (hm' : m' ∈ chat.messages) (hne : m.id ≠ m'.id) :
    (∀ chat', Displays view a b lookup chat' → Precedes chat'.messages m.id m'.id) ↔
      m.timestamp < m'.timestamp := by
  constructor
  · intro hall
    by_contra hlt
    obtain ⟨chat', hchat', hafter⟩ := h.exists_precedes hview hm hm' hne (Int.not_lt.mp hlt)
    exact hafter.asymm (hchat'.ids hview).1 (hall chat' hchat')
  · intro hlt chat' hchat'
    -- every enumeration lists both messages
    have hlisted : ∀ {x : Message}, x ∈ chat.messages → x ∈ chat'.messages := by
      intro x hx
      have hhas := has_of_storedMessage (h.stored hview hx)
      obtain ⟨y, hy, hid⟩ := List.mem_map.mp (((hchat'.ids hview).2 x.id).mpr hhas)
      have hsame : some y = some x :=
        (hchat'.stored hview hy).symm.trans (hid ▸ h.stored hview hx)
      exact Option.some.inj hsame ▸ hy
    exact precedes_of_lt hchat'.sorted (hlisted hm) (hlisted hm') hlt

end Displays

/-! ### Runs -/

/-- No clock runs backwards: what a user sends later has no smaller timestamp. -/
def ClocksRunOn (sent : List Message) : Prop :=
  sent.Pairwise fun m m' => m.fromUser = m'.fromUser → m.timestamp ≤ m'.timestamp

instance (sent : List Message) : Decidable (ClocksRunOn sent) :=
  inferInstanceAs (Decidable (List.Pairwise _ _))

theorem ClocksRunOn.le {m m' : Message} (h : ClocksRunOn sent) (hlater : [m, m'].Sublist sent)
    (hfrom : m.fromUser = m'.fromUser) : m.timestamp ≤ m'.timestamp :=
  List.pairwise_pair.mp (h.sublist hlater) hfrom

theorem Conversed.holdsSent {s : State} (h : Conversed sent a b s) {shown : Session × Tree}
    (hshown : shown ∈ s.seen) (huser : shown.1.user = a) : HoldsSent sent a b shown.2 := by
  intro k hk
  obtain ⟨m, hm, r, hid, hstores, -⟩ := h.seen shown hshown huser k hk
  exact ⟨m, hm, r, hid, hstores⟩

/-- Messages with different timestamps are listed in the order of these. -/
theorem Shown.precedes_iff {s : State} (h : Conversed sent a b s) (hchat : Shown s a b chat)
    {m m' : Message} (hm : m ∈ sent) (hm' : m' ∈ sent)
    (hlisted : m.id ∈ chat.messages.map Message.id)
    (hlisted' : m'.id ∈ chat.messages.map Message.id) (hne : m.timestamp ≠ m'.timestamp) :
    Precedes chat.messages m.id m'.id ↔ m.timestamp < m'.timestamp := by
  obtain ⟨view, hview, huser, lookup, hdisplays⟩ := hchat
  have hholds := h.holdsSent hview huser
  -- what is listed under the id of a message has its timestamp
  have hread : ∀ {x : Message}, x ∈ sent → x.id ∈ chat.messages.map Message.id →
      ∃ y ∈ chat.messages, y.id = x.id ∧ y.timestamp = x.timestamp := by
    intro x hx hid
    obtain ⟨y, hy, hyid⟩ := List.mem_map.mp hid
    obtain ⟨y₀, hy₀, r, rfl⟩ := hdisplays.of_sent hholds hy
    obtain rfl := List.inj_on_of_nodup_map h.distinct hy₀ hx hyid
    exact ⟨_, hy, rfl, rfl⟩
  obtain ⟨y, hy, hid, htime⟩ := hread hm hlisted
  obtain ⟨y', hy', hid', htime'⟩ := hread hm' hlisted'
  rw [← htime, ← htime'] at hne ⊢
  rw [← hid, ← hid']
  constructor
  · intro hbefore
    by_contra hlt
    have hgt : y'.timestamp < y.timestamp := by omega
    exact hbefore.asymm (hdisplays.ids hholds).1 (precedes_of_lt hdisplays.sorted hy' hy hgt)
  · exact fun hlt => precedes_of_lt hdisplays.sorted hy hy' hlt

/-- What the sessions of `a` are shown of the messages sent between two users. -/
structure ListedByTime (sent : List Message) (s : State) (a b : String) : Prop where
  lists : ∀ chat, Shown s a b chat → (chat.messages.map Message.id).Nodup ∧
    ∀ m ∈ chat.messages, ∃ m₀ ∈ sent, m.markAsRead = m₀.markAsRead
  /-- A smaller timestamp comes first, whoever sent the messages. -/
  earlier : ∀ m ∈ sent, ∀ m' ∈ sent, m.timestamp < m'.timestamp → ∀ chat, Shown s a b chat →
    m.id ∈ chat.messages.map Message.id → m'.id ∈ chat.messages.map Message.id →
      Precedes chat.messages m.id m'.id
  /-- What the same user sent in another second keeps the order of sending. -/
  own : ∀ m m', [m, m'].Sublist sent → m.fromUser = m'.fromUser → m.timestamp ≠ m'.timestamp →
    ∀ chat, Shown s a b chat → m.id ∈ chat.messages.map Message.id →
      m'.id ∈ chat.messages.map Message.id → Precedes chat.messages m.id m'.id
  /-- Nothing but the timestamps is sure to order two messages. -/
  determined : ∀ view ∈ s.seen, view.1.user = a → ∀ lookup chat,
    Displays view.2 a b lookup chat → ∀ m ∈ chat.messages, ∀ m' ∈ chat.messages, m.id ≠ m'.id →
      ((∀ chat', Displays view.2 a b lookup chat' → Precedes chat'.messages m.id m'.id) ↔
        m.timestamp < m'.timestamp)
  /-- Once every write has arrived, nothing is missing. -/
  complete : s.outstanding = [] → ∀ lookup chat, Displays s.store a b lookup chat →
    (chat.messages.map Message.id).Perm (sent.map Message.id)

theorem Conversed.listedByTime {s : State} (h : Conversed sent a b s) (hclocks : ClocksRunOn sent) :
    ListedByTime sent s a b where
  lists := by
    rintro chat ⟨view, hview, huser, lookup, hdisplays⟩
    have hholds := h.holdsSent hview huser
    refine ⟨(hdisplays.ids hholds).1, fun m hm => ?_⟩
    obtain ⟨m₀, hm₀, r, rfl⟩ := hdisplays.of_sent hholds hm
    exact ⟨m₀, hm₀, rfl⟩
  earlier := fun m hm m' hm' hlt chat hchat hlisted hlisted' =>
    (hchat.precedes_iff h hm hm' hlisted hlisted' (Int.ne_of_lt hlt)).mpr hlt
  own := by
    intro m m' hlater hfrom hne chat hchat hlisted hlisted'
    have hle := hclocks.le hlater hfrom
    have hlt : m.timestamp < m'.timestamp := by omega
    exact (hchat.precedes_iff h (hlater.subset (by simp)) (hlater.subset (by simp)) hlisted
      hlisted' hne).mpr hlt
  determined := by
    intro view hview huser lookup chat hdisplays m hm m' hm' hne
    exact hdisplays.precedes_iff (h.holdsSent hview huser) hm hm' hne
  complete := by
    intro hrest lookup chat hdisplays
    obtain ⟨hids, -⟩ := h.keeps hrest
    have hholds : HoldsSent sent a b s.store := h.copy.stored
    obtain ⟨hnodup, hlisted⟩ := hdisplays.ids hholds
    refine (List.perm_ext_iff_of_nodup hnodup h.distinct).mpr fun k => ?_
    rw [hlisted, hids]

/-- **The chats of both users list the same messages by their timestamps**, in every run
    without deletions, whatever the order in which the writes arrive and the dictionaries
    are enumerated: so messages with different timestamps stand in the same order in both,
    and those of one user in the order of sending. -/
theorem chats_in_order (hab : a ≠ b) {db : Tree} {ids : List String}
    (hempty : db.has (directChatRef a b) = false) (hempty' : db.has (directChatRef b a) = false)
    {events : List Event} {t : State}
    (run : (app catalogue).Run (fun s e => messageOps s e = true) (State.initial db ids)
      events t) (hclocks : ClocksRunOn (sentBetween a b events)) :
    ListedByTime (sentBetween a b events) t a b ∧ ListedByTime (sentBetween a b events) t b a ∧
      ∀ chat chat', Shown t a b chat → Shown t b a chat' → ∀ m ∈ sentBetween a b events,
        ∀ m' ∈ sentBetween a b events, m.timestamp ≠ m'.timestamp →
          (∀ id ∈ [m.id, m'.id], id ∈ chat.messages.map Message.id ∧
            id ∈ chat'.messages.map Message.id) →
          (Precedes chat.messages m.id m'.id ↔ Precedes chat'.messages m.id m'.id) := by
  have hs := Conversed.of_run hab hempty run
  have hs' := Conversed.of_run hab.symm hempty' run
  rw [sentBetween_swap] at hs'
  refine ⟨hs.listedByTime hclocks, hs'.listedByTime hclocks, ?_⟩
  intro chat chat' hchat hchat' m hm m' hm' hne hlisted
  obtain ⟨hid, hid'⟩ := hlisted m.id (by simp)
  obtain ⟨hlater, hlater'⟩ := hlisted m'.id (by simp)
  rw [hchat.precedes_iff hs hm hm' hid hlater hne, hchat'.precedes_iff hs' hm hm' hid' hlater' hne]

/-- Bob greets alice, who answers a second later. -/
def answered : List Event :=
  [.start ⟨"bobbob", 1⟩ (.sendDirectMessage "hi" (somebody "alice1") 5) "-0",
    .deliver 1, .deliver 0, .observe ⟨"alice1", 1⟩,
    .start ⟨"alice1", 1⟩ (.sendDirectMessage "hello" (somebody "bobbob") 6) "-1",
    .deliver 1, .observe ⟨"bobbob", 1⟩, .deliver 0]

theorem chats_in_order_answered :
    ∃ t, (app []).exec messageOps (State.initial PathTree.empty []) answered = some t ∧
      ListedByTime (sentBetween "alice1" "bobbob" answered) t "alice1" "bobbob" ∧
      ListedByTime (sentBetween "alice1" "bobbob" answered) t "bobbob" "alice1" := by
  have hdone : ((app []).exec messageOps (State.initial PathTree.empty []) answered).isSome := by
    decide +kernel
  obtain ⟨t, ht⟩ := Option.isSome_iff_exists.mp hdone
  have run := run_of_exec (fun _ _ h => h) ht
  obtain ⟨halice, hbob, -⟩ := chats_in_order (a := "alice1") (b := "bobbob") (by decide) rfl rfl
    run (by decide +kernel)
  exact ⟨t, ht, halice, hbob⟩

/-! ### Ties and late clocks -/

/-- Both users list two messages in the same order. -/
def SameOrder (s : State) (a b : String) : Prop :=
  ∀ chat chat', Shown s a b chat → Shown s b a chat' →
    ∀ i ∈ chat'.messages.map Message.id, ∀ j ∈ chat'.messages.map Message.id,
      Precedes chat.messages i j → Precedes chat'.messages i j

/-- What a user sends later is listed later. -/
def OwnInOrder (sent : List Message) (s : State) (a b : String) : Prop :=
  ∀ m m', [m, m'].Sublist sent → m.fromUser = m'.fromUser → ∀ chat, Shown s a b chat →
    m.id ∈ chat.messages.map Message.id → m'.id ∈ chat.messages.map Message.id →
      Precedes chat.messages m.id m'.id

/-- What a session sends after it was shown a message is listed after it. -/
def RepliesInOrder (initial : State) (events : List Event) (s : State) (a b : String) : Prop :=
  ∀ done client text partner timestamp id rest u k,
    events = done ++ .start client (.sendDirectMessage text partner timestamp) id :: rest →
    (app []).exec messageOps initial done = some u →
    State.shown u client (directChatRef client.user partner.username) k = true →
    ∀ chat, Shown s a b chat → k ∈ chat.messages.map Message.id →
      id ∈ chat.messages.map Message.id → Precedes chat.messages k id

/-- The messages of the chat with `b` before they are sorted, as a session of `a` was last
    given them, enumerated from the message `k` on. -/
def enumerated (s : State) (a b k : String) : Option (List Message) := do
  let view ← s.seen.reverse.find? fun view => view.1.user = a
  let snapshot := (view.2.sub (directChatsRef a)).startingAt ([b] ++ [k])
  let chatDictionary ← Tree.asDictionary (Tree.get snapshot b)
  some (chatDictionary.keys.filterMap (messageUnder chatDictionary))

theorem shown_of_enumerated {s : State} {k : String} {user : User} {messages : List Message}
    (huser : fetchedUser (record b) = some user) (h : enumerated s a b k = some messages)
    (hsome : messages ≠ []) : Shown s a b ⟨user, sortedMessages messages⟩ := by
  simp only [enumerated, Option.bind_eq_bind, Option.bind_eq_some_iff, Option.some.injEq] at h
  obtain ⟨view, hfind, chatDictionary, hdictionary, rfl⟩ := h
  obtain rfl := Tree.asDictionary_eq_some hdictionary
  have hmem : view ∈ s.seen := List.mem_reverse.mp (List.mem_of_find?_eq_some hfind)
  have hview : view.1.user = a := by simpa using List.find?_some hfind
  exact ⟨view, hmem, hview, record, _, decide_eq_true (PathTree.same_startingAt _ _),
    chatUnder_eq_some.mpr ⟨Option.isSome_of_eq_some hdictionary, user, huser, hsome, rfl⟩⟩

def hello : Message := newMessage "bobbob" "hi" 5 "-0"

def question : Message := newMessage "bobbob" "how are you" 5 "-1"

def answer : Message := newMessage "alice1" "fine" 3 "-1"

/-- Bob greets alice and asks her in the same second. -/
def twoGreetings : List Event :=
  [.start ⟨"bobbob", 1⟩ (.sendDirectMessage "hi" (somebody "alice1") 5) "-0",
    .start ⟨"bobbob", 1⟩ (.sendDirectMessage "how are you" (somebody "alice1") 5) "-1",
    .deliver 0, .deliver 0, .deliver 0, .deliver 0,
    .observe ⟨"alice1", 1⟩, .observe ⟨"bobbob", 1⟩]

/-- Bob greets alice, who answers at once; her clock is two seconds late. -/
def lateAnswer : List Event :=
  [.start ⟨"bobbob", 1⟩ (.sendDirectMessage "hi" (somebody "alice1") 5) "-0",
    .deliver 0, .deliver 0, .observe ⟨"alice1", 1⟩,
    .start ⟨"alice1", 1⟩ (.sendDirectMessage "fine" (somebody "bobbob") 3) "-1",
    .deliver 0, .deliver 0, .observe ⟨"alice1", 1⟩]

/-- The enumeration decides between two messages of the same second. -/
theorem not_precedes_of_tie (m m' : Message) (hne : m.id ≠ m'.id)
    (htie : m.timestamp = m'.timestamp) :
    ¬ Precedes (sortedMessages [m, m']) m'.id m.id := by
  have hids : ((sortedMessages [m, m']).map Message.id).Perm [m.id, m'.id] :=
    (List.mergeSort_perm [m, m'] _).map Message.id
  have hnodup : ((sortedMessages [m, m']).map Message.id).Nodup :=
    hids.nodup_iff.mpr (by simpa using hne)
  exact (precedes_sortedMessages (Int.le_of_eq htie) (List.Sublist.refl _)).asymm hnodup

/-- The clocks decide between two messages of different seconds. -/
theorem not_precedes_of_late (m m' : Message) (hne : m.id ≠ m'.id)
    (hlate : m'.timestamp < m.timestamp) :
    ¬ Precedes (sortedMessages [m, m']) m.id m'.id := by
  have hids : ((sortedMessages [m, m']).map Message.id).Perm [m.id, m'.id] :=
    (List.mergeSort_perm [m, m'] _).map Message.id
  have hnodup : ((sortedMessages [m, m']).map Message.id).Nodup :=
    hids.nodup_iff.mpr (by simpa using hne)
  exact (precedes_of_lt (pairwise_sortedMessages _) (mem_sortedMessages.mpr (by simp))
    (mem_sortedMessages.mpr (by simp)) hlate).asymm hnodup

theorem not_always_in_order :
    (¬ ∀ events t, (app []).Run (fun s e => messageOps s e = true)
        (State.initial PathTree.empty []) events t →
      ClocksRunOn (sentBetween "alice1" "bobbob" events) → SameOrder t "alice1" "bobbob") ∧
    (¬ ∀ events t, (app []).Run (fun s e => messageOps s e = true)
        (State.initial PathTree.empty []) events t →
      ClocksRunOn (sentBetween "alice1" "bobbob" events) →
        OwnInOrder (sentBetween "alice1" "bobbob" events) t "alice1" "bobbob") ∧
    ¬ ∀ events t, (app []).Run (fun s e => messageOps s e = true)
        (State.initial PathTree.empty []) events t →
      ClocksRunOn (sentBetween "alice1" "bobbob" events) →
        RepliesInOrder (State.initial PathTree.empty []) events t "alice1" "bobbob" := by
  have hbob : fetchedUser (record "bobbob") = some (somebody "bobbob") := by decide +kernel
  have halice : fetchedUser (record "alice1") = some (somebody "alice1") := by decide +kernel
  have hties : ((app []).exec messageOps (State.initial PathTree.empty []) twoGreetings).map
      (fun t => (enumerated t "alice1" "bobbob" "-0", enumerated t "alice1" "bobbob" "-1",
        enumerated t "bobbob" "alice1" "-1")) =
      some (some [hello, question], some [question, hello], some [question, hello]) := by
    decide +kernel
  have hlate : ((app []).exec messageOps (State.initial PathTree.empty []) lateAnswer).map
      (fun t => enumerated t "alice1" "bobbob" "-0") = some (some [hello, answer]) := by
    decide +kernel
  have hreceived : ((app []).exec messageOps (State.initial PathTree.empty [])
      (lateAnswer.take 4)).map (fun u => State.shown u ⟨"alice1", 1⟩
        (directChatRef "alice1" "bobbob") "-0") = some true := by
    decide +kernel
  obtain ⟨t, ht, henumerated⟩ := Option.map_eq_some_iff.mp hties
  obtain ⟨hfirst, hsecond, hother⟩ : _ ∧ _ ∧ _ := by
    simpa only [Prod.mk.injEq] using henumerated
  obtain ⟨v, hv, hanswered⟩ := Option.map_eq_some_iff.mp hlate
  obtain ⟨u, hu, hshown⟩ := Option.map_eq_some_iff.mp hreceived
  have run := run_of_exec (fun _ _ h => h) ht
  have hlisted : ∀ {messages : List Message} {k : String}, k ∈ messages.map Message.id →
      k ∈ (sortedMessages messages).map Message.id := by
    intro messages k hk
    exact ((List.mergeSort_perm messages _).map Message.id).mem_iff.mpr hk
  refine ⟨fun hall => ?_, fun hall => ?_, fun hall => ?_⟩
  · -- alice's dictionary starts with the greeting, bob's with the question
    have hsame : Precedes (sortedMessages [question, hello]) hello.id question.id :=
      hall _ t run (by decide +kernel) _ _
        (shown_of_enumerated hbob hfirst (by simp)) (shown_of_enumerated halice hother (by simp))
        _ (hlisted (by decide)) _ (hlisted (by decide))
        (precedes_sortedMessages (Int.le_refl 5) (List.Sublist.refl [hello, question]))
    exact not_precedes_of_tie question hello (by decide) rfl hsame
  · -- alice's dictionary starts with the question
    have hown : Precedes (sortedMessages [question, hello]) hello.id question.id :=
      hall _ t run (by decide +kernel) hello question (by decide +kernel) rfl _
        (shown_of_enumerated hbob hsecond (by simp)) (hlisted (by decide)) (hlisted (by decide))
    exact not_precedes_of_tie question hello (by decide) rfl hown
  · have hreply : Precedes (sortedMessages [hello, answer]) hello.id answer.id :=
      hall _ v (run_of_exec (fun _ _ h => h) hv) (by decide +kernel)
        (lateAnswer.take 4) ⟨"alice1", 1⟩ "fine" (somebody "bobbob") 3 "-1" _ u "-0" rfl hu hshown _
        (shown_of_enumerated hbob hanswered (by simp)) (hlisted (by decide)) (hlisted (by decide))
    exact not_precedes_of_late hello answer (by decide) (by decide) hreply

end TeamUp
