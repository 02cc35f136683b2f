import TeamUp.Provenance
import TeamUp.OnlineEntries
import TeamUp.Requests

/-!
# Who put what into the database

The database has no rules of its own: every session may write everywhere.  `Puts` tabulates
what an operation puts at which paths, at once or by its callbacks, and every value that is
ever stored, or shown to anybody, was there at the start or is one of an operation that was
started.  So nobody becomes a teammate without a request and its acceptance, and nobody is
listed as a player by somebody else.
-/

namespace TeamUp

open Protocol

variable {client : Session} {p : Ref} {v : Leaf} {db st : Tree}

/-! ### The values a write puts -/

namespace Write

/-- The write puts this value at this path. -/
def PutsLeaf (p : Ref) (v : Leaf) (w : Write) : Prop :=
  ∃ e ∈ w.puts, ∃ r, p = e.1 ++ r ∧ e.2.leafAt r = some v

/-- What is stored after a write was stored before, or the write put it there. -/
theorem leafAt_apply_cases {w : Write} (h : (w.apply st).leafAt p = some v) :
    st.leafAt p = some v ∨ w.PutsLeaf p v := by
  rw [apply_eq_puts] at h
  unfold PutsLeaf
  generalize w.puts = puts at h
  induction puts generalizing st with
  | nil => exact Or.inl h
  | cons e rest ih =>
    rcases ih h with hst | ⟨e', he', hput⟩
    · rcases PathTree.mem_put.mp (PathTree.leafAt_eq_some.mp hst) with ⟨hold, -, -⟩ | ⟨r, hr, hmem⟩
      · exact Or.inl (PathTree.leafAt_eq_some.mpr hold)
      · exact Or.inr ⟨e, List.mem_cons_self, r, hr, PathTree.leafAt_eq_some.mpr hmem⟩
    · exact Or.inr ⟨e', List.mem_cons_of_mem _ he', hput⟩

theorem putsLeaf_update {ref : Ref} {values : Dictionary} :
    (updateChildValues ref values).PutsLeaf p v ↔
      ∃ e ∈ values, ∃ r, p = ref ++ e.1 :: r ∧ e.2.leafAt r = some v := by
  constructor
  · rintro ⟨put, hput, r, rfl, hleaf⟩
    obtain ⟨e, he, rfl⟩ := List.mem_map.mp hput
    exact ⟨e, he, r, by simp, hleaf⟩
  · rintro ⟨e, he, r, rfl, hleaf⟩
    exact ⟨(ref ++ [e.1], e.2), List.mem_map.mpr ⟨e, he, rfl⟩, r, by simp, hleaf⟩

theorem not_putsLeaf_remove {ref : Ref} : ¬ (removeValue ref).PutsLeaf p v := by
  rintro ⟨e, he, r, -, hleaf⟩
  rw [List.mem_singleton.mp he] at hleaf
  cases hleaf

end Write

theorem leafAt_leaf {x : Leaf} {r : Ref} :
    (PathTree.leaf x : Tree).leafAt r = some v ↔ r = [] ∧ v = x := by
  simp [PathTree.leafAt_eq_some, PathTree.leaf]

theorem putsLeaf_child {ref : Ref} {k : String} {x : Leaf} :
    (Write.updateChildValues ref [(k, .leaf x)]).PutsLeaf p v ↔ p = ref ++ [k] ∧ v = x := by
  simp [Write.putsLeaf_update, leafAt_leaf]

theorem of_mem_asDictionary {m : Message} {e : String × Tree} (he : e ∈ m.asDictionary) :
    ∃ x, e.2 = .leaf x ∧ m.field e.1 = some x := by
  have hlookup : m.asDictionary.lookup e.1 = some e.2 :=
    Dictionary.lookup_of_mem m.nodup_asDictionary he
  rw [m.lookup_asDictionary] at hlookup
  obtain ⟨x, hfield, hleaf⟩ := Option.map_eq_some_iff.mp hlookup
  exact ⟨x, hleaf.symm, hfield⟩

theorem putsLeaf_message {x y : String} {m : Message} (h : (storeMessage x y m).PutsLeaf p v) :
    ∃ field, p = directChatRef x y ++ [m.id, field] ∧ m.field field = some v := by
  obtain ⟨e, he, r, rfl, hleaf⟩ := Write.putsLeaf_update.mp h
  obtain ⟨x, hx, hfield⟩ := of_mem_asDictionary he
  rw [hx] at hleaf
  obtain ⟨rfl, rfl⟩ := leafAt_leaf.mp hleaf
  exact ⟨e.1, by simp, hfield⟩

theorem putsLeaf_read {x y : String} {unread : List Message}
    (h : (storeRead x y unread).PutsLeaf p v) :
    ∃ m ∈ unread, ∃ field,
      p = directChatRef x y ++ [m.id, field] ∧ m.markAsRead.field field = some v := by
  obtain ⟨e, he, r, rfl, hleaf⟩ := Write.putsLeaf_update.mp h
  obtain ⟨m, hm, rfl⟩ := Dictionary.mem_of_mem_collect he
  obtain ⟨field, hr, hfield⟩ : ∃ field, r = [field] ∧ m.markAsRead.field field = some v := by
    cases r with
    | nil =>
      rw [Tree.leafAt_ofDictionary_nil] at hleaf
      cases hleaf
    | cons field r =>
      rw [Tree.leafAt_ofDictionary m.markAsRead.nodup_asDictionary,
        m.markAsRead.lookup_asDictionary] at hleaf
      cases hfield : m.markAsRead.field field with
      | none => simp [hfield] at hleaf
      | some x =>
        rw [hfield] at hleaf
        obtain ⟨rfl, rfl⟩ := leafAt_leaf.mp hleaf
        exact ⟨field, rfl, hfield⟩
  exact ⟨m, hm, field, by rw [hr], hfield⟩

/-! ### What operations put -/

/-- A value of an entry of a list, in which only the name of the user is told apart. -/
def EntryLeaf (list : Ref) (name : Leaf → Prop) (p : Ref) (v : Leaf) : Prop :=
  ∃ key field, p = list ++ [key, field] ∧ (field = "username" → name v)

/-- The name of the user, or what the record of the user has as its name. -/
def NameOf (db : Tree) (u : String) (v : Leaf) : Prop :=
  v = .str u ∨ db.leafAt (userRef u ++ ["username"]) = some v

/-- A field of the record of a user, or a value of its entry in the list of some game. -/
def Edits (u field content : String) (p : Ref) (v : Leaf) : Prop :=
  p = userRef u ++ [field] ∧ v = .str content ∨
    ∃ game, EntryLeaf (lfgRef game) (fun name => name = .str u) p v

/-- What an operation puts at which paths, at once or by its callbacks, if the records of
    the users have the names they have in `db`. -/
def Puts (db : Tree) (client : Session) : Op → String → Ref → Leaf → Prop
  | .requestPlayerToTeamUp username, _, p, v =>
      p = teammateRequestsRef username ++ [client.user] ∧ v = .int 1
  | .acceptTeammateRequest r, _, p, v =>
      (p = teammatesRef client.user ++ [r.username] ∨
        p = teammatesRef r.username ++ [client.user]) ∧ v = .int 1
  | .sendDirectMessage text partner timestamp, id, p, v =>
      ∃ field, (p = directChatRef client.user partner.username ++ [id, field] ∨
          p = directChatRef partner.username client.user ++ [id, field]) ∧
        (newMessage client.user text timestamp id).field field = some v
  | .markDirectChatMessagesAsRead chat, _, p, v =>
      ∃ m ∈ chat.unreadMessages (some client.user), ∃ field,
        p = directChatRef client.user chat.chatPartner.username ++ [m.id, field] ∧
          m.markAsRead.field field = some v
  | .goOnlineForGame game _, _, p, v =>
      p = currentlyPlayingRef client.user ∧ v = .str game.name ∨
        EntryLeaf (onlineRef game.name) (NameOf db client.user) p v
  | .updateBio bio, _, p, v => Edits client.user "biography" bio p v
  | .updateUserGames games, _, p, v =>
      (∃ r, p = gamesRef client.user ++ r ∧
        (Tree.ofDictionary (gamesDictionary games)).leafAt r = some v) ∨
        ∃ game, EntryLeaf (lfgRef game) (fun name => name = .str client.user) p v
  | .editRegion region, _, p, v => Edits client.user "region" region.rawValue p v
  | .editMicStatus status, _, p, v => Edits client.user "mic" status.rawValue p v
  | .setProfilePicture imageUrl, _, p, v => Edits client.user "profilePicUrl" imageUrl p v
  | .fetchFCMToken token, _, p, v => p = userRef client.user ++ ["fcmToken"] ∧ v = .str token
  | .removeFCMToken, _, p, v => p = userRef client.user ++ ["fcmToken"] ∧ v = .str " "
  | .declineTeammateRequest _, _, _, _ => False
  | .removeTeammate _, _, _, _ => False
  | .deleteDirectChat _, _, _, _ => False
  | .goOfflineForGame _, _, _, _ => False

/-- What a callback that waits for the answer to a request may put. -/
def CallbackPuts (db : Tree) (request : Query) : Callback → Ref → Leaf → Prop
  | .requestPlayerToTeamUp currentUserName username, p, v =>
      p = teammateRequestsRef username ++ [currentUserName] ∧ v = .int 1
  | .goOnlineForGame currentUser game _, p, v =>
      p = currentlyPlayingRef currentUser ∧ v = .str game.name ∨
        EntryLeaf (onlineRef game.name)
          (fun name => request = .value (userRef currentUser) → NameOf db currentUser name) p v
  | .goOfflineForGame _, _, _ => False
  | .editUserLFGInfo currentUser, p, v =>
      ∃ game, EntryLeaf (lfgRef game) (fun name => name = .str currentUser) p v
  | .updateUserLFG username _, p, v =>
      ∃ game, EntryLeaf (lfgRef game) (fun name => name = .str username) p v
  | .updateGameLFG game _ lfgDictionary, p, v =>
      ∃ values, lfgDictionary = some values ∧
        ∃ key, (Write.updateChildValues (lfgRef game.name ++ [key]) values).PutsLeaf p v

/-- What a callback that was given an answer may put. -/
def AnsweredPuts (db : Tree) (request : Query) (response : Tree) : Callback → Ref → Leaf → Prop
  | .goOnlineForGame currentUser game _, p, v =>
      p = currentlyPlayingRef currentUser ∧ v = .str game.name ∨
        EntryLeaf (onlineRef game.name)
          (fun name => ∃ user, fetchedUser response = some user ∧ name = .str user.username) p v
  | callback, p, v => CallbackPuts db request callback p v

/-- The records have no other names than they have in `db`. -/
def NamesKept (db st : Tree) : Prop :=
  ∀ u v, st.leafAt (userRef u ++ ["username"]) = some v →
    db.leafAt (userRef u ++ ["username"]) = some v

theorem putsLeaf_begin {op : Op} {id : String} {w : Write} (hw : w ∈ opWrites client op id)
    (h : w.PutsLeaf p v) : Puts db client op id p v := by
  cases op with
  | requestPlayerToTeamUp | goOnlineForGame => cases hw
  | acceptTeammateRequest r =>
    simp only [opWrites, List.mem_cons, List.not_mem_nil, or_false] at hw
    rcases hw with rfl | rfl | rfl | rfl
    · obtain ⟨hp, hv⟩ := putsLeaf_child.mp h
      exact ⟨Or.inl hp, hv⟩
    · obtain ⟨hp, hv⟩ := putsLeaf_child.mp h
      exact ⟨Or.inr hp, hv⟩
    · exact (Write.not_putsLeaf_remove h).elim
    · exact (Write.not_putsLeaf_remove h).elim
  | removeTeammate t =>
    simp only [opWrites, List.mem_cons, List.not_mem_nil, or_false] at hw
    rcases hw with rfl | rfl | rfl | rfl <;> exact (Write.not_putsLeaf_remove h).elim
  | declineTeammateRequest | deleteDirectChat | goOfflineForGame =>
    rw [List.mem_singleton.mp hw] at h
    exact (Write.not_putsLeaf_remove h).elim
  | sendDirectMessage text partner timestamp =>
    simp only [opWrites, List.mem_cons, List.not_mem_nil, or_false] at hw
    rcases hw with rfl | rfl
    · obtain ⟨field, hp, hv⟩ := putsLeaf_message h
      exact ⟨field, Or.inl hp, hv⟩
    · obtain ⟨field, hp, hv⟩ := putsLeaf_message h
      exact ⟨field, Or.inr hp, hv⟩
  | markDirectChatMessagesAsRead chat =>
    simp only [opWrites] at hw
    split at hw
    · cases hw
    · rw [List.mem_singleton.mp hw] at h
      exact putsLeaf_read h
  | updateUserGames games =>
    rw [List.mem_singleton.mp hw] at h
    obtain ⟨e, he, r, rfl, hleaf⟩ := Write.putsLeaf_update.mp h
    rw [List.mem_singleton.mp he] at hleaf ⊢
    exact Or.inl ⟨r, by simp, hleaf⟩
  | updateBio | editRegion | editMicStatus | setProfilePicture =>
    rw [List.mem_singleton.mp hw] at h
    exact Or.inl (putsLeaf_child.mp h)
  | fetchFCMToken | removeFCMToken =>
    rw [List.mem_singleton.mp hw] at h
    exact putsLeaf_child.mp h

theorem callbackPuts_begin {op : Op} {id : String} {request : Query} {callback : Callback}
    (hcall : .call request callback ∈ begin client op id)
    (h : CallbackPuts db request callback p v) : Puts db client op id p v := by
  cases op with
  | requestPlayerToTeamUp username =>
    simp only [begin, requestPlayerToTeamUp, List.mem_singleton, Command.call.injEq] at hcall
    obtain ⟨rfl, rfl⟩ := hcall
    exact h
  | goOnlineForGame game now =>
    simp only [begin, goOnlineForGame, List.mem_singleton, Command.call.injEq] at hcall
    obtain ⟨rfl, rfl⟩ := hcall
    refine h.imp_right ?_
    rintro ⟨key, field, hp, hname⟩
    exact ⟨key, field, hp, fun hfield => hname hfield rfl⟩
  | goOfflineForGame game =>
    simp only [begin, goOfflineForGame, List.mem_cons, reduceCtorEq, Command.call.injEq,
      List.not_mem_nil, or_false, false_or] at hcall
    obtain ⟨rfl, rfl⟩ := hcall
    exact h.elim
  | updateUserGames games =>
    simp only [begin, updateUserGames, updateUserLFG, List.mem_cons, reduceCtorEq,
      Command.call.injEq, List.not_mem_nil, or_false, false_or] at hcall
    obtain ⟨rfl, rfl⟩ := hcall
    exact Or.inr h
  | updateBio | editRegion | editMicStatus | setProfilePicture =>
    simp only [begin, updateBio, editRegion, editMicStatus, setProfilePicture, editProfile,
      editUserLFGInfo, List.mem_cons, reduceCtorEq, Command.call.injEq, List.not_mem_nil, or_false,
      false_or] at hcall
    obtain ⟨rfl, rfl⟩ := hcall
    exact Or.inr h
  | markDirectChatMessagesAsRead chat =>
    simp only [begin, markDirectChatMessagesAsRead] at hcall
    split at hcall <;> simp at hcall
  | _ =>
    simp [begin, acceptTeammateRequest, declineTeammateRequest, removeTeammate, sendDirectMessage,
      deleteDirectChat, storeFCMToken] at hcall

/-- The values of an entry are strings or numbers, and its name is that of its user. -/
theorem entryLeaf_of_values {list : Ref} {values : Dictionary} {name : Leaf → Prop} {key : String}
    (hvalues : ∀ e ∈ values, ∃ x, e.2 = .leaf x ∧ (e.1 = "username" → name x))
    (h : (Write.updateChildValues (list ++ [key]) values).PutsLeaf p v) :
    EntryLeaf list name p v := by
  obtain ⟨e, he, r, rfl, hleaf⟩ := Write.putsLeaf_update.mp h
  obtain ⟨x, hx, hname⟩ := hvalues e he
  rw [hx] at hleaf
  obtain ⟨rfl, rfl⟩ := leafAt_leaf.mp hleaf
  exact ⟨key, e.1, by simp, hname⟩

theorem leaf_of_mem_entryValues {u platform : String} {user : User} {e : String × Tree}
    (he : e ∈ entryValues u user platform) :
    ∃ x, e.2 = .leaf x ∧ (e.1 = "username" → x = .str u) := by
  simp only [entryValues, List.mem_cons, List.not_mem_nil, or_false] at he
  rcases he with rfl | rfl | rfl | rfl | rfl | rfl | rfl <;> exact ⟨_, rfl, by simp⟩

theorem leaf_of_mem_onlineValues {platform : String} {user : User} {game : Game} {now : Rat}
    {e : String × Tree} (he : e ∈ onlineValues user platform game now) :
    ∃ x, e.2 = .leaf x ∧ (e.1 = "username" → x = .str user.username) := by
  rcases List.mem_append.mp he with hentry | hmore
  · exact leaf_of_mem_entryValues hentry
  · simp only [List.mem_cons, List.not_mem_nil, or_false] at hmore
    rcases hmore with rfl | rfl <;> exact ⟨_, rfl, by simp⟩

theorem putsLeaf_resume {catalogue : List Game} {request : Query} {callback : Callback}
    {response : Tree} {id : String} {w : Write}
    (hw : .write w ∈ resume catalogue callback response id) (h : w.PutsLeaf p v) :
    AnsweredPuts db request response callback p v := by
  cases callback with
  | requestPlayerToTeamUp currentUserName username =>
    simp only [resume, requestPlayerToTeamUpRead] at hw
    split at hw
    · cases hw
    · rw [Command.write.inj (List.mem_singleton.mp hw)] at h
      exact putsLeaf_child.mp h
  | goOnlineForGame currentUser game now =>
    rw [resume_goOnlineForGame, goOnlineForGameRead_eq] at hw
    split at hw
    · rename_i user platform huser hplatform
      simp only [List.mem_cons, Command.write.injEq, List.not_mem_nil, or_false] at hw
      rcases hw with rfl | rfl
      · refine Or.inr (entryLeaf_of_values (fun e he => ?_) h)
        obtain ⟨x, hx, hname⟩ := leaf_of_mem_onlineValues he
        exact ⟨x, hx, fun hfield => ⟨user, huser, hname hfield⟩⟩
      · obtain ⟨e, he, r, rfl, hleaf⟩ := h
        rw [List.mem_singleton.mp he] at hleaf ⊢
        obtain ⟨rfl, rfl⟩ := leafAt_leaf.mp hleaf
        exact Or.inl ⟨by simp, rfl⟩
    · cases hw
  | goOfflineForGame game =>
    simp only [resume, goOfflineForGameRead] at hw
    split at hw
    · rw [Command.write.inj (List.mem_singleton.mp hw)] at h
      exact (Write.not_putsLeaf_remove h).elim
    · cases hw
  | editUserLFGInfo currentUser =>
    simp only [resume, editUserLFGInfoRead] at hw
    split at hw <;> simp [updateUserLFG] at hw
  | updateUserLFG username games =>
    simp only [resume, updateUserLFGRead] at hw
    split at hw <;> simp at hw
  | updateGameLFG game games lfgDictionary =>
    simp only [resume, updateGameLFGRead] at hw
    split at hw
    · split at hw
      · rw [Command.write.inj (List.mem_singleton.mp hw)] at h
        exact ⟨_, rfl, _, h⟩
      · rw [Command.write.inj (List.mem_singleton.mp hw)] at h
        exact (Write.not_putsLeaf_remove h).elim
    · split at hw
      · rw [Command.write.inj (List.mem_singleton.mp hw)] at h
        exact ⟨_, rfl, _, h⟩
      · cases hw

theorem callbackPuts_resume {catalogue : List Game} {request request' : Query}
    {callback callback' : Callback} {response : Tree} {id : String}
    (hcall : .call request' callback' ∈ resume catalogue callback response id)
    (h : CallbackPuts db request' callback' p v) :
    AnsweredPuts db request response callback p v := by
  cases callback with
  | editUserLFGInfo currentUser =>
    simp only [resume, editUserLFGInfoRead] at hcall
    split at hcall
    · cases hcall
    · obtain ⟨rfl, rfl⟩ := Command.call.inj (List.mem_singleton.mp hcall)
      exact h
  | updateUserLFG username games =>
    simp only [resume, updateUserLFGRead] at hcall
    split at hcall
    · rename_i user huser
      obtain ⟨game, -, hgame⟩ := List.mem_map.mp hcall
      obtain ⟨rfl, rfl⟩ := Command.call.inj hgame
      obtain ⟨values, hvalues, key, hputs⟩ := h
      rw [lfgDictionary_eq] at hvalues
      obtain ⟨platform, -, rfl⟩ := Option.map_eq_some_iff.mp hvalues
      exact ⟨game.name, entryLeaf_of_values (fun e he => leaf_of_mem_entryValues he) hputs⟩
    · cases hcall
  | requestPlayerToTeamUp currentUserName username =>
    simp only [resume, requestPlayerToTeamUpRead] at hcall
    split at hcall <;> simp at hcall
  | goOnlineForGame currentUser game now =>
    simp only [resume, goOnlineForGameRead] at hcall
    split at hcall <;> simp at hcall
  | goOfflineForGame game =>
    simp only [resume, goOfflineForGameRead] at hcall
    split at hcall <;> simp at hcall
  | updateGameLFG game games lfgDictionary =>
    simp only [resume, updateGameLFGRead] at hcall
    split at hcall <;> split at hcall <;> simp at hcall

/-- A user that is fetched has the name in its record. -/
theorem callbackPuts_of_answered {request : Query} {callback : Callback} {response : Tree}
    (hnames : NamesKept db st) (hanswer : request.answers st response = true)
    (h : AnsweredPuts db request response callback p v) :
    CallbackPuts db request callback p v := by
  cases callback with
  | goOnlineForGame currentUser game now =>
    refine h.imp_right ?_
    rintro ⟨key, field, hp, hname⟩
    refine ⟨key, field, hp, fun hfield hrequest => ?_⟩
    obtain ⟨user, huser, rfl⟩ := hname hfield
    obtain ⟨dictionary, hdictionary, hdecode⟩ := Option.bind_eq_some_iff.mp huser
    obtain rfl := Tree.asDictionary_eq_some hdictionary
    have hleaf := (User.stored_of_ofDictionary hdecode).username
    rw [(of_decide_eq_true hanswer).leafAt, hrequest, Query.snapshot, PathTree.leafAt_sub] at hleaf
    exact Or.inr (hnames currentUser _ hleaf)
  | _ => exact h

/-! ### Runs -/

theorem not_puts_username {op : Op} {id u : String} :
    ¬ Puts db client op id (userRef u ++ ["username"]) v := by
  intro h
  cases op <;> simp [Puts, Edits, EntryLeaf] at h

/-- What the operations of the sessions make of the values in the database. -/
def values (catalogue : List Game) (db : Tree) : (app catalogue).Sources (Ref × Leaf) where
  valid := NamesKept db
  holds := fun f st => st.leafAt f.1 = some f.2
  makes := fun f w => w.PutsLeaf f.1 f.2
  starts := fun f client op id => Puts db client op id f.1 f.2
  asks := fun f _ request callback => CallbackPuts db request callback f.1 f.2
  told := fun f _ request callback response => AnsweredPuts db request response callback f.1 f.2
  apply := Write.leafAt_apply_cases
  effect := id
  begin_write := fun hw hputs =>
    putsLeaf_begin (writes_begin _ _ _ ▸ mem_writes.mpr hw) hputs
  begin_call := callbackPuts_begin
  serve := callbackPuts_of_answered
  resume_write := putsLeaf_resume
  resume_call := callbackPuts_resume

/-- An operation of the run puts the value at the path. -/
def PutBy (db : Tree) (events : List Event) (p : Ref) (v : Leaf) : Prop :=
  ∃ client op id, .start client op id ∈ events ∧ Puts db client op id p v

variable {catalogue : List Game} {ids : List String} {events : List Event} {t : State}
variable {ok : State → Event → Prop}

theorem values_attributed (run : (app catalogue).Run ok (State.initial db ids) events t) :
    (values catalogue db).Attributed
      (fun f => db.leafAt f.1 = some f.2 ∨ PutBy db events f.1 f.2) t := by
  have hinitial : (values catalogue db).Attributed (fun f => db.leafAt f.1 = some f.2)
      (State.initial db ids) :=
    .of_quiescent ⟨rfl, rfl, rfl⟩ (fun _ h => h) rfl
  refine Sources.Attributed.of_run (fun st hst u v hname => ?_) hinitial run
  refine (hst (userRef u ++ ["username"], v) hname).resolve_right ?_
  rintro ⟨client, op, id, hputs⟩
  exact not_puts_username hputs

/-- **Every value that is stored, or that a session was ever shown, was there at the start or
    is one that an operation of the run puts there**, whatever the sessions do and in whatever
    order their writes and callbacks run. -/
theorem values_put (run : (app catalogue).Run ok (State.initial db ids) events t) {p : Ref}
    {v : Leaf} :
    (t.store.leafAt p = some v → db.leafAt p = some v ∨ PutBy db events p v) ∧
      ∀ client view, (client, view) ∈ t.seen → view.leafAt p = some v →
        db.leafAt p = some v ∨ PutBy db events p v :=
  ⟨(values_attributed run).stored (p, v),
    fun client view hview => (values_attributed run).seen (client, view) hview (p, v)⟩

theorem values_put_requestAccepted :
    ∃ t, (app [chess]).exec (fun _ _ => true) (State.initial lookingForPlayers [])
        requestAccepted = some t ∧
      PutBy lookingForPlayers requestAccepted (teammatesRef "alice1" ++ ["bobbob"]) (.int 1) := by
  have hend : ((app [chess]).exec (fun _ _ => true) (State.initial lookingForPlayers [])
      requestAccepted).map (fun t => t.store.leafAt (teammatesRef "alice1" ++ ["bobbob"])) =
        some (some (.int 1)) := by
    decide +kernel
  obtain ⟨t, ht, hleaf⟩ := Option.map_eq_some_iff.mp hend
  have run : (app [chess]).Run (fun _ _ => True) (State.initial lookingForPlayers [])
      requestAccepted t := run_of_exec (fun _ _ _ => trivial) ht
  have hold : lookingForPlayers.leafAt (teammatesRef "alice1" ++ ["bobbob"]) ≠ some (.int 1) := by
    decide +kernel
  exact ⟨t, ht, ((values_put run).1 hleaf).resolve_left hold⟩

/-! ### Teammates -/

theorem op_of_puts_teammate {op : Op} {id a b : String} {r : Ref}
    (h : Puts db client op id (teammatesRef a ++ b :: r) v) :
    ∃ q, op = .acceptTeammateRequest q ∧ SamePair client.user q.username a b := by
  cases op with
  | acceptTeammateRequest q =>
    refine ⟨q, rfl, ?_⟩
    simp only [Puts, List.cons_append, List.nil_append, List.cons.injEq, true_and] at h
    rcases h.1 with ⟨rfl, rfl, -⟩ | ⟨rfl, rfl, -⟩
    · exact Or.inl ⟨rfl, rfl⟩
    · exact Or.inr ⟨rfl, rfl⟩
  | _ => simp [Puts, Edits, EntryLeaf] at h

theorem op_of_puts_request {op : Op} {id x y : String} {r : Ref}
    (h : Puts db client op id (teammateRequestsRef x ++ y :: r) v) :
    op = .requestPlayerToTeamUp x ∧ client.user = y := by
  cases op with
  | requestPlayerToTeamUp username =>
    simp only [Puts, List.cons_append, List.nil_append, List.cons.injEq, true_and] at h
    obtain ⟨⟨rfl, rfl, -⟩, -⟩ := h
    exact ⟨rfl, rfl⟩
  | _ => simp [Puts, Edits, EntryLeaf] at h

/-- A request of `y` to `x` was there at the start or has been started. -/
def Asked (db : Tree) (events : List Event) (x y : String) : Prop :=
  db.has (teammateRequestsRef x ++ [y]) = true ∨
    ∃ client id, client.user = y ∧ .start client (.requestPlayerToTeamUp x) id ∈ events

theorem asked_of_shown (run : (app catalogue).Run ok (State.initial db ids) events t)
    {x y : String} (h : t.shown client (teammateRequestsRef x) y = true) :
    Asked db events x y := by
  obtain ⟨view, hview, hshown⟩ := List.any_eq_true.mp h
  have hhas : view.2.has (teammateRequestsRef x ++ [y]) = true :=
    (Bool.and_eq_true_iff.mp hshown).2
  obtain ⟨r, hr⟩ := PathTree.has_iff_leafAt.mp hhas
  obtain ⟨v, hv⟩ := Option.ne_none_iff_exists'.mp hr
  rcases (values_attributed run).seen view hview (_, v) hv with hold | ⟨c, op, id, hmem, hputs⟩
  · exact Or.inl (PathTree.has_of_leafAt hold)
  · rw [List.append_assoc] at hputs
    obtain ⟨rfl, rfl⟩ := op_of_puts_request hputs
    exact Or.inr ⟨c, id, rfl, hmem⟩

/-- Requests are accepted from a list the session was shown at some time. -/
def acceptsShown (s : State) : Event → Bool
  | .start client (.acceptTeammateRequest r) _ =>
      s.shown client (teammateRequestsRef client.user) r.username
  | _ => true

/-- **Nobody becomes a teammate without a request and its acceptance**: a friendship was there
    at the start, or one of the two accepted a request of the other that had been made
    before, whatever else happens in the run. -/
theorem teammates_consented
    (run : (app catalogue).Run (fun s e => acceptsShown s e = true) (State.initial db ids)
      events t) {a b : String} (h : t.store.has (teammatesRef a ++ [b]) = true) :
    db.has (teammatesRef a ++ [b]) = true ∨
      ∃ before client r id after,
        events = before ++ .start client (.acceptTeammateRequest r) id :: after ∧
        SamePair client.user r.username a b ∧ Asked db before client.user r.username := by
  obtain ⟨q, hq⟩ := PathTree.has_iff_leafAt.mp h
  obtain ⟨v, hv⟩ := Option.ne_none_iff_exists'.mp hq
  rcases (values_attributed run).stored (_, v) hv with hold | ⟨client, op, id, hmem, hputs⟩
  · exact Or.inl (PathTree.has_of_leafAt hold)
  · rw [List.append_assoc] at hputs
    obtain ⟨r, rfl, hpair⟩ := op_of_puts_teammate hputs
    obtain ⟨before, after, u, w, rfl, hbefore, hshown, -, -⟩ := run.step_of_mem hmem
    exact Or.inr ⟨before, client, r, id, after, rfl, hpair, asked_of_shown hbefore hshown⟩

theorem teammates_consented_requestAccepted :
    ∃ t, (app [chess]).exec acceptsShown (State.initial lookingForPlayers [])
        requestAccepted = some t ∧
      ∃ before client r id after,
        requestAccepted = before ++ .start client (.acceptTeammateRequest r) id :: after ∧
        SamePair client.user r.username "alice1" "bobbob" ∧
        Asked lookingForPlayers before client.user r.username := by
  have hend : ((app [chess]).exec acceptsShown (State.initial lookingForPlayers [])
      requestAccepted).map (fun t => t.store.has (teammatesRef "alice1" ++ ["bobbob"])) =
        some true := by
    decide +kernel
  obtain ⟨t, ht, hhas⟩ := Option.map_eq_some_iff.mp hend
  have run := run_of_exec (fun s e h => h) ht
  have hold : lookingForPlayers.has (teammatesRef "alice1" ++ ["bobbob"]) ≠ true := by
    decide +kernel
  exact ⟨t, ht, (teammates_consented run hhas).resolve_left hold⟩

/-! ### Players -/

/-- The records of the users have the names under which they are stored. -/
def Named (db : Tree) : Prop :=
  ∀ u v, db.leafAt (userRef u ++ ["username"]) = some v → v = .str u

theorem names_of_leaves {db : Tree}
    (h : ∀ e ∈ db.leaves, e.1[2]? = some "username" → e.1[1]?.map Leaf.str = some e.2) :
    Named db := by
  intro u v hleaf
  have hnamed := h _ (PathTree.leafAt_eq_some.mp hleaf) (by simp)
  simpa using hnamed.symm

end TeamUp
