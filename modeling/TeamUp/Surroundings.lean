import TeamUp.OwnEdits
import TeamUp.Ownership
import TeamUp.Records
import TeamUp.Slices

/-!
# Going online and offline, among everything else

The record and the lists agree on what a user plays while nothing but going online and
offline is under way.  Everything else that is on its way, the user's own edits and renewals
among it, does not touch the current game or the entries of those who play, and does not
change what the user's sessions are answered about them.  So a step of the whole takes a
user who goes online and offline one after the other from phase to phase as it does alone.
-/

namespace TeamUp

open Protocol

/-! ### The part of a user -/

def Op.presence : Op → Bool
  | .goOnlineForGame _ _ | .goOfflineForGame _ => true
  | _ => false

def Callback.presence : Callback → Bool
  | .goOnlineForGame _ _ _ | .goOfflineForGame _ => true
  | _ => false

/-- The current game of a record, or an entry in a list of those who play a game now. -/
def presenceRef : Ref → Bool
  | ["users", _, "currentlyPlaying"] | ["lfg", "online", _, _] => true
  | _ => false

/-- The part of what is on its way by which a user goes online and offline. -/
def presenceOf (u : String) : Slice Session Write Callback where
  writes := fun client w => decide (client.user = u) && presenceRef w.ref
  callbacks := fun client callback => decide (client.user = u) && callback.presence

/-- The user goes online while nothing of this is under way and the user plays nothing, and
    offline while no session goes online, for the stored game if there is one. -/
def Careful (u : String) (s : State) : Event → Prop
  | .start client op id => client.user = u → UpToDate u ((presenceOf u).of s) (.start client op id)
  | _ => True

instance (u : String) (s : State) (e : Event) : Decidable (Careful u s e) := by
  rcases e with _ | _ <;> dsimp only [Careful] <;> infer_instance

variable {catalogue : List Game} {u : String} {client : Session} {w : Write} {s t : State}
variable {past : Ref → String → Leaf → Prop}

/-- What an operation issues is for going online or offline, or nothing of it is. -/
theorem presence_begin {op : Op} {id : String} :
    (∀ w, .write w ∈ begin client op id → presenceRef w.ref = op.presence) ∧
      ∀ request callback, .call request callback ∈ begin client op id →
        callback.presence = op.presence := by
  constructor
  · intro w hw
    have hmem : w ∈ opWrites client op id := writes_begin client op id ▸ mem_writes.mpr hw
    cases op with
    | markDirectChatMessagesAsRead chat =>
      simp only [opWrites] at hmem
      split at hmem
      · cases hmem
      · rw [List.mem_singleton.mp hmem]
        rfl
    | acceptTeammateRequest | removeTeammate | sendDirectMessage =>
      simp only [opWrites, List.mem_cons, List.not_mem_nil, or_false] at hmem
      rcases hmem with rfl | rfl | rfl | rfl <;> rfl
    | requestPlayerToTeamUp | goOnlineForGame => cases hmem
    | _ =>
      rw [List.mem_singleton.mp hmem]
      rfl
  · intro request callback hcall
    cases op with
    | markDirectChatMessagesAsRead chat =>
      simp only [begin, markDirectChatMessagesAsRead] at hcall
      split at hcall <;> simp at hcall
    | _ =>
      simp only [begin, TeamUp.requestPlayerToTeamUp, acceptTeammateRequest,
        declineTeammateRequest, removeTeammate, sendDirectMessage, deleteDirectChat,
        TeamUp.goOnlineForGame, TeamUp.goOfflineForGame, TeamUp.updateBio, updateUserGames,
        TeamUp.updateUserLFG, editRegion, editMicStatus, setProfilePicture, editProfile,
        TeamUp.editUserLFGInfo, storeFCMToken, List.mem_cons, List.not_mem_nil, reduceCtorEq,
        Command.call.injEq, or_false, false_or] at hcall
      try (obtain ⟨-, rfl⟩ := hcall; rfl)

theorem presenceRef_lfg (g k : String) : presenceRef (lfgRef g ++ [k]) = false := by
  simp [presenceRef]

theorem presence_resume {callback : Callback} {response : Tree} {id : String} :
    (∀ w, .write w ∈ resume catalogue callback response id →
        presenceRef w.ref = callback.presence) ∧
      ∀ request callback', .call request callback' ∈ resume catalogue callback response id →
        callback'.presence = callback.presence := by
  cases callback with
  | requestPlayerToTeamUp currentUserName username =>
    simp only [resume, requestPlayerToTeamUpRead]
    split
    · simp
    · refine ⟨fun w hw => ?_, by simp⟩
      rw [Command.write.inj (List.mem_singleton.mp hw)]
      rfl
  | goOnlineForGame currentUser game now =>
    rw [resume_goOnlineForGame, goOnlineForGameRead_eq]
    split
    · refine ⟨fun w hw => ?_, by simp⟩
      simp only [List.mem_cons, Command.write.injEq, List.not_mem_nil, or_false] at hw
      rcases hw with rfl | rfl <;> rfl
    · simp
  | goOfflineForGame game =>
    rw [resume_goOfflineForGame, goOfflineForGameRead_eq]
    refine ⟨fun w hw => ?_, by simp⟩
    obtain ⟨k, -, hk⟩ := List.mem_map.mp hw
    rw [← Command.write.inj hk]
    rfl
  | editUserLFGInfo currentUser =>
    simp only [resume, editUserLFGInfoRead, TeamUp.updateUserLFG]
    split
    · simp
    · refine ⟨by simp, fun request callback' hcall => ?_⟩
      rw [(Command.call.inj (List.mem_singleton.mp hcall)).2]
      rfl
  | updateUserLFG username games =>
    simp only [resume, updateUserLFGRead]
    split
    · refine ⟨by simp, fun request callback' hcall => ?_⟩
      obtain ⟨game, -, heq⟩ := List.mem_map.mp hcall
      rw [← (Command.call.inj heq).2]
      rfl
    · simp
  | updateGameLFG game games lfgDictionary =>
    have hentry : ∀ {k : String} {w : Write}, w.ref = lfgRef game.name ++ [k] →
        (∀ w', .write w' ∈ ([.write w] : Commands) → presenceRef w'.ref = false) ∧
          ∀ request callback', .call request callback' ∈ ([.write w] : Commands) →
            callback'.presence = false := by
      intro k w href
      refine ⟨fun w' hw' => ?_, by simp⟩
      rw [Command.write.inj (List.mem_singleton.mp hw'), href]
      exact presenceRef_lfg game.name k
    simp only [resume, updateGameLFGRead]
    split <;> split
    · exact hentry rfl
    · exact hentry rfl
    · exact hentry rfl
    · simp

theorem decides_of_presence {commands : Commands} {b : Bool}
    (h : (∀ w, .write w ∈ commands → presenceRef w.ref = b) ∧
      ∀ request callback, .call request callback ∈ commands → callback.presence = b) (u : String) :
    (presenceOf u).Decides (decide (client.user = u) && b) client commands :=
  ⟨fun w hw => by simp only [presenceOf, h.1 w hw],
    fun request callback hcall => by simp only [presenceOf, h.2 request callback hcall]⟩

/-! ### What everybody has on the way -/

/-- What is written to the current game of a record comes from its user. -/
def PlaysOwn (client : Session) (w : Write) : Prop :=
  ∀ v, w.ref = currentlyPlayingRef v → v = client.user

/-- Everything on its way has one of the shapes, and comes from those whom it concerns. -/
structure Surrounded (catalogue : List Game) (past : Ref → String → Leaf → Prop) (s : State) :
    Prop where
  owned : Owned past s
  issued : Issued (fun client w => Written w ∧ PlaysOwn client w) (fun client request callback =>
    Expected catalogue (.inl callback) ∧ OwnCallback client request callback) s

theorem playsOwn_begin {op : Op} {id : String} (hw : w ∈ opWrites client op id) :
    PlaysOwn client w := by
  intro v href
  cases op with
  | markDirectChatMessagesAsRead chat =>
    simp only [opWrites] at hw
    split at hw
    · cases hw
    · rw [List.mem_singleton.mp hw] at href
      simp [storeRead, Write.ref] at href
  | acceptTeammateRequest | removeTeammate | sendDirectMessage =>
    simp only [opWrites, List.mem_cons, List.not_mem_nil, or_false] at hw
    rcases hw with rfl | rfl | rfl | rfl <;>
      simp [addTeammate, dropRequest, dropTeammate, dropChat, storeMessage, Write.ref] at href
  | requestPlayerToTeamUp | goOnlineForGame => cases hw
  | goOfflineForGame game =>
    rw [List.mem_singleton.mp hw] at href
    simpa [dropPlaying, Write.ref] using href.symm
  | _ =>
    rw [List.mem_singleton.mp hw] at href
    simp [dropRequest, dropChat, storeField, Write.ref] at href

theorem playsOwn_resume {request : Query} {callback : Callback} {response : Tree} {id : String}
    (hown : OwnCallback client request callback)
    (hw : .write w ∈ resume catalogue callback response id) : PlaysOwn client w := by
  intro v href
  have hpresence := presence_resume.1 w hw
  rw [href] at hpresence
  cases callback with
  | goOnlineForGame currentUser game now =>
    rw [resume_goOnlineForGame, goOnlineForGameRead_eq] at hw
    split at hw
    · simp only [List.mem_cons, Command.write.injEq, List.not_mem_nil, or_false] at hw
      rcases hw with rfl | rfl
      · simp [Write.ref] at href
      · rw [← hown.1]
        simpa [Write.ref] using href.symm
    · cases hw
  | goOfflineForGame game =>
    rw [resume_goOfflineForGame, goOfflineForGameRead_eq] at hw
    obtain ⟨k, -, hk⟩ := List.mem_map.mp hw
    rw [← Command.write.inj hk] at href
    simp [Write.ref] at href
  | _ => cases hpresence

theorem own_calls {request request' : Query} {callback callback' : Callback} {response : Tree}
    {id : String} (hown : OwnCallback client request callback)
    (hcall : .call request' callback' ∈ resume catalogue callback response id) :
    OwnCallback client request' callback' := by
  cases callback with
  | goOnlineForGame currentUser game now =>
    rw [resume_goOnlineForGame, goOnlineForGameRead_eq] at hcall
    split at hcall <;> simp at hcall
  | _ => exact (own_resume hown trivial).2 _ _ hcall

theorem Surrounded.step (h : Surrounded catalogue past s)
    (hcatalogue : ∀ game ∈ catalogue, game.name ≠ "online")
    (hnames : ∀ client name user, fetchedUser (((app catalogue).view s client).sub
      (userRef name)) = some user → user.username = name)
    {e : Event} (hst : (app catalogue).step s e = some t) : Surrounded catalogue past t := by
  refine ⟨h.owned.step hnames hst, h.issued.step (fun client op id _ => ?_) ?_ hst⟩
  · refine ⟨fun w hw => ?_, fun request callback hcall => ?_⟩
    · have hmem : w ∈ opWrites client op id := writes_begin client op id ▸ mem_writes.mpr hw
      exact ⟨written_of_opWrites hmem, playsOwn_begin hmem⟩
    · exact ⟨expected_of_begin hcall, (own_begin op id).2 request callback hcall⟩
  · rintro client request callback response id ⟨hexpected, hown⟩
    exact ⟨fun w hw => ⟨written_of_callback hcatalogue hexpected hw, playsOwn_resume hown hw⟩,
      fun request' callback' hcall => ⟨expected_of_resume hcall, own_calls hown hcall⟩⟩

theorem Surrounded.initial {db : Tree} {ids : List String}
    (hids : ∀ list k, db.has (list ++ [k]) = true → k ∈ ids) :
    Surrounded catalogue (fun _ _ _ => False) (State.initial db ids) :=
  ⟨.initial hids, .of_quiescent ⟨rfl, rfl, rfl⟩⟩

/-! ### What others write -/

/-- A write of another user to an entry of a list is not to one of the user. -/
theorem Owned.listed_others (h : Owned past s) {e : Issue Session Write} (he : e ∈ s.outstanding)
    (hne : e.client.user ≠ u) {g' k' : String} (href : e.write.ref = onlineRef g' ++ [k'])
    (g k : String) :
    Listed (onlineRef g) u (e.write.apply s.store) k ↔ Listed (onlineRef g) u s.store k := by
  by_cases hsame : g = g' ∧ k = k'
  · obtain ⟨rfl, rfl⟩ := hsame
    have hnot : ¬ Listed (onlineRef g) u s.store k := by
      intro hlisted
      have hname := h.single _ _ _ _ (.online g) (.stored hlisted) (.writing he href)
      exact hne (Leaf.str.inj hname).symm
    refine iff_of_false (fun hlisted => ?_) hnot
    rcases Write.leafAt_apply_cases hlisted with hold | hputs
    · exact hnot hold
    · have hname := ((h.issued.writes e he).of_puts (.online g) hputs).2
      exact hne (Leaf.str.inj hname).symm
  · refine listed_beside ?_
    rw [href]
    simp only [Incomparable, onlineRef, List.cons_append, List.nil_append, List.cons_prefix_cons,
      true_and, List.prefix_nil, List.nil_prefix, and_true, reduceCtorEq, and_false,
      not_false_eq_true]
    exact fun heq => hsame ⟨heq.1.symm, heq.2.symm⟩

/-- What lies outside a user's going online and offline. -/
structure Leaves (u : String) (db db' : Tree) : Prop where
  listed : ∀ g k, Listed (onlineRef g) u db' k ↔ Listed (onlineRef g) u db k
  playing : Unchanged (currentlyPlayingRef u) db db'

theorem Leaves.refl (u : String) (db : Tree) : Leaves u db db := ⟨fun _ _ => Iff.rfl, fun _ => rfl⟩

theorem Leaves.leafAt {db db' : Tree} (h : Leaves u db db') :
    db'.leafAt (currentlyPlayingRef u) = db.leafAt (currentlyPlayingRef u) := h.playing []

theorem Leaves.has {db db' : Tree} (h : Leaves u db db') :
    db'.has (currentlyPlayingRef u) = db.has (currentlyPlayingRef u) := by
  refine Bool.eq_iff_iff.mpr ?_
  rw [PathTree.has_iff_leafAt, PathTree.has_iff_leafAt]
  exact exists_congr fun q => by rw [h.playing q]

/-- **What is not for a user's going online or offline does not touch it.** -/
theorem Surrounded.leaves (h : Surrounded catalogue past s) {e : Issue Session Write}
    (he : e ∈ s.outstanding) (hnot : (presenceOf u).writes e.client e.write = false) :
    Leaves u s.store (e.write.apply s.store) := by
  obtain ⟨hwritten, hown⟩ := h.issued.writes e he
  have hother : presenceRef e.write.ref = true → e.client.user ≠ u := by
    rintro hpresence rfl
    simp [presenceOf, hpresence] at hnot
  have hbeside : (∀ g k, Incomparable e.write.ref (onlineRef g ++ [k, "username"])) →
      Incomparable e.write.ref (currentlyPlayingRef u) → Leaves u s.store (e.write.apply s.store) :=
    fun hlists hrecord => ⟨fun g k => listed_beside (hlists g k), unchanged_of_beside hrecord⟩
  have hentry : ∀ {list : Ref} {k : String}, GameList list → e.write.ref = list ++ [k] →
      Leaves u s.store (e.write.apply s.store) := by
    intro list k hlist href
    cases hlist with
    | lfg hg =>
      exact hbeside (fun g k => by simp [Incomparable, href, hg, hg.symm])
        (by simp [Incomparable, href])
    | online g =>
      refine ⟨h.owned.listed_others he (hother (by rw [href]; rfl)) href, ?_⟩
      exact unchanged_of_beside (by simp [Incomparable, href])
  have hplaying : ∀ v, e.write.ref = currentlyPlayingRef v →
      Leaves u s.store (e.write.apply s.store) := by
    intro v href
    have hne : v ≠ u := hown v href ▸ hother (by rw [href]; rfl)
    exact hbeside (fun g k => by simp [Incomparable, href])
      (by simp [Incomparable, href, hne, hne.symm])
  obtain ⟨client, w⟩ := e
  cases hwritten with
  | @record v values hnodup hvalues hfields =>
    refine ⟨fun g k => listed_beside (by simp [Incomparable, Write.ref]), fun q => ?_⟩
    refine Write.Beside.leafAt (fun put hput => ?_) s.store q
    obtain ⟨field, hfield, rfl⟩ := List.mem_map.mp hput
    have hne : field.1 ≠ "currentlyPlaying" :=
      fun heq => hfields (heq ▸ List.mem_map_of_mem hfield)
    simp [Incomparable, hne, hne.symm]
  | below v part rest hpart href =>
    have hne : part ≠ "currentlyPlaying" := by
      rintro rfl
      simp [recordLists] at hpart
    exact hbeside (fun g k => by simp [Incomparable, href])
      (by simp [Incomparable, href, hne, hne.symm])
  | play v g => exact hplaying v rfl
  | dropPlaying v => exact hplaying v rfl
  | entry hlist k name user platform hnodup hvalues => exact hentry hlist rfl
  | dropEntry hlist k => exact hentry hlist rfl

/-! ### Steps -/

/-- The phase of a user depends on the store only in what the user plays. -/
theorem Phase.congr (h : Phase u s) {db : Tree} (hsame : Leaves u s.store db)
    (seen : List (Session × Tree)) (minted : List String) :
    Phase u { s with store := db, seen, minted } := by
  have hhas := hsame.has
  have hleaf := hsame.leafAt
  have hnone : NoEntry u s.store → NoEntry u db :=
    fun hno g k hlisted => hno g k ((hsame.listed g k).mp hlisted)
  have hone : ∀ {g k}, OneEntry u s.store g k → OneEntry u db g k := fun honly =>
    ⟨(hsame.listed _ _).mpr honly.listed,
      fun g' k' hlisted => honly.only g' k' ((hsame.listed g' k').mp hlisted)⟩
  cases h with
  | @leaving g k h =>
    refine .leaving (g := g) (k := k) ⟨⟨h.issued.writes, h.issued.calls, h.issued.answers⟩,
      fun g' k' hlisted => h.only g' k' ((hsame.listed g' k').mp hlisted), fun hstored => ?_,
      fun hlisted => h.going ((hsame.listed g k).mp hlisted)⟩
    exact h.playing (hhas ▸ hstored)
  | playing hrest hplaying honly => exact .playing hrest (hleaf.trans hplaying) (hone honly)
  | asking hcalls hans hout hno habsent =>
    exact .asking hcalls hans hout (hnone hno) (hhas.trans habsent)
  | answered hans hcalls hout hsnapshot hno habsent =>
    exact .answered hans hcalls hout hsnapshot (hnone hno) (hhas.trans habsent)
  | arriving hout hcalls hans hnodup husername hk hno =>
    exact .arriving hout hcalls hans hnodup husername hk (hnone hno)
  | arrived hout hcalls hans honly => exact .arrived hout hcalls hans (hone honly)

/-- Nothing but the record's name, the game and the entries makes a database orderly. -/
theorem Orderly.congr {db db' : Tree} (h : Orderly u db) (hsame : Leaves u db db')
    (hnamed : Named db') : Orderly u db' where
  username := fun name hname => Leaf.str.inj (hnamed u _ hname)
  playing := by
    intro hhas
    rw [hsame.has] at hhas
    rw [hsame.leafAt]
    exact h.playing hhas
  keys := fun g k hlisted => h.keys g k ((hsame.listed g k).mp hlisted)

theorem Present.congr (h : Present u s) {db : Tree} (hsame : Leaves u s.store db)
    (hnamed : Named db) (seen : List (Session × Tree)) (minted : List String) :
    Present u { s with store := db, seen, minted } :=
  ⟨h.orderly.congr hsame hnamed, h.phase.congr hsame seen minted⟩

/-- Equal lists give equal answers. -/
theorem Unchanged.answers {list : Ref} {db db' : Tree} (h : Unchanged list db db')
    {child content : String} {snapshot : Tree}
    (hanswers : (Query.equal list child content).answers db' snapshot = true) :
    (Query.equal list child content).answers db snapshot = true := by
  have hsame : PathTree.Same ((Query.equal list child content).snapshot db')
      ((Query.equal list child content).snapshot db) := by
    refine PathTree.same_of_leafAt fun q => ?_
    cases q with
    | nil => rw [Query.snapshot, Query.snapshot, PathTree.leafAt_filterKeys_nil,
        PathTree.leafAt_filterKeys_nil]
    | cons k q =>
      simp only [Query.snapshot, PathTree.leafAt_filterKeys, PathTree.leafAt_sub, h _]
  exact decide_eq_true ((of_decide_eq_true hanswers).trans hsame)

/-- What is not for going online or offline lies beside the lists of those who play. -/
theorem Written.beside_online (h : Written w) (hnot : presenceRef w.ref = false) (g : String) :
    Incomparable w.ref (onlineRef g) := by
  cases h with
  | record v => simp [Incomparable, Write.ref]
  | below v part rest hpart href => simp [Incomparable, href]
  | play v g' => cases hnot
  | dropPlaying v => cases hnot
  | entry hlist k | dropEntry hlist k =>
    cases hlist with
    | lfg hg => simp [Incomparable, Write.ref, hg, hg.symm]
    | online g' => cases hnot

/-- Of the lists of those who play, a user's session sees what its part shows. -/
theorem Surrounded.sees (h : Surrounded catalogue past s) (hclient : client.user = u) (g : String) :
    Unchanged (onlineRef g) ((app catalogue).view ((presenceOf u).of s) client)
      ((app catalogue).view s client) := by
  refine Slice.view_agrees (fun st st' => Unchanged (onlineRef g) st' st)
    (fun w st st' hsame q => w.leafAt_apply_congr (hsame q)) ?_ fun _ => rfl
  rintro e he rfl hnot st st' hsame q
  have hpresence : presenceRef e.write.ref = false := by simpa [presenceOf, hclient] using hnot
  have hbeside := (h.issued.writes e he).1.beside_online hpresence g
  exact (unchanged_of_beside hbeside q).trans (hsame q)

/-- A session that goes online is answered with its user's record. -/
theorem Phase.serve_online (h : Phase u s) {before after : List (Call Session Query Callback)}
    {c : Call Session Query Callback} {response : Tree} (hcalls : s.calls = before ++ c :: after)
    (honline : c.callback.goesOnline = true) (hfetched : FetchedOwn response c.callback) :
    Phase u { s with
      calls := before ++ after
      answers := s.answers ++ [⟨c.client, c.request, c.callback, response⟩] } := by
  cases h with
  | leaving h =>
    obtain ⟨game, -, hcallback⟩ := h.issued.calls c (mem_of_split hcalls)
    rw [hcallback] at honline
    cases honline
  | playing hrest => simp [hrest.2.1] at hcalls
  | asking hcalls' hans hout hno habsent =>
    rw [hcalls'] at hcalls
    cases before with
    | cons c' rest => simp at hcalls
    | nil =>
      obtain ⟨rfl, rfl⟩ := List.cons.inj hcalls
      exact .answered (by rw [hans]; rfl) rfl hout hfetched hno habsent
  | answered hans hcalls' => simp [hcalls'] at hcalls
  | arriving hout hcalls' => simp [hcalls'] at hcalls
  | arrived hout hcalls' => simp [hcalls'] at hcalls

/-- The calls of a user's part that do not go online ask for an entry of the user. -/
theorem Surrounded.serve (h : Surrounded catalogue past s)
    (hpresent : Present u ((presenceOf u).of s))
    (hnames : ∀ client name user, fetchedUser (((app catalogue).view s client).sub
      (userRef name)) = some user → user.username = name)
    {index : Nat} {response : Tree}
    (hst : (app catalogue).step s (.serve index response) = some t) :
    Present u ((presenceOf u).of t) := by
  rcases Slice.serve (S := presenceOf u) hst with
    ⟨before, c, after, hcalls, hmem, hpart, hanswers, ht⟩ | ⟨c, -, -, ht⟩
  · obtain ⟨hclient, hpresence⟩ : c.client.user = u ∧ c.callback.presence = true := by
      simpa [presenceOf] using hpart
    have hown := (h.issued.calls c hmem).2
    have hrest : ({ (presenceOf u).of s with
        store := (app catalogue).effect c.client c.request response s.store
        calls := before ++ after
        answers := ((presenceOf u).of s).answers ++
          [⟨c.client, c.request, c.callback, response⟩] } : State) =
        { (presenceOf u).of s with
          calls := before ++ after
          answers := ((presenceOf u).of s).answers ++
            [⟨c.client, c.request, c.callback, response⟩] } := rfl
    rw [ht, hrest]
    by_cases honline : c.callback.goesOnline = true
    · refine ⟨hpresent.orderly, hpresent.phase.serve_online hcalls honline ?_⟩
      exact fetchedOwn_of_answer hown (hnames c.client) hanswers
    · obtain ⟨game, hcallback⟩ : ∃ game, c.callback = .goOfflineForGame game := by
        cases hcallback : c.callback with
        | goOfflineForGame game => exact ⟨game, rfl⟩
        | goOnlineForGame => simp [hcallback, Callback.goesOnline] at honline
        | _ => simp [hcallback, Callback.presence] at hpresence
      -- the answer is the one that the part alone would have given
      have hrequest : c.request = .equal (onlineRef game.name) "username" c.client.user := by
        rw [hcallback] at hown
        exact hown
      have hpartAnswers : c.request.answers ((app catalogue).view ((presenceOf u).of s) c.client)
          response = true := by
        rw [hrequest]
        exact (h.sees hclient game.name).answers (hrequest ▸ hanswers)
      have hstep := step_at_call (P := app catalogue) hcalls hpartAnswers
      exact hpresent.step (e := .serve before.length response) rfl trivial trivial hstep
  · rw [ht]
    exact hpresent

/-- **A step among everything else** leaves the record and the lists of a user in one of the
    phases. -/
theorem Surrounded.present (h : Surrounded catalogue past s)
    (hpresent : Present u ((presenceOf u).of s))
    (hnames : ∀ client name user, fetchedUser (((app catalogue).view s client).sub
      (userRef name)) = some user → user.username = name)
    (hnamed : Named t.store) {e : Event} (horder : InOrder s e) (hcareful : Careful u s e)
    (hst : (app catalogue).step s e = some t) : Present u ((presenceOf u).of t) := by
  cases e with
  | start client op id =>
    have hdecides : (presenceOf u).Decides (decide (client.user = u) && op.presence) client
        (begin client op id) := decides_of_presence presence_begin u
    cases hpart : decide (client.user = u) && op.presence with
    | true =>
      obtain ⟨hclient, hop⟩ := Bool.and_eq_true_iff.mp hpart
      rw [hpart] at hdecides
      have hstep := Slice.start (S := presenceOf u) (P := app catalogue) hdecides hst
      refine hpresent.step (e := .start client op id) ?_ trivial
        (hcareful (of_decide_eq_true hclient)) hstep
      cases op with
      | goOnlineForGame | goOfflineForGame => exact hclient
      | _ => cases hop
    | false =>
      rw [hpart] at hdecides
      obtain ⟨-, -, rfl⟩ := step_start _ hst
      have hsame := Slice.of_issue_beside (s := s) hdecides id
      rw [app_begin, hsame]
      exact hpresent.congr (.refl u s.store) hnamed _ _
  | deliver index =>
    rcases Slice.deliver (S := presenceOf u) horder hst with ⟨i, horder', hstep⟩ |
        ⟨e, he, hother, ht⟩
    · exact hpresent.step rfl horder' trivial hstep
    · have hstore : t.store = e.write.apply s.store := congrArg Config.store ht
      rw [ht]
      exact hpresent.congr (h.leaves he hother) (hstore ▸ hnamed) _ _
  | serve index response => exact h.serve hpresent hnames hst
  | resume index id =>
    obtain ⟨a, -, -, ⟨-, i, -, hstep⟩ | ⟨-, hstore, ht⟩⟩ := Slice.resume (S := presenceOf u)
      (P := app catalogue) (fun a _ => decides_of_presence presence_resume u) hst
    · exact hpresent.step (e := .resume i id) rfl trivial trivial hstep
    · rw [ht]
      exact hpresent.congr (.refl u s.store) (hstore ▸ hnamed) _ _
  | observe client =>
    obtain rfl := step_observe _ hst
    exact hpresent.congr (.refl u s.store) hnamed _ _

end TeamUp
