import TeamUp.Listing

/-!
# Edits of the profile

Every edit renews the lists by a chain of reads: the games, the profile, then each game's
list.  What a list's callback writes was captured earlier on the chain, so two chains that
overlap can push an entry twice or put back what has been replaced.  They do not as long
as a callback finds the list as it was read, and writes what the profile calls for unless
another chain will renew the list once more.
-/

namespace TeamUp

open Protocol

abbrev PendingCall := Call Session Query Callback

abbrev PendingAnswer := Answer Session Query Callback Tree

/-- The query for the user's entry in the list of a game. -/
abbrev listQuery (u : String) (game : Game) : Query := .equal (lfgRef game.name) "username" u

/-- Asked now, the callback will have the list of the game renewed with what is stored. -/
def Callback.Asks (u g : String) (db : Tree) : Callback → Prop
  | .editUserLFGInfo _ => storedPlatform u db g ≠ none
  | .updateUserLFG _ games => platformOf games g = storedPlatform u db g
  | .updateGameLFG game _ lfgDictionary => game.name = g ∧ lfgDictionary = currentEntry u db g
  | _ => False

/-- Run on this snapshot, the callback will have the list of the game renewed with what is
    stored. -/
def Callback.Renews (u g : String) (db snapshot : Tree) : Callback → Prop
  | .editUserLFGInfo _ =>
      storedPlatform u db g ≠ none ∧ platformOf (fetchedGames snapshot) g = storedPlatform u db g
  | .updateUserLFG _ games =>
      (fetchedUser snapshot).map (fun user => (platformOf games g).map (entryValues u user)) =
        some (currentEntry u db g)
  | .updateGameLFG game _ lfgDictionary => game.name = g ∧ lfgDictionary = currentEntry u db g
  | _ => False

instance (u g : String) (db : Tree) (callback : Callback) : Decidable (callback.Asks u g db) := by
  cases callback <;> unfold Callback.Asks <;> infer_instance

instance (u g : String) (db snapshot : Tree) (callback : Callback) :
    Decidable (callback.Renews u g db snapshot) := by
  cases callback <;> unfold Callback.Renews <;> infer_instance

/-- A chain under way will renew the list of the game with what is stored. -/
def Awaited (u g : String) (db : Tree) (calls : List PendingCall)
    (answers : List PendingAnswer) : Prop :=
  (∃ c ∈ calls, c.callback.Asks u g db) ∨ ∃ a ∈ answers, a.callback.Renews u g db a.response

instance (u g : String) (db : Tree) (calls : List PendingCall)
    (answers : List PendingAnswer) :
    Decidable (Awaited u g db calls answers) :=
  inferInstanceAs (Decidable (_ ∨ _))

/-- An entry of the user that is in the list is the one that was found, and the entry to be
    written is the one that the profile calls for, unless a chain under way will renew the
    list once more. -/
def InTime (u : String) (db : Tree) (calls : List PendingCall)
    (answers : List PendingAnswer) (snapshot : Tree) : Callback → Prop
  | .updateGameLFG game _ lfgDictionary =>
      (firstKey ((listQuery u game).snapshot db) = none ∨
        firstKey snapshot = firstKey ((listQuery u game).snapshot db)) ∧
      (lfgDictionary = currentEntry u db game.name ∨ Awaited u game.name db calls answers)
  | _ => True

instance (u : String) (db : Tree) (calls : List PendingCall)
    (answers : List PendingAnswer) (snapshot : Tree) (callback : Callback) :
    Decidable (InTime u db calls answers snapshot callback) := by
  cases callback <;> unfold InTime <;> infer_instance

/-- The user edits the profile. -/
def editOps (u : String) : Event → Bool
  | .start client op _ =>
      decide (client.user = u) && match op with
        | .updateBio _ | .updateUserGames _ | .editRegion _ | .editMicStatus _
        | .setProfilePicture _ => true
        | _ => false
  | _ => true

def StorableOp : Op → Prop
  | .updateUserGames games => Storable games
  | _ => True

instance (op : Op) : Decidable (StorableOp op) := by
  cases op <;> unfold StorableOp <;> infer_instance

/-- Edits of one session at a time, whose callbacks run in time. -/
def EditsInTime (catalogue : List Game) (u : String) (s : State) : Event → Prop
  | .start client op _ => Active client s ∧ StorableOp op
  | .resume index _ =>
      match s.answers[index]? with
      | some a => InTime u ((app catalogue).view s a.client) s.calls (s.answers.eraseIdx index)
          a.response a.callback
      | none => True
  | _ => True

instance (catalogue : List Game) (u : String) (s : State) (e : Event) :
    Decidable (EditsInTime catalogue u s e) := by
  cases e with
  | resume index id =>
    unfold EditsInTime
    dsimp only
    split <;> infer_instance
  | _ => unfold EditsInTime; infer_instance

/-- What an edit asks for. -/
inductive ChainCall (catalogue : List Game) (u : String) : Query → Callback → Prop
  | games : ChainCall catalogue u (.value (gamesRef u)) (.editUserLFGInfo u)
  | user (games : List Game) : ChainCall catalogue u (.value (userRef u)) (.updateUserLFG u games)
  | list {game : Game} (hgame : game ∈ catalogue) (user : User) (games : List Game) :
      ChainCall catalogue u (listQuery u game)
        (.updateGameLFG game games (lfgDictionary u user games game))

variable {catalogue : List Game} {u g : String} {db db' : Tree} {s t : State}

/-! ### One callback -/

/-- Being awaited depends on the user's record only. -/
theorem Callback.Asks.unchanged {callback : Callback} (h : callback.Asks u g db)
    (hplatform : storedPlatform u db' g = storedPlatform u db g)
    (hentry : currentEntry u db' g = currentEntry u db g) : callback.Asks u g db' := by
  cases callback with
  | editUserLFGInfo | updateUserLFG => simpa only [Asks, hplatform] using h
  | updateGameLFG => simpa only [Asks, hentry] using h
  | _ => exact h

theorem Callback.Renews.unchanged {callback : Callback} {snapshot : Tree}
    (h : callback.Renews u g db snapshot)
    (hplatform : storedPlatform u db' g = storedPlatform u db g)
    (hentry : currentEntry u db' g = currentEntry u db g) : callback.Renews u g db' snapshot := by
  cases callback with
  | editUserLFGInfo => simpa only [Renews, hplatform] using h
  | updateUserLFG | updateGameLFG => simpa only [Renews, hentry] using h
  | _ => exact h

theorem Awaited.unchanged {calls : List PendingCall}
    {answers : List PendingAnswer} (h : Awaited u g db calls answers)
    (hplatform : storedPlatform u db' g = storedPlatform u db g)
    (hentry : currentEntry u db' g = currentEntry u db g) : Awaited u g db' calls answers := by
  rcases h with ⟨c, hc, hasks⟩ | ⟨a, ha, hrenews⟩
  · exact Or.inl ⟨c, hc, hasks.unchanged hplatform hentry⟩
  · exact Or.inr ⟨a, ha, hrenews.unchanged hplatform hentry⟩

theorem Awaited.mono {calls calls' : List PendingCall}
    {answers answers' : List PendingAnswer}
    (h : Awaited u g db calls answers) (hcalls : calls ⊆ calls') (hanswers : answers ⊆ answers') :
    Awaited u g db calls' answers' := by
  rcases h with ⟨c, hc, hasks⟩ | ⟨a, ha, hrenews⟩
  · exact Or.inl ⟨c, hcalls hc, hasks⟩
  · exact Or.inr ⟨a, hanswers ha, hrenews⟩

/-- **A read keeps the list awaited**: its answer has what is stored. -/
theorem Callback.Asks.served {request : Query} {callback : Callback} {response : Tree}
    (htidy : Tidy catalogue u db) (hchain : ChainCall catalogue u request callback)
    (h : callback.Asks u g db) (hanswers : request.answers db response = true) :
    callback.Renews u g db response := by
  cases hchain with
  | games =>
    have hsame : PathTree.Same response (db.sub (gamesRef u)) := of_decide_eq_true hanswers
    exact ⟨h, represents_fetchedGames htidy hsame g⟩
  | user games =>
    have hsame : PathTree.Same response (db.sub (userRef u)) := of_decide_eq_true hanswers
    obtain ⟨user, huser⟩ := htidy.profile
    obtain ⟨user', hfetched, huser'⟩ := (huser.congr hsame).decodes
    have hfetch : fetchedUser response = some user' := hfetched
    rw [Renews, hfetch, Option.map_some, currentEntry_eq (huser'.congr hsame.symm)]
    exact congrArg (fun platform => some (platform.map (entryValues u user'))) h
  | list hgame user games => exact h

/-- An entry in the list is the one that was found, if that one is still the first. -/
theorem Tidy.found (htidy : Tidy catalogue u db) {game : Game} (hgame : game ∈ catalogue)
    {snapshot : Tree}
    (h : firstKey ((listQuery u game).snapshot db) = none ∨
      firstKey snapshot = firstKey ((listQuery u game).snapshot db)) {k : String}
    (hk : Listed (lfgRef game.name) u db k) : firstKey snapshot = some k := by
  have hanswers : (listQuery u game).answers db ((listQuery u game).snapshot db) = true :=
    decide_eq_true (PathTree.Same.refl _)
  have hnow : firstKey ((listQuery u game).snapshot db) = some k :=
    firstKey_of_only hanswers hk (fun k' hk' => htidy.single game hgame k k' hk hk')
      (htidy.keys game hgame k hk)
  rcases h with hnone | hsame
  · rw [hnow] at hnone
    cases hnone
  · rw [hsame, hnow]

/-- What a callback issues that only hands on what was read. -/
structure HandsOn (catalogue : List Game) (u : String) (db snapshot : Tree) (callback : Callback)
    (commands : Commands) : Prop where
  writes : commands.filterMap Command.write? = []
  asks : ∀ game ∈ catalogue, callback.Renews u game.name db snapshot →
    ∃ c ∈ commands.filterMap Command.call?, c.2.Asks u game.name db

theorem handsOn_editUserLFGInfo (snapshot : Tree) :
    HandsOn catalogue u db snapshot (.editUserLFGInfo u) (editUserLFGInfoRead u snapshot) := by
  rw [editUserLFGInfoRead]
  split
  · rename_i hempty
    refine ⟨rfl, fun game hgame hrenews => ?_⟩
    obtain ⟨hsome, hplatform⟩ := hrenews
    rw [List.isEmpty_iff.mp hempty] at hplatform
    exact (hsome hplatform.symm).elim
  · refine ⟨rfl, fun game hgame hrenews => ⟨_, List.mem_singleton.mpr rfl, ?_⟩⟩
    exact hrenews.2

variable (catalogue u db) in
theorem handsOn_updateUserLFG (games : List Game) (snapshot : Tree) :
    HandsOn catalogue u db snapshot (.updateUserLFG u games)
      (updateUserLFGRead catalogue u games snapshot) := by
  rw [updateUserLFGRead]
  cases hfetched : fetchedUser snapshot with
  | none =>
    refine ⟨rfl, fun game hgame hrenews => ?_⟩
    simp [Callback.Renews, hfetched] at hrenews
  | some user =>
    refine ⟨?_, fun game hgame hrenews => ?_⟩
    · simp [List.filterMap_map, Function.comp_def, Command.write?]
    · have hentry : (platformOf games game.name).map (entryValues u user) =
          currentEntry u db game.name := by
        simpa [Callback.Renews, hfetched] using hrenews
      refine ⟨(listQuery u game, .updateGameLFG game games (lfgDictionary u user games game)), ?_,
        rfl, ?_⟩
      · exact mem_calls.mpr (List.mem_map.mpr ⟨game, hgame, rfl⟩)
      · rw [lfgDictionary_eq]
        exact hentry

/-- The callbacks of a chain ask for its next part only. -/
theorem ChainCall.permitted {request : Query} {callback : Callback}
    (h : ChainCall catalogue u request callback) (client : Session) (snapshot : Tree)
    (id : String) :
    Permitted (fun _ _ => True) (fun _ => ChainCall catalogue u) client
      (resume catalogue callback snapshot id) := by
  refine ⟨fun _ _ => trivial, fun request' callback' hmem => ?_⟩
  cases h with
  | games =>
    simp only [resume, editUserLFGInfoRead] at hmem
    split at hmem
    · cases hmem
    · simp only [updateUserLFG, List.mem_singleton, Command.call.injEq] at hmem
      obtain ⟨rfl, rfl⟩ := hmem
      exact .user _
  | user games =>
    simp only [resume, updateUserLFGRead] at hmem
    split at hmem
    · obtain ⟨game, hgame, heq⟩ := List.mem_map.mp hmem
      obtain ⟨rfl, rfl⟩ := Command.call.inj heq
      exact .list hgame _ games
    · cases hmem
  | list hgame user games =>
    simp only [resume, updateGameLFGRead_eq] at hmem
    split at hmem <;> simp at hmem

theorem editOps_permitted {client : Session} {op : Op} {id id' : String}
    (h : editOps u (.start client op id) = true) :
    Permitted (fun _ _ => True) (fun _ => ChainCall catalogue u) client (begin client op id') := by
  simp only [editOps, Bool.and_eq_true, decide_eq_true_iff] at h
  obtain ⟨rfl, hop⟩ := h
  refine ⟨fun _ _ => trivial, fun request callback hmem => ?_⟩
  cases op with
  | updateUserGames games =>
    simp only [begin, updateUserGames, updateUserLFG, List.mem_cons, List.not_mem_nil,
      Command.call.injEq, reduceCtorEq, or_false, false_or] at hmem
    obtain ⟨rfl, rfl⟩ := hmem
    exact .user games
  | updateBio | editRegion | editMicStatus | setProfilePicture =>
    simp only [begin, updateBio, editRegion, editMicStatus, setProfilePicture, editProfile,
      editUserLFGInfo, List.mem_cons, List.not_mem_nil, Command.call.injEq, reduceCtorEq, or_false,
      false_or] at hmem
    obtain ⟨rfl, rfl⟩ := hmem
    exact .games
  | _ => cases hop

/-- The key a list's callback is given is a generated one. -/
theorem ChainCall.key {request : Query} {game : Game} {games : List Game}
    {lfgDictionary : Option Dictionary} {response : Tree} {k : String}
    (h : ChainCall catalogue u request (.updateGameLFG game games lfgDictionary))
    (htidy : Tidy catalogue u db) (hanswers : request.answers db response = true)
    (hk : firstKey response = some k) : Tree.integerKey k = none := by
  cases h with
  | list hgame user games => exact htidy.keys game hgame k (listed_of_firstKey hanswers hk)

theorem editOps_cases {client : Session} {op : Op} {id : String}
    (h : editOps u (.start client op id) = true) :
    client.user = u ∧ ((∃ games, op = .updateUserGames games) ∨
      ∃ field content, profileEdit op = some (field, content)) := by
  simp only [editOps, Bool.and_eq_true, decide_eq_true_iff] at h
  refine ⟨h.1, ?_⟩
  cases op with
  | updateUserGames games => exact Or.inl ⟨games, rfl⟩
  | updateBio | editRegion | editMicStatus | setProfilePicture => exact Or.inr ⟨_, _, rfl⟩
  | _ => cases h.2

/-- **An edit** writes one part of the record, and starts a chain that asks for every list of
    a game with a platform. -/
theorem edit_begins {client : Session} {op : Op} (id : String)
    (hop : editOps u (.start client op id) = true) (hstorable : StorableOp op)
    (htidy : Tidy catalogue u db) :
    ∃ field value request callback,
      begin client op id = [.write (storeField u field value), .call request callback] ∧
      Tidy catalogue u ((storeField u field value).apply db) ∧
      ∀ g, callback.Asks u g ((storeField u field value).apply db) ∨
        storedPlatform u ((storeField u field value).apply db) g = none ∧
          storedPlatform u db g = none := by
  obtain ⟨rfl, ⟨games, rfl⟩ | ⟨field, content, hedit⟩⟩ := editOps_cases hop
  · obtain ⟨htidy', hgames⟩ := tidy_updateUserGames htidy hstorable
    exact ⟨"games", _, _, .updateUserLFG client.user games, rfl, htidy', fun g => Or.inl (hgames g)⟩
  · obtain ⟨hbegin, hfield⟩ : begin client op id = editProfile client.user field content ∧ _ :=
      begin_profileEdit hedit
    obtain ⟨user, huser⟩ := htidy.profile
    refine ⟨field, Tree.str content, .value (gamesRef client.user), .editUserLFGInfo client.user,
      hbegin, htidy.storeField hfield (stored_profileEdit hedit huser), fun g => ?_⟩
    have hgames : Unchanged (gamesRef client.user) db
        ((storeField client.user field (Tree.str content)).apply db) :=
      unchanged_storeField hfield.symm
    rw [Callback.Asks, hgames.storedPlatform g, and_self]
    exact (em (storedPlatform client.user db g = none)).symm

/-- The callback of one list leaves the others as they were, or awaited as they were. -/
theorem Renewed.lists {entry : Option Dictionary} {commands : Commands}
    {calls : List PendingCall}
    {before after : List PendingAnswer}
    {a : PendingAnswer} (h : Renewed catalogue u db g entry commands db')
    (ha : ∃ game games lfgDictionary, a.callback = .updateGameLFG game games lfgDictionary ∧
      game.name = g)
    (hintime : entry = currentEntry u db g ∨ Awaited u g db calls (before ++ after)) {g' : String}
    (hold : ListingAgrees u db g' ∨ Awaited u g' db calls (before ++ a :: after)) :
    ListingAgrees u db' g' ∨ Awaited u g' db' calls (before ++ after) := by
  have hplatform : ∀ g, storedPlatform u db' g = storedPlatform u db g :=
    (h.profile.below ["games"]).storedPlatform
  have hentry : ∀ g, currentEntry u db' g = currentEntry u db g := by
    intro g
    obtain ⟨user, huser⟩ := h.tidy.profile
    rw [currentEntry_eq huser, currentEntry_eq (huser.congr h.profile.same.symm), hplatform]
  by_cases hname : g' = g
  · subst hname
    exact hintime.imp h.agrees fun hawaited => hawaited.unchanged (hplatform g') (hentry g')
  rcases hold with hagrees | ⟨c, hc, hasks⟩ | ⟨a', ha', hrenews⟩
  · exact Or.inl (hagrees.unchanged h.profile (h.others g' hname))
  · exact Or.inr (Or.inl ⟨c, hc, hasks.unchanged (hplatform g') (hentry g')⟩)
  · refine Or.inr (Or.inr ⟨a', ?_, hrenews.unchanged (hplatform g') (hentry g')⟩)
    rcases List.mem_append.mp ha' with hbefore | hafter
    · exact List.mem_append_left _ hbefore
    rcases List.mem_cons.mp hafter with rfl | hlater
    · obtain ⟨game, games, lfgDictionary, hcallback, rfl⟩ := ha
      rw [hcallback] at hrenews
      exact (hname hrenews.1.symm).elim
    · exact List.mem_append_right _ hlater

/-! ### Every step -/

/-- A list that does not agree with the profile is awaited. -/
structure Maintained (catalogue : List Game) (u : String) (s : State) : Prop where
  active : ∃ client, Active client s
  issued : Issued (fun _ _ => True) (fun _ => ChainCall catalogue u) s
  keys : ∀ a ∈ s.answers, ∀ game games lfgDictionary,
    a.callback = .updateGameLFG game games lfgDictionary →
      ∀ k, firstKey a.response = some k → Tree.integerKey k = none
  tidy : Tidy catalogue u ((app catalogue).flush s)
  lists : ∀ game ∈ catalogue, ListingAgrees u ((app catalogue).flush s) game.name ∨
    Awaited u game.name ((app catalogue).flush s) s.calls s.answers

/-- An edit whose chain asks for every list of a game with a platform. -/
theorem lists_edited {calls calls' : List PendingCall}
    {answers : List PendingAnswer}
    (hlist : Unchanged (lfgRef g) db db') (hcalls : calls ⊆ calls')
    (hasks : (∃ c ∈ calls', c.callback.Asks u g db') ∨
      storedPlatform u db' g = none ∧ storedPlatform u db g = none)
    (h : ListingAgrees u db g ∨ Awaited u g db calls answers) :
    ListingAgrees u db' g ∨ Awaited u g db' calls' answers := by
  rcases hasks with hnew | ⟨hnone', hnone⟩
  · exact Or.inr (Or.inl hnew)
  rcases h with hagrees | hawaited
  · refine Or.inl ⟨fun platform hsome => ?_, fun _ k hlisted => ?_⟩
    · rw [hnone'] at hsome
      cases hsome
    · exact hagrees.2 hnone k ((hlist.listed k).mp hlisted)
  · refine Or.inr ((hawaited.unchanged ?_ ?_).mono hcalls (List.Subset.refl _))
    · rw [hnone, hnone']
    · rw [currentEntry, currentEntry, hnone, hnone']
      rfl

namespace Maintained

theorem start (h : Maintained catalogue u s) {client : Session} {op : Op} {id : String}
    (hop : editOps u (.start client op id) = true) (hactive : Active client s)
    (hstorable : StorableOp op)
    (hst : (app catalogue).step s (.start client op id) = some t) : Maintained catalogue u t := by
  have hactive' : Active client t := hactive.step (fun client' op' id' he => by cases he; rfl) hst
  have hissued := h.issued.step (fun client' op' id' he => by cases he; exact editOps_permitted hop)
    (fun client' request callback response id' hc => hc.permitted client' response id') hst
  obtain ⟨-, -, rfl⟩ := step_start _ hst
  obtain ⟨field, value, request, callback, hcommands, htidy, hasks⟩ :=
    edit_begins id hop hstorable h.tidy
  have hflush : (app catalogue).flush (s.issue client id ((app catalogue).begin client op id)) =
      (storeField u field value).apply ((app catalogue).flush s) := by
    rw [flush_issue, app_begin, hcommands]
    rfl
  have hcalls : (s.issue client id ((app catalogue).begin client op id)).calls =
      s.calls ++ [⟨client, request, callback⟩] := by
    simp only [Config.issue]
    rw [app_begin, hcommands]
    rfl
  refine ⟨⟨client, hactive'⟩, hissued, h.keys, ?_, fun game hgame => ?_⟩
  · rw [hflush]
    exact htidy
  · rw [hflush, hcalls]
    refine lists_edited (unchanged_list_storeField game.name) (List.subset_append_left _ _) ?_
      (h.lists game hgame)
    exact (hasks game.name).imp_left fun h =>
      ⟨_, List.mem_append_right _ (List.mem_singleton.mpr rfl), h⟩

theorem deliver (h : Maintained catalogue u s) {index : Nat}
    (horder : InOrder s (.deliver index : Event))
    (hst : (app catalogue).step s (.deliver index) = some t) : Maintained catalogue u t := by
  obtain ⟨client, hactive⟩ := h.active
  have hactive' : Active client t := hactive.step (fun client' op' id' he => by cases he) hst
  obtain ⟨-, hflush⟩ := flush_deliver hactive.writes horder hst
  obtain ⟨before, e, after, hout, -, rfl⟩ := step_deliver _ hst
  refine ⟨⟨client, hactive'⟩, ⟨fun _ _ => trivial, h.issued.calls, h.issued.answers⟩, h.keys, ?_,
    fun game hgame => ?_⟩
  · rw [hflush]
    exact h.tidy
  · rw [hflush]
    exact h.lists game hgame

theorem observe (h : Maintained catalogue u s) {client : Session}
    (hst : (app catalogue).step s (.observe client) = some t) : Maintained catalogue u t := by
  obtain ⟨client', hactive⟩ := h.active
  obtain rfl := step_observe _ hst
  exact ⟨⟨client', hactive.writes, hactive.calls, hactive.answers⟩,
    ⟨h.issued.writes, h.issued.calls, h.issued.answers⟩, h.keys, h.tidy, h.lists⟩

theorem serve (h : Maintained catalogue u s) {index : Nat} {response : Tree}
    (hst : (app catalogue).step s (.serve index response) = some t) : Maintained catalogue u t := by
  obtain ⟨client, hactive⟩ := h.active
  have hactive' : Active client t := hactive.step (fun client' op' id' he => by cases he) hst
  have hissued := h.issued.step (fun client' op' id' he => by cases he)
    (fun client' request callback response id' hc => hc.permitted client' response id') hst
  obtain ⟨before, c, after, hcalls, -, hanswers, rfl⟩ := step_serve _ hst
  have hc : c ∈ s.calls := mem_of_split hcalls
  have hchain : ChainCall catalogue u c.request c.callback := h.issued.calls c hc
  rw [hactive.calls c hc, view_eq_flush hactive.writes] at hanswers
  have hanswers' : c.request.answers ((app catalogue).flush s) response = true := hanswers
  refine ⟨⟨client, hactive'⟩, hissued, fun a ha => ?_, h.tidy, fun game hgame => ?_⟩
  · rcases List.mem_append.mp ha with hold | hnew
    · exact h.keys a hold
    · obtain rfl := List.mem_singleton.mp hnew
      intro game games lfgDictionary hcallback k hk
      have hlist : ChainCall catalogue u c.request (.updateGameLFG game games lfgDictionary) :=
        hcallback ▸ hchain
      exact hlist.key h.tidy hanswers' hk
  · refine (h.lists game hgame).imp_right ?_
    rintro (⟨c', hc', hasks⟩ | ⟨a, ha, hrenews⟩)
    · rw [hcalls] at hc'
      rcases List.mem_append.mp hc' with hbefore | hafter
      · exact Or.inl ⟨c', List.mem_append_left _ hbefore, hasks⟩
      rcases List.mem_cons.mp hafter with rfl | hlater
      · exact Or.inr ⟨_, List.mem_append_right _ (List.mem_singleton.mpr rfl),
          hasks.served h.tidy hchain hanswers'⟩
      · exact Or.inl ⟨c', List.mem_append_right _ hlater, hasks⟩
    · exact Or.inr ⟨a, List.mem_append_left _ ha, hrenews⟩

/-- A callback that only hands on keeps every list awaited that its answer awaited. -/
theorem handOn (h : Maintained catalogue u s) {before after : List PendingAnswer}
    {a : PendingAnswer} (hanswers : s.answers = before ++ a :: after) {id : String}
    {commands : Commands}
    (hhands : HandsOn catalogue u ((app catalogue).flush s) a.response a.callback commands)
    {v : State}
    (hv : v = ({ s with answers := before ++ after } : State).issue a.client id commands)
    (hactive : ∃ client, Active client v)
    (hissued : Issued (fun _ _ => True) (fun _ => ChainCall catalogue u) v) :
    Maintained catalogue u v := by
  have hflush : (app catalogue).flush v = (app catalogue).flush s := by
    rw [hv, flush_issue, hhands.writes]
    rfl
  subst hv
  refine ⟨hactive, hissued, fun a' ha' => h.keys a' ?_, ?_, fun game hgame => ?_⟩
  · exact rest_of_split hanswers ha'
  · rw [hflush]
    exact h.tidy
  · rw [hflush]
    refine (h.lists game hgame).imp_right ?_
    rintro (⟨c, hc, hasks⟩ | ⟨a', ha', hrenews⟩)
    · exact Or.inl ⟨c, List.mem_append_left _ hc, hasks⟩
    · rw [hanswers] at ha'
      rcases List.mem_append.mp ha' with hbefore | hafter
      · exact Or.inr ⟨a', List.mem_append_left _ hbefore, hrenews⟩
      rcases List.mem_cons.mp hafter with rfl | hlater
      · obtain ⟨c, hc, hasks⟩ := hhands.asks game hgame hrenews
        exact Or.inl ⟨_, List.mem_append_right _ (List.mem_map.mpr ⟨c, hc, rfl⟩), hasks⟩
      · exact Or.inr ⟨a', List.mem_append_right _ hlater, hrenews⟩

theorem resume (h : Maintained catalogue u s) {index : Nat} {id : String}
    (hok : EditsInTime catalogue u s (.resume index id))
    (hst : (app catalogue).step s (.resume index id) = some t) : Maintained catalogue u t := by
  obtain ⟨client, hactive⟩ := h.active
  have hactive' : ∃ client, Active client t :=
    ⟨client, hactive.step (fun client' op' id' he => by cases he) hst⟩
  have hissued := h.issued.step (fun client' op' id' he => by cases he)
    (fun client' request callback response id' hc => hc.permitted client' response id') hst
  obtain ⟨before, a, after, hanswers, hlength, hmintable, -, heq⟩ := step_resume _ hst
  have ha : a ∈ s.answers := mem_of_split hanswers
  have hintime : InTime u ((app catalogue).flush s) s.calls (before ++ after) a.response
      a.callback := by
    have hget : s.answers[index]? = some a := by
      rw [hanswers, ← hlength]
      simp
    have herase : s.answers.eraseIdx index = before ++ after := by
      rw [hanswers, ← hlength, eraseIdx_split]
    rw [EditsInTime, hget] at hok
    dsimp only at hok
    rwa [hactive.answers a ha, view_eq_flush hactive.writes, herase] at hok
  have hchain := h.issued.answers a ha
  have hkeys := h.keys a ha
  obtain ⟨answering, request, callback, response⟩ := a
  dsimp only at hchain hkeys
  cases hchain with
  | games =>
    exact h.handOn hanswers (handsOn_editUserLFGInfo response) heq hactive' hissued
  | user games =>
    exact h.handOn hanswers (handsOn_updateUserLFG _ _ _ games response) heq hactive' hissued
  | @list game hgame user games =>
    obtain ⟨db', hrenewed⟩ := renewed h.tidy user games game
      (fun k hk => h.tidy.found hgame hintime.1 hk)
      (hkeys game games _ rfl) (Tree.integerKey_of_hyphen hmintable)
    have hflush : (app catalogue).flush t = db' := by
      rw [heq, flush_issue]
      exact hrenewed.writes
    have hcalls : t.calls = s.calls := by
      rw [heq]
      simp only [Config.issue]
      rw [app_resume, resume_updateGameLFG, hrenewed.calls, List.map_nil, List.append_nil]
    have hanswers' : t.answers = before ++ after := by
      rw [heq]
      rfl
    refine ⟨hactive', hissued, fun a' ha' => h.keys a' ?_, ?_, fun game' hgame' => ?_⟩
    · exact rest_of_split hanswers (hanswers' ▸ ha')
    · rw [hflush]
      exact hrenewed.tidy
    · rw [hflush, hcalls, hanswers']
      have hold := h.lists game' hgame'
      rw [hanswers] at hold
      exact hrenewed.lists ⟨game, games, _, rfl, rfl⟩ hintime.2 hold

theorem step (h : Maintained catalogue u s) {e : Event} (hop : editOps u e = true)
    (horder : InOrder s e) (hok : EditsInTime catalogue u s e)
    (hst : (app catalogue).step s e = some t) : Maintained catalogue u t := by
  cases e with
  | start client op id => exact h.start hop hok.1 hok.2 hst
  | deliver index => exact h.deliver horder hst
  | serve index response => exact h.serve hst
  | resume index id => exact h.resume hok hst
  | observe client => exact h.observe hst

end Maintained

/-- **The lists agree with the profile** in every state with nothing under way, if the
    callbacks of the lists run in time. -/
theorem listings_agree {ids : List String} {events : List Event} (htidy : Tidy catalogue u db)
    (hagrees : ∀ game ∈ catalogue, ListingAgrees u db game.name)
    (run : (app catalogue).Run
      (fun s e => editOps u e = true ∧ InOrder s e ∧ EditsInTime catalogue u s e)
      (State.initial db ids) events t)
    (hrest : t.Quiescent) : ∀ game ∈ catalogue, ListingAgrees u t.store game.name := by
  have hquiet : (State.initial db ids).Quiescent := ⟨rfl, rfl, rfl⟩
  have hstart : Maintained catalogue u (State.initial db ids) := by
    refine ⟨⟨⟨u, 0⟩, .of_quiescent hquiet⟩, .of_quiescent hquiet, fun a ha => (by cases ha), ?_,
      fun game hgame => Or.inl ?_⟩
    · rw [flush_of_quiescent hquiet]
      exact htidy
    · rw [flush_of_quiescent hquiet]
      exact hagrees game hgame
  have hmaintained : Maintained catalogue u t := run.invariant (Maintained catalogue u)
    (fun v e w hv hok hst => hv.step hok.1 hok.2.1 hok.2.2 hst) hstart
  intro game hgame
  have hlist := hmaintained.lists game hgame
  rw [flush_of_quiescent hrest, hrest.2.1, hrest.2.2] at hlist
  rcases hlist with hagrees | ⟨c, hc, -⟩ | ⟨a, ha, -⟩
  · exact hagrees
  · cases hc
  · cases ha

/-- Alice has no games yet. -/
def newcomer : Tree := (PathTree.empty : Tree).put (userRef "alice1") (record "alice1")

theorem leafAt_games_newcomer (q : Ref) : newcomer.leafAt (gamesRef "alice1" ++ q) = none := by
  have hbelow : newcomer.leafAt (userRef "alice1" ++ "games" :: q) =
      (record "alice1").leafAt ("games" :: q) := PathTree.leafAt_put_below _ _ _ _
  rw [record, Tree.leafAt_ofDictionary (by simp)] at hbelow
  exact hbelow

theorem storedPlatform_newcomer (g : String) : storedPlatform "alice1" newcomer g = none := by
  cases hplatform : storedPlatform "alice1" newcomer g with
  | none => rfl
  | some platform =>
    have hleaf := Tree.asString_eq_some.mp hplatform
    rw [PathTree.leafAt_sub, List.append_assoc] at hleaf
    cases (leafAt_games_newcomer _).symm.trans hleaf

theorem unlisted_newcomer (g k : String) : ¬ Listed (lfgRef g) "alice1" newcomer k := by
  intro hlisted
  have hlist : newcomer.leafAt (lfgRef g ++ [k, "username"]) =
      (PathTree.empty : Tree).leafAt (lfgRef g ++ [k, "username"]) :=
    PathTree.leafAt_put_beside _ _ (by simp [Incomparable])
  cases hlist.symm.trans hlisted

theorem tidy_newcomer : Tidy [chess] "alice1" newcomer ∧
    ∀ game ∈ [chess], ListingAgrees "alice1" newcomer game.name := by
  refine ⟨⟨⟨somebody "alice1", ?_⟩, fun g q v hv => ?_,
    fun game _ k k' h => (unlisted_newcomer _ _ h).elim,
    fun game _ k h => (unlisted_newcomer _ _ h).elim⟩,
    fun game _ => ⟨fun platform hplatform => ?_, fun _ => unlisted_newcomer _⟩⟩
  · constructor <;> decide +kernel
  · cases (leafAt_games_newcomer (g :: q)).symm.trans hv
  · cases (storedPlatform_newcomer game.name).symm.trans hplatform

/-- What alice's record is once she has stored chess, and this text in her biography. -/
def chessRecord (bio : String) : Tree :=
  ((record "alice1").put ["games"] (Tree.ofDictionary (gamesDictionary [chess]))).put ["biography"]
    (Tree.str bio)

/-- The answer to the query for alice's entry under this key. -/
def listedEntry (key bio : String) : Tree :=
  Tree.ofDictionary [(key, Tree.ofDictionary
    (entryValues "alice1" { somebody "alice1" with bio } "PC"))]

/-- Alice adds chess and edits her biography at once.  Both chains read her profile after both
    writes, and the list is read for the second only after the first has renewed it. -/
def oneAfterTheOther : List Event :=
  [.start ⟨"alice1", 1⟩ (.updateUserGames [chess]) "-1",
    .start ⟨"alice1", 1⟩ (.updateBio "hello") "-2", .deliver 0,
    .serve 0 (chessRecord "hello"), .serve 0 (Tree.ofDictionary (gamesDictionary [chess])),
    .resume 1 "-3", .resume 0 "-4", .serve 1 .empty, .serve 0 (chessRecord "hello"),
    .resume 0 "-5", .resume 0 "-6", .serve 0 (listedEntry "-5" "hello"), .deliver 0, .deliver 0,
    .resume 0 "-7", .deliver 0]

theorem listings_agree_oneAfterTheOther :
    ∃ t, (app [chess]).exec
        (fun s e => decide (editOps "alice1" e = true ∧ InOrder s e ∧
          EditsInTime [chess] "alice1" s e))
        (State.initial newcomer []) oneAfterTheOther = some t ∧
      ∀ game ∈ [chess], ListingAgrees "alice1" t.store game.name := by
  have hend : ((app [chess]).exec
      (fun s e => decide (editOps "alice1" e = true ∧ InOrder s e ∧
        EditsInTime [chess] "alice1" s e))
      (State.initial newcomer []) oneAfterTheOther).map (fun t => decide t.Quiescent) =
      some true := by
    decide +kernel
  obtain ⟨t, ht, hrest⟩ := Option.map_eq_some_iff.mp hend
  have run := run_of_exec (fun s e h => of_decide_eq_true h) ht
  exact ⟨t, ht, listings_agree tidy_newcomer.1 tidy_newcomer.2 run (of_decide_eq_true hrest)⟩

/-- The same edits, but both chains read the list before either has renewed it. -/
def bothAtOnce : List Event :=
  [.start ⟨"alice1", 1⟩ (.updateUserGames [chess]) "-1",
    .start ⟨"alice1", 1⟩ (.updateBio "hello") "-2", .deliver 0, .deliver 0,
    .serve 0 (chessRecord "hello"), .serve 0 (Tree.ofDictionary (gamesDictionary [chess])),
    .resume 1 "-3", .resume 0 "-4", .serve 0 (chessRecord "hello"), .resume 0 "-5",
    .serve 0 .empty, .serve 0 .empty, .resume 0 "-6", .resume 0 "-7", .deliver 0, .deliver 0]

theorem not_always_listings_agree :
    ¬ ∀ (catalogue : List Game) (u : String) (db : Tree) (ids : List String)
      (events : List Event) (t : State), Tidy catalogue u db →
      (∀ g, storedPlatform u db g ≠ none → ∃ game ∈ catalogue, game.name = g) →
      (∀ game ∈ catalogue, ListingAgrees u db game.name) →
      (app catalogue).Run (fun s e => editOps u e = true ∧ InOrder s e)
        (State.initial db ids) events t →
      t.Quiescent → ∀ game ∈ catalogue, ListingAgrees u t.store game.name := by
  intro hall
  have hend : ((app [chess]).exec (fun s e => decide (editOps "alice1" e = true ∧ InOrder s e))
      (State.initial newcomer []) bothAtOnce).map (fun t => (decide t.Quiescent,
        storedPlatform "alice1" t.store "chess",
        decide (Listed (lfgRef "chess") "alice1" t.store "-6"),
        decide (Listed (lfgRef "chess") "alice1" t.store "-7"))) =
      some (true, some "PC", true, true) := by
    decide +kernel
  obtain ⟨t, ht, hrest⟩ := Option.map_eq_some_iff.mp hend
  simp only [Prod.mk.injEq, decide_eq_true_eq] at hrest
  obtain ⟨hquiet, hplatform, hsix, hseven⟩ := hrest
  have run := run_of_exec (fun s e h => of_decide_eq_true h) ht
  have hnogames : ∀ g, storedPlatform "alice1" newcomer g ≠ none →
      ∃ game ∈ [chess], game.name = g :=
    fun g hg => (hg (storedPlatform_newcomer g)).elim
  obtain ⟨k, hone, -⟩ := (hall [chess] "alice1" newcomer [] bothAtOnce t tidy_newcomer.1 hnogames
    tidy_newcomer.2 run hquiet chess (by simp)).1 "PC" hplatform
  have hsame := ((hone "-6").mp hsix).trans ((hone "-7").mp hseven).symm
  exact absurd hsame (by decide)

end TeamUp
