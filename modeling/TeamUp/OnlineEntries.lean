import TeamUp.Players
import TeamUp.PlayingNow
import TeamUp.ProfileEdits

/-!
# Online entries and the profile

An entry of `lfg/online` repeats the profile of the user at the moment of going online.
Edits of the profile renew the lists of who looks for players, but not these entries.  So
the entries of a user agree with the profile as long as the user, while online, stores
only what is stored already.
-/

namespace TeamUp

open Protocol

/-- The user's entries among the online players repeat the profile, and the game of each is
    stored with the platform of the entry. -/
def OnlineAgrees (u : String) (db : Tree) : Prop :=
  ∀ g k, Listed (onlineRef g) u db k → ∃ platform,
    storedPlatform u db g = some platform ∧ EntryAgrees u db (onlineRef g ++ [k]) platform

/-- The games the user is online for. -/
def onlineGames (u : String) (db : Tree) : List String :=
  (db.sub ["lfg", "online"]).keys.filter fun g =>
    (db.sub (onlineRef g)).keys.any fun k => decide (Listed (onlineRef g) u db k)

/-- The platform stored with a game by an update: that of the last game of this name. -/
def lastPlatform (games : List Game) (g : String) : Option String :=
  (games.reverse.find? fun game => game.name == g).bind Game.playerPlatform

/-- The user starts an operation once everything started before is completed. -/
def completedOps (u : String) (s : State) : Event → Bool
  | .start client op id =>
      decide (client.user = u ∧ s.Quiescent) && listingOps (.start client op id)
  | _ => true

/-- A game is gone online for with the platform stored with it, and a user who is online only
    stores a field as it is, and games that keep the platforms of those the user is online
    for. -/
def KeepsOnline (u : String) (s : State) : Event → Prop
  | .start _ (.goOnlineForGame game _) _ =>
      ∀ platform ∈ game.playerPlatform, storedPlatform u s.store game.name = some platform
  | .start _ (.updateUserGames games) _ =>
      ∀ g ∈ onlineGames u s.store, lastPlatform games g = storedPlatform u s.store g
  | .start _ op _ =>
      ∀ edit ∈ profileEdit op, onlineGames u s.store = [] ∨
        s.store.leafAt (userRef u ++ [edit.1]) = some (.str edit.2)
  | _ => True

instance (u : String) (s : State) (e : Event) : Decidable (KeepsOnline u s e) := by
  rcases e with ⟨_, _ | _, _⟩ | _ <;> dsimp only [KeepsOnline] <;> infer_instance

variable {catalogue : List Game} {u g k : String} {db db' : Tree} {s t : State}

theorem mem_onlineGames (h : Listed (onlineRef g) u db k) : g ∈ onlineGames u db := by
  refine List.mem_filter.mpr ⟨?_, List.any_eq_true.mpr ⟨k, ?_, decide_eq_true h⟩⟩
  · rw [PathTree.mem_keys, PathTree.has_sub]
    exact PathTree.has_of_leafAt (q := [k, "username"]) h
  · rw [PathTree.mem_keys, PathTree.has_sub]
    exact PathTree.has_of_leafAt (q := ["username"]) h

/-! ### Entries and writes -/

theorem Unchanged.listedEntry {list : Ref} (h : Unchanged (list ++ [k]) db db') :
    Listed list u db' k ↔ Listed list u db k := by
  have hleaf := h ["username"]
  rw [List.append_assoc] at hleaf
  rw [Listed, Listed]
  exact Eq.congr_left hleaf

/-- The entries that are left agree if nothing they repeat has changed. -/
theorem OnlineAgrees.keep (h : OnlineAgrees u db)
    (hkept : ∀ g k, Listed (onlineRef g) u db' k →
      Listed (onlineRef g) u db k ∧ Unchanged (onlineRef g ++ [k]) db db' ∧
        storedPlatform u db' g = storedPlatform u db g ∧
        ∀ field ∈ ["region", "profilePicUrl", "mic", "biography"],
          db'.leafAt (userRef u ++ [field]) = db.leafAt (userRef u ++ [field])) :
    OnlineAgrees u db' := by
  intro g k hlisted
  obtain ⟨hold, hentry, hplatform, hprofile⟩ := hkept g k hlisted
  obtain ⟨platform, hsome, hagrees⟩ := h g k hold
  obtain ⟨region, hregion, hquery⟩ := hagrees.compoundQuery
  refine ⟨platform, hplatform.trans hsome, fun field hfield => ?_, ?_, region, ?_, ?_⟩
  · rw [hentry, hprofile field hfield]
    exact hagrees.copied field hfield
  · rw [hentry]
    exact hagrees.platform
  · rw [hprofile "region" (by simp)]
    exact hregion
  · rw [hentry]
    exact hquery

/-- Everything of the record but what the user plays is unchanged. -/
def SameProfile (u : String) (db db' : Tree) : Prop :=
  ∀ f, f ≠ "currentlyPlaying" → Unchanged (userRef u ++ [f]) db db'

theorem SameProfile.trans {db'' : Tree} (h : SameProfile u db db') (h' : SameProfile u db' db'') :
    SameProfile u db db'' :=
  fun f hf q => (h' f hf q).trans (h f hf q)

theorem SameProfile.storedPlatform (h : SameProfile u db db') (g : String) :
    storedPlatform u db' g = storedPlatform u db g :=
  Unchanged.storedPlatform (h "games" (by decide)) g

theorem SameProfile.leafAt (h : SameProfile u db db') {f : String} (hf : f ≠ "currentlyPlaying") :
    db'.leafAt (userRef u ++ [f]) = db.leafAt (userRef u ++ [f]) := by
  have hleaf := h f hf []
  rwa [List.append_nil] at hleaf

theorem SameProfile.stored (h : SameProfile u db db') {user : User}
    (huser : user.Stored (db.sub (userRef u))) : user.Stored (db'.sub (userRef u)) := by
  have hleaf : ∀ {f}, f ≠ "currentlyPlaying" →
      (db'.sub (userRef u)).leafAt [f] = (db.sub (userRef u)).leafAt [f] := by
    intro f hf
    rw [PathTree.leafAt_sub, PathTree.leafAt_sub]
    exact h.leafAt hf
  constructor <;> rw [hleaf (by decide)]
  · exact huser.username
  · exact huser.biography
  · exact huser.mic
  · exact huser.profilePicUrl
  · exact huser.region

theorem sameProfile_of_list {w : Write} (hw : w.ref.head? = some "lfg") :
    SameProfile u db (w.apply db) :=
  fun _ _ => unchanged_of_beside (record_beside hw rfl)

theorem sameProfile_of_playing {w : Write} (hw : w.ref = currentlyPlayingRef u) :
    SameProfile u db (w.apply db) := by
  intro f hf
  exact unchanged_of_beside (by simp [Incomparable, hw, hf, Ne.symm hf])

/-- Entries agree with the profile unless they or the profile are written. -/
theorem OnlineAgrees.frame (h : OnlineAgrees u db) (hprofile : SameProfile u db db')
    (hkept : ∀ g k, Listed (onlineRef g) u db' k →
      Listed (onlineRef g) u db k ∧ Unchanged (onlineRef g ++ [k]) db db') :
    OnlineAgrees u db' := by
  refine h.keep fun g k hlisted => ?_
  obtain ⟨hold, hentry⟩ := hkept g k hlisted
  refine ⟨hold, hentry, hprofile.storedPlatform g, fun field hfield => hprofile.leafAt ?_⟩
  rintro rfl
  simp at hfield

theorem OnlineAgrees.list (h : OnlineAgrees u db) {w : Write} (hw : w.ref = lfgRef g ++ [k])
    (hg : g ≠ "online") : OnlineAgrees u (w.apply db) := by
  have hentry : ∀ g' k', Unchanged (onlineRef g' ++ [k']) db (w.apply db) :=
    fun g' k' => unchanged_of_beside (by simp [Incomparable, hw, hg, Ne.symm hg])
  exact h.frame (sameProfile_of_list (by rw [hw]; rfl)) fun g' k' hlisted =>
    ⟨(hentry g' k').listedEntry.mp hlisted, hentry g' k'⟩

theorem OnlineAgrees.playing (h : OnlineAgrees u db) {w : Write}
    (hw : w.ref = currentlyPlayingRef u) : OnlineAgrees u (w.apply db) := by
  refine h.frame (sameProfile_of_playing hw) fun g k hlisted => ⟨?_, ?_⟩
  · exact (online_beside hw g k).mp hlisted
  · exact unchanged_of_beside (by simp [Incomparable, hw])

theorem OnlineAgrees.removeEntry (h : OnlineAgrees u db) (g k : String) :
    OnlineAgrees u ((Write.removeValue (onlineRef g ++ [k])).apply db) := by
  refine h.frame (sameProfile_of_list rfl) fun g' k' hlisted => ?_
  obtain ⟨hold, hother⟩ := (online_removeEntry g' k').mp hlisted
  refine ⟨hold, unchanged_of_beside ?_⟩
  by_cases hg : g' = g
  · subst hg
    have hk : k' ≠ k := fun hk => hother ⟨rfl, hk⟩
    simp [Incomparable, Write.ref, hk, Ne.symm hk]
  · simp [Incomparable, Write.ref, hg, Ne.symm hg]

/-! ### What the operations write -/

theorem storedPlatform_updateUserGames (games : List Game) (g : String) :
    storedPlatform u
        ((storeField u "games" (Tree.ofDictionary (gamesDictionary games))).apply db) g =
      lastPlatform games g := by
  have hleaf : ((storeField u "games" (Tree.ofDictionary (gamesDictionary games))).apply db).leafAt
      (userRef u ++ ["games", g, "playerPlatform"]) = _ := leafAt_storeField "games" _ _
  rw [gamesDictionary, Tree.leafAt_ofDictionary (Dictionary.nodup_collect _),
    Dictionary.lookup_collect_last] at hleaf
  have hplatform : (((storeField u "games" (Tree.ofDictionary (gamesDictionary games))).apply
      db).sub (gamesRef u ++ [g, "playerPlatform"])).leafAt [] =
        (lastPlatform games g).map .str := by
    rw [PathTree.leafAt_sub, List.append_nil]
    refine hleaf.trans ?_
    rw [lastPlatform]
    cases games.reverse.find? fun game => game.name == g with
    | none => rfl
    | some game => exact (leafAt_gameDictionary game).2.2.2.1
  rw [storedPlatform, Tree.asString, hplatform]
  cases lastPlatform games g <;> rfl

/-- Storing a field as it is. -/
theorem OnlineAgrees.storeField (h : OnlineAgrees u db) {field content : String}
    (hfield : field ≠ "games")
    (hsame : onlineGames u db = [] ∨ db.leafAt (userRef u ++ [field]) = some (.str content)) :
    OnlineAgrees u ((storeField u field (Tree.str content)).apply db) := by
  have hlist : ∀ g, Unchanged (onlineRef g) db
      ((TeamUp.storeField u field (Tree.str content)).apply db) :=
    fun g => unchanged_of_beside (by simp [Incomparable, TeamUp.storeField, Write.ref])
  refine h.keep fun g k hlisted => ?_
  rw [(hlist g).listed] at hlisted
  have hstored : db.leafAt (userRef u ++ [field]) = some (.str content) := by
    refine hsame.resolve_left fun hnone => ?_
    have hmem := mem_onlineGames hlisted
    rw [hnone] at hmem
    cases hmem
  have hgames : Unchanged (gamesRef u) db
      ((TeamUp.storeField u field (Tree.str content)).apply db) := unchanged_storeField hfield.symm
  refine ⟨hlisted, (hlist g).below [k], hgames.storedPlatform g, fun f _ => ?_⟩
  by_cases hf : f = field
  · subst hf
    rw [hstored]
    exact leafAt_storeField f (Tree.str content) []
  · exact leafAt_storeField_other hf

/-- Storing games that keep the platforms of those the user is online for. -/
theorem OnlineAgrees.updateUserGames (h : OnlineAgrees u db) {games : List Game}
    (hsame : ∀ g ∈ onlineGames u db, lastPlatform games g = storedPlatform u db g) :
    OnlineAgrees u
      ((TeamUp.storeField u "games" (Tree.ofDictionary (gamesDictionary games))).apply db) := by
  have hlist : ∀ g, Unchanged (onlineRef g) db ((TeamUp.storeField u "games"
      (Tree.ofDictionary (gamesDictionary games))).apply db) :=
    fun g => unchanged_of_beside (by simp [Incomparable, TeamUp.storeField, Write.ref])
  refine h.keep fun g k hlisted => ?_
  rw [(hlist g).listed] at hlisted
  refine ⟨hlisted, (hlist g).below [k], ?_, fun f hf => leafAt_storeField_other ?_⟩
  · rw [storedPlatform_updateUserGames]
    exact hsame g (mem_onlineGames hlisted)
  · rintro rfl
    simp at hf

/-- **An entry written with the fetched profile agrees with it.** -/
theorem OnlineAgrees.enter (h : OnlineAgrees u db) {user : User}
    (huser : user.Stored (db.sub (userRef u))) {platform : String}
    (hplatform : storedPlatform u db g = some platform) {values : Dictionary}
    (hnodup : (values.map Prod.fst).Nodup)
    (hvalues : ∀ field value, field ≠ "username" →
      (field, Tree.str value) ∈ entryValues u user platform → (field, Tree.str value) ∈ values) :
    OnlineAgrees u ((Write.updateChildValues (onlineRef g ++ [k]) values).apply db) := by
  have hprofile : SameProfile u db
      ((Write.updateChildValues (onlineRef g ++ [k]) values).apply db) := sameProfile_of_list rfl
  intro g' k' hlisted
  by_cases hsame : g' = g ∧ k' = k
  · obtain ⟨rfl, rfl⟩ := hsame
    refine ⟨platform, (hprofile.storedPlatform g').trans hplatform, ?_⟩
    refine entryAgrees_of_values (hprofile.stored huser) fun field value hne hmem => ?_
    exact Write.leafAt_update_named hnodup (hvalues field value hne hmem) []
  · have hentry : Unchanged (onlineRef g' ++ [k']) db
        ((Write.updateChildValues (onlineRef g ++ [k]) values).apply db) := by
      refine unchanged_of_beside ?_
      by_cases hg : g' = g
      · subst hg
        have hk : k' ≠ k := fun hk => hsame ⟨rfl, hk⟩
        simp [Incomparable, Write.ref, hk, Ne.symm hk]
      · simp [Incomparable, Write.ref, hg, Ne.symm hg]
    obtain ⟨platform', hsome, hagrees⟩ := h g' k' (hentry.listedEntry.mp hlisted)
    refine ⟨platform', (hprofile.storedPlatform g').trans hsome, ?_⟩
    exact hagrees.unchanged (unchanged_of_beside (record_beside rfl rfl)) hentry

/-! ### What is under way -/

/-- What the operations of the user ask for. -/
inductive OnlineCall (catalogue : List Game) (u : String) : Query → Callback → Prop
  | chain {request : Query} {callback : Callback} (h : ChainCall catalogue u request callback) :
      OnlineCall catalogue u request callback
  | online (game : Game) (now : Rat) :
      OnlineCall catalogue u (.value (userRef u)) (.goOnlineForGame u game now)
  | offline (game : Game) :
      OnlineCall catalogue u (.equal (onlineRef game.name) "username" u) (.goOfflineForGame game)

/-- The game to go online for is stored with its platform. -/
def Callback.WellPlaced (u : String) (db : Tree) : Callback → Prop
  | .goOnlineForGame _ game _ =>
      ∀ platform ∈ game.playerPlatform, storedPlatform u db game.name = some platform
  | _ => True

/-- The profile read for going online is the stored one. -/
def Callback.WellRead (u : String) (db snapshot : Tree) : Callback → Prop
  | .goOnlineForGame _ _ _ =>
      ∀ user ∈ fetchedUser snapshot, user.Stored (db.sub (userRef u))
  | _ => True

theorem SameProfile.wellPlaced (h : SameProfile u db db') {callback : Callback}
    (hplaced : callback.WellPlaced u db) : callback.WellPlaced u db' := by
  cases callback with
  | goOnlineForGame _ game _ =>
    exact fun platform hplatform => (h.storedPlatform game.name).trans (hplaced platform hplatform)
  | _ => trivial

theorem SameProfile.wellRead (h : SameProfile u db db') {callback : Callback} {snapshot : Tree}
    (hread : callback.WellRead u db snapshot) : callback.WellRead u db' snapshot := by
  cases callback with
  | goOnlineForGame => exact fun user huser => h.stored (hread user huser)
  | _ => trivial

/-- What a chain of an edit writes are entries of the lists of who looks for players. -/
theorem ChainCall.write {request : Query} {callback : Callback}
    (h : ChainCall catalogue u request callback) {snapshot : Tree} {id : String} {w : Write}
    (hw : .write w ∈ resume catalogue callback snapshot id) :
    ∃ game ∈ catalogue, ∃ k, w.ref = lfgRef game.name ++ [k] := by
  cases h with
  | games =>
    simp only [resume, editUserLFGInfoRead] at hw
    split at hw <;> simp [updateUserLFG] at hw
  | user games =>
    simp only [resume, updateUserLFGRead] at hw
    split at hw <;> simp at hw
  | @list game hgame user games =>
    simp only [resume, updateGameLFGRead_eq] at hw
    refine ⟨game, hgame, ?_⟩
    split at hw
    · rw [Command.write.inj (List.mem_singleton.mp hw)]
      exact ⟨_, rfl⟩
    · rw [Command.write.inj (List.mem_singleton.mp hw)]
      exact ⟨_, rfl⟩
    · rw [Command.write.inj (List.mem_singleton.mp hw)]
      exact ⟨_, rfl⟩
    · cases hw

theorem ChainCall.wellPlaced {request : Query} {callback : Callback}
    (h : ChainCall catalogue u request callback) (db : Tree) : callback.WellPlaced u db := by
  cases h <;> trivial

/-- Writes that keep the profile and the agreement one by one keep them together. -/
theorem OnlineAgrees.applyAll {ws : List Write}
    (hws : ∀ w ∈ ws, ∀ db, OnlineAgrees u db →
      SameProfile u db (w.apply db) ∧ OnlineAgrees u (w.apply db)) (h : OnlineAgrees u db) :
    SameProfile u db ((app catalogue).applyAll ws db) ∧
      OnlineAgrees u ((app catalogue).applyAll ws db) := by
  induction ws generalizing db with
  | nil => exact ⟨fun _ _ _ => rfl, h⟩
  | cons w rest ih =>
    obtain ⟨hprofile, hagrees⟩ := hws w (by simp) db h
    obtain ⟨hprofile', hagrees'⟩ := ih (fun w' hw' => hws w' (by simp [hw'])) hagrees
    exact ⟨hprofile.trans hprofile', hagrees'⟩

/-- The values of an entry of the online players. -/
def onlineValues (user : User) (platform : String) (game : Game) (now : Rat) : Dictionary :=
  entryValues user.username user platform ++
    [("currentlyPlaying", Tree.str game.name), ("onlineSince", Tree.double now)]

theorem goOnlineForGameRead_eq (game : Game) (now : Rat) (snapshot : Tree) (id : String) :
    goOnlineForGameRead u game now snapshot id =
      match fetchedUser snapshot, game.playerPlatform with
      | some user, some platform =>
          [.write (.updateChildValues (onlineRef game.name ++ [id])
            (onlineValues user platform game now)),
            .write (.setValue (currentlyPlayingRef u) (Tree.str game.name))]
      | _, _ => [] := rfl

theorem nodup_onlineValues (user : User) (platform : String) (game : Game) (now : Rat) :
    ((onlineValues user platform game now).map Prod.fst).Nodup := by
  simp [onlineValues, entryValues]

theorem mem_onlineValues {field : String} {user : User} {platform : String} {value : Tree}
    (hfield : field ≠ "username") (h : (field, value) ∈ entryValues u user platform)
    (game : Game) (now : Rat) : (field, value) ∈ onlineValues user platform game now := by
  refine List.mem_append_left _ ?_
  rcases List.mem_cons.mp h with heq | htail
  · exact (hfield (congrArg Prod.fst heq)).elim
  · exact List.mem_cons_of_mem _ htail

theorem applyAll_pair (a b : Write) :
    (app catalogue).applyAll (([.write a, .write b] : Commands).filterMap Command.write?) db =
      b.apply (a.apply db) := rfl

/-- **A callback keeps the profile and the agreement**, and asks for nothing that is badly
    placed. -/
theorem OnlineAgrees.resume {request : Query} {callback : Callback} (snapshot : Tree)
    (id : String) (hcatalogue : ∀ game ∈ catalogue, game.name ≠ "online")
    (hcall : OnlineCall catalogue u request callback) (hplaced : callback.WellPlaced u db)
    (hread : callback.WellRead u db snapshot) (h : OnlineAgrees u db) (client : Session) :
    Permitted (fun _ _ => True) (fun _ request callback =>
        OnlineCall catalogue u request callback ∧ ∀ db, callback.WellPlaced u db) client
        (TeamUp.resume catalogue callback snapshot id) ∧
      SameProfile u db ((app catalogue).applyAll
        ((TeamUp.resume catalogue callback snapshot id).filterMap Command.write?) db) ∧
      OnlineAgrees u ((app catalogue).applyAll
        ((TeamUp.resume catalogue callback snapshot id).filterMap Command.write?) db) := by
  cases hcall with
  | chain hchain =>
    refine ⟨⟨fun _ _ => trivial, fun request' callback' hmem => ?_⟩, h.applyAll ?_⟩
    · have hnext := (hchain.permitted client snapshot id).2 request' callback' hmem
      exact ⟨.chain hnext, hnext.wellPlaced⟩
    · intro w hw db hagrees
      obtain ⟨game, hgame, k, href⟩ := hchain.write (mem_writes.mp hw)
      exact ⟨sameProfile_of_list (by rw [href]; rfl), hagrees.list href (hcatalogue game hgame)⟩
  | online game now =>
    simp only [TeamUp.resume, goOnlineForGameRead_eq]
    split
    · rename_i user platform huser hplatform
      have hentered : OnlineAgrees u ((Write.updateChildValues (onlineRef game.name ++ [id])
          (onlineValues user platform game now)).apply db) :=
        h.enter (hread user huser) (hplaced platform hplatform) (nodup_onlineValues _ _ _ _)
          fun field value hne hmem => mem_onlineValues hne hmem game now
      have hlist : SameProfile u db ((Write.updateChildValues (onlineRef game.name ++ [id])
          (onlineValues user platform game now)).apply db) := sameProfile_of_list rfl
      refine ⟨⟨fun _ _ => trivial, fun request' callback' hmem => by simp at hmem⟩, ?_⟩
      rw [applyAll_pair]
      exact ⟨hlist.trans (sameProfile_of_playing rfl), hentered.playing rfl⟩
    · exact ⟨⟨fun _ _ => trivial, fun _ _ hmem => by cases hmem⟩, fun _ _ _ => rfl, h⟩
  | offline game =>
    simp only [TeamUp.resume, goOfflineForGameRead_eq]
    refine ⟨⟨fun _ _ => trivial, fun request' callback' hmem => by simp at hmem⟩, h.applyAll ?_⟩
    intro w hw db hagrees
    obtain ⟨k, hk, heq⟩ := List.mem_map.mp (mem_writes.mp hw)
    obtain rfl := Command.write.inj heq
    exact ⟨sameProfile_of_list rfl, hagrees.removeEntry game.name k⟩

/-! ### Every step -/

/-- The entries agree with everything outstanding applied, and whoever is about to go online
    has read the stored profile. -/
structure Copied (catalogue : List Game) (u : String) (s : State) : Prop where
  active : ∃ client, Active client s
  issued : Issued (fun _ _ => True) (fun _ => OnlineCall catalogue u) s
  placed : ∀ c ∈ s.calls, c.callback.WellPlaced u ((app catalogue).flush s)
  read : ∀ a ∈ s.answers, a.callback.WellPlaced u ((app catalogue).flush s) ∧
    a.callback.WellRead u ((app catalogue).flush s) a.response
  agrees : OnlineAgrees u ((app catalogue).flush s)

/-- What an edit asks for is a chain, which is well placed whatever it stores. -/
theorem permitted_edit {client : Session} {op : Op} {id : String}
    (hop : editOps u (.start client op id) = true) (db : Tree) :
    Permitted (fun _ _ => True) (fun _ request callback =>
      OnlineCall catalogue u request callback ∧ callback.WellPlaced u db) client
      (begin client op id) :=
  ⟨fun _ _ => trivial, fun request callback hmem =>
    have hchain : ChainCall catalogue u request callback :=
      (editOps_permitted hop).2 request callback hmem
    ⟨.chain hchain, hchain.wellPlaced db⟩⟩

/-- **An operation keeps the agreement**, and asks for nothing that is badly placed. -/
theorem OnlineAgrees.start {client : Session} {op : Op} {id : String} (h : OnlineAgrees u s.store)
    (hclient : client.user = u) (hop : listingOps (.start client op id) = true)
    (hkeeps : KeepsOnline u s (.start client op id)) :
    Permitted (fun _ _ => True) (fun _ request callback =>
        OnlineCall catalogue u request callback ∧ callback.WellPlaced u
          ((app catalogue).applyAll (opWrites client op id) s.store)) client
        (begin client op id) ∧
      OnlineAgrees u ((app catalogue).applyAll (opWrites client op id) s.store) := by
  subst hclient
  cases op with
  | goOnlineForGame game now =>
    refine ⟨⟨fun _ _ => trivial, fun request callback hmem => ?_⟩, h⟩
    obtain ⟨rfl, rfl⟩ := Command.call.inj (List.mem_singleton.mp hmem)
    exact ⟨.online game now, hkeeps⟩
  | goOfflineForGame game =>
    refine ⟨⟨fun _ _ => trivial, fun request callback hmem => ?_⟩,
      h.playing (show (dropPlaying client.user).ref = _ from rfl)⟩
    simp only [begin, goOfflineForGame, List.mem_cons, Command.call.injEq, reduceCtorEq,
      List.not_mem_nil, or_false, false_or] at hmem
    obtain ⟨rfl, rfl⟩ := hmem
    exact ⟨.offline game, trivial⟩
  | updateUserGames games =>
    exact ⟨permitted_edit (by simp [editOps]) _, h.updateUserGames hkeeps⟩
  | updateBio | editRegion | editMicStatus | setProfilePicture =>
    exact ⟨permitted_edit (by simp [editOps]) _, h.storeField (by decide) (hkeeps _ rfl)⟩
  | _ => cases hop

namespace Copied

theorem start (h : Copied catalogue u s) {client : Session} {op : Op} {id : String}
    (hcompleted : completedOps u s (.start client op id) = true)
    (hkeeps : KeepsOnline u s (.start client op id))
    (hst : (app catalogue).step s (.start client op id) = some t) : Copied catalogue u t := by
  simp only [completedOps, Bool.and_eq_true, decide_eq_true_eq] at hcompleted
  obtain ⟨⟨hclient, hrest⟩, hop⟩ := hcompleted
  have hagrees : OnlineAgrees u s.store := by
    have hflushed := h.agrees
    rwa [flush_of_quiescent hrest] at hflushed
  have hactive : Active client t :=
    Active.step (.of_quiescent hrest) (fun client' op' id' he => by cases he; rfl) hst
  obtain ⟨-, -, rfl⟩ := step_start _ hst
  obtain ⟨hpermitted, hstarted⟩ : Permitted _ (fun _ request callback =>
      OnlineCall catalogue u request callback ∧ callback.WellPlaced u
        ((app catalogue).applyAll (opWrites client op id) s.store)) client _ ∧ _ :=
    hagrees.start hclient hop hkeeps
  rw [app_begin] at hactive ⊢
  have hflush : (app catalogue).flush (s.issue client id (begin client op id)) =
      (app catalogue).applyAll (opWrites client op id) s.store := by
    rw [flush_issue, flush_of_quiescent hrest, writes_begin]
  refine ⟨⟨client, hactive⟩, ?_, fun c hc => ?_, fun a ha => ?_, ?_⟩
  · exact Issued.issue (.of_quiescent hrest)
      ⟨fun _ _ => trivial, fun _ _ hmem => (hpermitted.2 _ _ hmem).1⟩ id
  · rw [hflush]
    simp only [Config.issue, hrest.2.1, List.nil_append] at hc
    obtain ⟨d, hd, rfl⟩ := List.mem_map.mp hc
    exact (hpermitted.2 d.1 d.2 (mem_calls.mp hd)).2
  · simp only [Config.issue, hrest.2.2] at ha
    cases ha
  · rw [hflush]
    exact hstarted

theorem deliver (h : Copied catalogue u s) {index : Nat}
    (horder : InOrder s (.deliver index : Event))
    (hst : (app catalogue).step s (.deliver index) = some t) : Copied catalogue u t := by
  obtain ⟨client, hactive⟩ := h.active
  have hactive' : Active client t := hactive.step (fun client' op' id' he => by cases he) hst
  obtain ⟨-, hflush⟩ := flush_deliver hactive.writes horder hst
  obtain ⟨before, e, after, hout, -, rfl⟩ := step_deliver _ hst
  refine ⟨⟨client, hactive'⟩, ⟨fun _ _ => trivial, h.issued.calls, h.issued.answers⟩, ?_, ?_, ?_⟩
  · rw [hflush]
    exact h.placed
  · rw [hflush]
    exact h.read
  · rw [hflush]
    exact h.agrees

theorem observe (h : Copied catalogue u s) {client : Session}
    (hst : (app catalogue).step s (.observe client) = some t) : Copied catalogue u t := by
  obtain ⟨client', hactive⟩ := h.active
  obtain rfl := step_observe _ hst
  exact ⟨⟨client', hactive.writes, hactive.calls, hactive.answers⟩,
    ⟨h.issued.writes, h.issued.calls, h.issued.answers⟩, h.placed, h.read, h.agrees⟩

theorem serve (h : Copied catalogue u s) {index : Nat} {response : Tree}
    (hst : (app catalogue).step s (.serve index response) = some t) : Copied catalogue u t := by
  obtain ⟨client, hactive⟩ := h.active
  have hactive' : Active client t := hactive.step (fun client' op' id' he => by cases he) hst
  obtain ⟨before, c, after, hcalls, -, hanswers, rfl⟩ := step_serve _ hst
  have hc : c ∈ s.calls := mem_of_split hcalls
  have hsub : ∀ c' ∈ before ++ after, c' ∈ s.calls := fun _ hmem => rest_of_split hcalls hmem
  rw [hactive.calls c hc, view_eq_flush hactive.writes] at hanswers
  have hanswers' : c.request.answers ((app catalogue).flush s) response = true := hanswers
  have hcall : OnlineCall catalogue u c.request c.callback := h.issued.calls c hc
  have hread : c.callback.WellRead u ((app catalogue).flush s) response := by
    obtain ⟨client', request, callback⟩ := c
    cases hcall with
    | chain hchain => cases hchain <;> trivial
    | offline game => trivial
    | online game now =>
      have hsame : PathTree.Same response (((app catalogue).flush s).sub (userRef u)) :=
        of_decide_eq_true hanswers'
      intro user huser
      obtain ⟨dictionary, hdictionary, hdecode⟩ := Option.bind_eq_some_iff.mp huser
      obtain rfl := Tree.asDictionary_eq_some hdictionary
      exact (User.stored_of_ofDictionary hdecode).congr hsame.symm
  refine ⟨⟨client, hactive'⟩, ⟨fun _ _ => trivial, fun c' hc' => h.issued.calls c' (hsub c' hc'),
    fun a ha => ?_⟩, fun c' hc' => h.placed c' (hsub c' hc'), fun a ha => ?_, h.agrees⟩
  · rcases List.mem_append.mp ha with hold | hnew
    · exact h.issued.answers a hold
    · rw [List.mem_singleton.mp hnew]
      exact hcall
  · rcases List.mem_append.mp ha with hold | hnew
    · exact h.read a hold
    · rw [List.mem_singleton.mp hnew]
      exact ⟨h.placed c hc, hread⟩

theorem resume (h : Copied catalogue u s) (hcatalogue : ∀ game ∈ catalogue, game.name ≠ "online")
    {index : Nat} {id : String}
    (hst : (app catalogue).step s (.resume index id) = some t) : Copied catalogue u t := by
  obtain ⟨client, hactive⟩ := h.active
  have hactive' : Active client t := hactive.step (fun client' op' id' he => by cases he) hst
  obtain ⟨before, a, after, hanswers, -, -, -, rfl⟩ := step_resume _ hst
  have ha : a ∈ s.answers := mem_of_split hanswers
  have hsub : ∀ a' ∈ before ++ after, a' ∈ s.answers := fun _ hmem => rest_of_split hanswers hmem
  obtain ⟨hpermitted, hprofile, hagrees⟩ := h.agrees.resume a.response id hcatalogue
    (h.issued.answers a ha) (h.read a ha).1 (h.read a ha).2 a.client
  rw [app_resume] at hactive' ⊢
  have hflush : (app catalogue).flush (Config.issue { s with answers := before ++ after } a.client
      id (TeamUp.resume catalogue a.callback a.response id)) =
      (app catalogue).applyAll ((TeamUp.resume catalogue a.callback a.response id).filterMap
        Command.write?) ((app catalogue).flush s) := flush_issue _ _ _
  refine ⟨⟨client, hactive'⟩, ?_, fun c hc => ?_, fun a' ha' => ?_, ?_⟩
  · have hrest : Issued (fun _ _ => True) (fun _ => OnlineCall catalogue u)
        { s with answers := before ++ after } :=
      ⟨h.issued.writes, h.issued.calls, fun a' ha' => h.issued.answers a' (hsub a' ha')⟩
    exact hrest.issue ⟨fun _ _ => trivial, fun _ _ hmem => (hpermitted.2 _ _ hmem).1⟩ id
  · rw [hflush]
    rcases List.mem_append.mp hc with hold | hnew
    · exact hprofile.wellPlaced (h.placed c hold)
    · obtain ⟨d, hd, rfl⟩ := List.mem_map.mp hnew
      exact (hpermitted.2 d.1 d.2 (mem_calls.mp hd)).2 _
  · rw [hflush]
    exact ⟨hprofile.wellPlaced (h.read a' (hsub a' ha')).1,
      hprofile.wellRead (h.read a' (hsub a' ha')).2⟩
  · rw [hflush]
    exact hagrees

theorem step (h : Copied catalogue u s) (hcatalogue : ∀ game ∈ catalogue, game.name ≠ "online")
    {e : Event} (hcompleted : completedOps u s e = true) (horder : InOrder s e)
    (hkeeps : KeepsOnline u s e) (hst : (app catalogue).step s e = some t) :
    Copied catalogue u t := by
  cases e with
  | start client op id => exact h.start hcompleted hkeeps hst
  | deliver index => exact h.deliver horder hst
  | serve index response => exact h.serve hst
  | resume index id => exact h.resume hcatalogue hst
  | observe client => exact h.observe hst

end Copied

/-- **The entries of a user among the online players agree with the profile** in every state
    in which everything started is completed, if what is stored while online is what is stored
    already. -/
theorem online_entries_agree {ids : List String} {events : List Event}
    (hcatalogue : ∀ game ∈ catalogue, game.name ≠ "online") (hagrees : OnlineAgrees u db)
    (run : (app catalogue).Run
      (fun s e => completedOps u s e = true ∧ InOrder s e ∧ KeepsOnline u s e)
      (State.initial db ids) events t)
    (hrest : t.Quiescent) : OnlineAgrees u t.store := by
  have hquiet : (State.initial db ids).Quiescent := ⟨rfl, rfl, rfl⟩
  have hstart : Copied catalogue u (State.initial db ids) := by
    refine ⟨⟨⟨u, 0⟩, .of_quiescent hquiet⟩, .of_quiescent hquiet, fun c hc => (by cases hc),
      fun a ha => (by cases ha), ?_⟩
    rw [flush_of_quiescent hquiet]
    exact hagrees
  have hcopied : Copied catalogue u t := run.invariant (Copied catalogue u)
    (fun v e w hv hok hst => hv.step hcatalogue hok.1 hok.2.1 hok.2.2 hst) hstart
  have hflushed := hcopied.agrees
  rwa [flush_of_quiescent hrest] at hflushed

/-- Alice's record once she has stored chess. -/
def chessPlayerRecord : Tree := (PathTree.empty : Tree).put (userRef "alice1") (chessRecord "")

theorem onlineAgrees_chessPlayer : OnlineAgrees "alice1" chessPlayerRecord := by
  intro g k hlisted
  have hlist : chessPlayerRecord.leafAt (onlineRef g ++ [k, "username"]) =
      (PathTree.empty : Tree).leafAt (onlineRef g ++ [k, "username"]) :=
    PathTree.leafAt_put_beside _ _ (by simp [Incomparable])
  cases hlist.symm.trans hlisted

/-- Alice goes online for chess. -/
def goesOnline : List Event :=
  [.start ⟨"alice1", 1⟩ (.goOnlineForGame chess 5) "-1", .serve 0 (chessRecord ""),
    .resume 0 "-2", .deliver 0, .deliver 0]

theorem online_entries_agree_goesOnline :
    ∃ t, (app [chess]).exec
        (fun s e => decide (completedOps "alice1" s e = true ∧ InOrder s e ∧
          KeepsOnline "alice1" s e))
        (State.initial chessPlayerRecord []) goesOnline = some t ∧
      OnlineAgrees "alice1" t.store ∧ Listed (onlineRef "chess") "alice1" t.store "-2" := by
  have hend : ((app [chess]).exec
      (fun s e => decide (completedOps "alice1" s e = true ∧ InOrder s e ∧
        KeepsOnline "alice1" s e))
      (State.initial chessPlayerRecord []) goesOnline).map (fun t => (decide t.Quiescent,
        decide (Listed (onlineRef "chess") "alice1" t.store "-2"))) = some (true, true) := by
    decide +kernel
  obtain ⟨t, ht, hend⟩ := Option.map_eq_some_iff.mp hend
  simp only [Prod.mk.injEq, decide_eq_true_eq] at hend
  have run := run_of_exec (fun s e h => of_decide_eq_true h) ht
  exact ⟨t, ht, online_entries_agree (by decide) onlineAgrees_chessPlayer run hend.1, hend.2⟩

/-- Then she edits her biography: her games and her profile are read, and the list of who
    looks for players is renewed. -/
def editsOnline : List Event :=
  goesOnline ++ [.start ⟨"alice1", 1⟩ (.updateBio "hello") "-3", .deliver 0,
    .serve 0 (Tree.ofDictionary (gamesDictionary [chess])), .resume 0 "-4",
    .serve 0 ((chessRecord "hello").put ["currentlyPlaying"] (Tree.str "chess")),
    .resume 0 "-5", .serve 0 .empty, .resume 0 "-6", .deliver 0]

theorem not_always_online_entries_agree :
    ¬ ∀ (catalogue : List Game) (u : String) (db : Tree) (ids : List String)
      (events : List Event) (t : State), (∀ game ∈ catalogue, game.name ≠ "online") →
      OnlineAgrees u db →
      (app catalogue).Run (fun s e => completedOps u s e = true ∧ InOrder s e)
        (State.initial db ids) events t →
      t.Quiescent → OnlineAgrees u t.store := by
  intro hall
  have hend : ((app [chess]).exec
      (fun s e => decide (completedOps "alice1" s e = true ∧ InOrder s e))
      (State.initial chessPlayerRecord []) editsOnline).map (fun t => (decide t.Quiescent,
        decide (Listed (onlineRef "chess") "alice1" t.store "-2"),
        t.store.leafAt (onlineRef "chess" ++ ["-2"] ++ ["biography"]),
        t.store.leafAt (userRef "alice1" ++ ["biography"]))) =
      some (true, true, some (.str ""), some (.str "hello")) := by
    decide +kernel
  obtain ⟨t, ht, hend⟩ := Option.map_eq_some_iff.mp hend
  simp only [Prod.mk.injEq, decide_eq_true_eq] at hend
  obtain ⟨hrest, hlisted, hold, hnew⟩ := hend
  have run := run_of_exec (fun s e h => of_decide_eq_true h) ht
  obtain ⟨platform, -, hagrees⟩ := hall [chess] "alice1" chessPlayerRecord [] editsOnline t
    (by decide) onlineAgrees_chessPlayer run hrest "chess" "-2" hlisted
  have hcopied := hagrees.copied "biography" (by simp)
  rw [hold, hnew] at hcopied
  exact absurd hcopied (by decide)

end TeamUp
