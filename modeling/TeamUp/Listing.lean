import TeamUp.Entries
import TeamUp.Writes
import TeamUp.Interleaving

/-!
# Looking for players

A user with a platform for a game has an entry in `lfg/<game>` that repeats parts of the
profile.  What is said here is about one database: when a list agrees with the profile,
what the callback of a list does to it, and what an edit of the profile stores.
-/

namespace TeamUp

open Protocol

abbrev gamesRef (username : String) : Ref := ["users", username, "games"]

/-- The platform stored with a game of the user. -/
def storedPlatform (u : String) (db : Tree) (g : String) : Option String :=
  Tree.asString (db.sub (gamesRef u ++ [g, "playerPlatform"]))

/-- The entry repeats the profile of the user, with this platform. -/
structure EntryAgrees (u : String) (db : Tree) (entry : Ref) (playerPlatform : String) :
    Prop where
  copied : ∀ field ∈ ["region", "profilePicUrl", "mic", "biography"],
    db.leafAt (entry ++ [field]) = db.leafAt (userRef u ++ [field])
  platform : db.leafAt (entry ++ ["platform"]) = some (.str playerPlatform)
  compoundQuery : ∃ region, db.leafAt (userRef u ++ ["region"]) = some (.str region) ∧
    db.leafAt (entry ++ ["compoundQuery"]) = some (.str (playerPlatform ++ "_" ++ region))

/-- The list of a game has exactly one entry of the user, which agrees with the profile, if
    the game is stored with a platform, and none otherwise. -/
def ListingAgrees (u : String) (db : Tree) (g : String) : Prop :=
  (∀ platform, storedPlatform u db g = some platform →
    ∃ k, (∀ k', Listed (lfgRef g) u db k' ↔ k' = k) ∧
      EntryAgrees u db (lfgRef g ++ [k]) platform) ∧
    (storedPlatform u db g = none → ∀ k, ¬ Listed (lfgRef g) u db k)

/-- The profile and the games of the user decode, and no list has two entries of the user
    or one under a key that is not generated. -/
structure Tidy (catalogue : List Game) (u : String) (db : Tree) : Prop where
  profile : ∃ user : User, user.Stored (db.sub (userRef u))
  games : ∀ g q v, db.leafAt (gamesRef u ++ g :: q) = some v →
    Tree.integerKey g = none ∧ Game.Stored g (db.sub (gamesRef u ++ [g]))
  single : ∀ game ∈ catalogue, ∀ k k', Listed (lfgRef game.name) u db k →
    Listed (lfgRef game.name) u db k' → k' = k
  keys : ∀ game ∈ catalogue, ∀ k, Listed (lfgRef game.name) u db k → Tree.integerKey k = none

/-- The platform of the first game of this name. -/
def platformOf (games : List Game) (g : String) : Option String :=
  (games.find? fun game => game.name == g).bind Game.playerPlatform

/-- The games have the platforms that are stored. -/
def Represents (games : List Game) (u : String) (db : Tree) : Prop :=
  ∀ g, platformOf games g = storedPlatform u db g

variable {catalogue games : List Game} {u g k : String} {db db' snapshot : Tree} {user : User}

/-! ### Frame -/

theorem Unchanged.storedPlatform (h : Unchanged (gamesRef u) db db') (g : String) :
    storedPlatform u db' g = storedPlatform u db g := by
  have hleaf : (db'.sub (gamesRef u ++ [g, "playerPlatform"])).leafAt [] =
      (db.sub (gamesRef u ++ [g, "playerPlatform"])).leafAt [] := by
    rw [PathTree.leafAt_sub, PathTree.leafAt_sub]
    exact h [g, "playerPlatform"]
  simp only [TeamUp.storedPlatform, Tree.asString, hleaf]

theorem EntryAgrees.unchanged {entry : Ref} {platform : String}
    (h : EntryAgrees u db entry platform) (huser : Unchanged (userRef u) db db')
    (hentry : Unchanged entry db db') : EntryAgrees u db' entry platform := by
  obtain ⟨region, hregion, hquery⟩ := h.compoundQuery
  refine ⟨fun field hfield => ?_, ?_, region, ?_, ?_⟩
  · rw [hentry, huser]
    exact h.copied field hfield
  · rw [hentry]
    exact h.platform
  · rw [huser]
    exact hregion
  · rw [hentry]
    exact hquery

theorem ListingAgrees.unchanged (h : ListingAgrees u db g) (huser : Unchanged (userRef u) db db')
    (hlist : Unchanged (lfgRef g) db db') : ListingAgrees u db' g := by
  have hgames : Unchanged (gamesRef u) db db' := huser.below ["games"]
  refine ⟨fun platform hplatform => ?_, fun hnone k => ?_⟩
  · rw [hgames.storedPlatform] at hplatform
    obtain ⟨k, hone, hentry⟩ := h.1 platform hplatform
    refine ⟨k, fun k' => ?_, hentry.unchanged huser (hlist.below [k])⟩
    rw [hlist.listed]
    exact hone k'
  · rw [hgames.storedPlatform] at hnone
    rw [hlist.listed]
    exact h.2 hnone k

/-- A write of an entry leaves the users and the other lists alone. -/
theorem unchanged_of_entry {w : Write} (hw : w.ref = lfgRef g ++ [k]) :
    Unchanged (userRef u) db (w.apply db) ∧
      ∀ g', g' ≠ g → Unchanged (lfgRef g') db (w.apply db) := by
  refine ⟨unchanged_of_beside ?_, fun g' hg' => unchanged_of_beside ?_⟩
  · simp [Incomparable, hw]
  · simp [Incomparable, hw, hg', Ne.symm hg']

/-- Writing an entry of one list keeps the database tidy if that list stays so. -/
theorem Tidy.entry (h : Tidy catalogue u db) {w : Write} (hw : w.ref = lfgRef g ++ [k])
    (hsingle : ∀ k k', Listed (lfgRef g) u (w.apply db) k →
      Listed (lfgRef g) u (w.apply db) k' → k' = k)
    (hkeys : ∀ k, Listed (lfgRef g) u (w.apply db) k → Tree.integerKey k = none) :
    Tidy catalogue u (w.apply db) := by
  obtain ⟨huser, hlists⟩ : Unchanged (userRef u) db (w.apply db) ∧ _ := unchanged_of_entry hw
  refine ⟨?_, fun g' q v hleaf => ?_, fun game hgame => ?_, fun game hgame => ?_⟩
  · obtain ⟨user, huser'⟩ := h.profile
    exact ⟨user, huser'.congr huser.same⟩
  · have hold : db.leafAt (gamesRef u ++ g' :: q) = some v :=
      (huser ("games" :: g' :: q)).symm.trans hleaf
    obtain ⟨hint, hstored⟩ := h.games g' q v hold
    exact ⟨hint, hstored.congr (huser.below ["games", g']).same⟩
  · by_cases hname : game.name = g
    · rw [hname]
      exact hsingle
    · intro k k'
      rw [(hlists _ hname).listed, (hlists _ hname).listed]
      exact h.single game hgame k k'
  · by_cases hname : game.name = g
    · rw [hname]
      exact hkeys
    · intro k
      rw [(hlists _ hname).listed]
      exact h.keys game hgame k

/-! ### Renewing one list -/

/-- The fields of an entry. -/
def entryValues (u : String) (user : User) (platform : String) : Dictionary :=
  [("username", Tree.str u),
    ("region", Tree.str user.region.rawValue),
    ("profilePicUrl", Tree.str user.profilePicUrl),
    ("mic", Tree.str user.mic.rawValue),
    ("biography", Tree.str user.bio),
    ("platform", Tree.str platform),
    ("compoundQuery", Tree.str (platform ++ "_" ++ user.region.rawValue))]

theorem nodup_entryValues (u : String) (user : User) (platform : String) :
    ((entryValues u user platform).map Prod.fst).Nodup := by
  simp [entryValues]

theorem lfgDictionary_eq (u : String) (user : User) (games : List Game) (game : Game) :
    lfgDictionary u user games game =
      (platformOf games game.name).map fun platform => entryValues u user platform := by
  rw [platformOf, List.find?_eq_bind_findIdx?_getElem?]
  simp only [lfgDictionary, Option.bind_eq_bind]
  cases hindex : games.findIdx? fun g => g.isEqual game with
  | none => simp [show (games.findIdx? fun g => g.name == game.name) = none from hindex]
  | some index =>
    rw [show (games.findIdx? fun g => g.name == game.name) = some index from hindex,
      Option.bind_some, Option.bind_some]
    cases (games[index]?).bind Game.playerPlatform <;> rfl

/-- What a list's callback issues: at most one write, of one entry. -/
theorem updateGameLFGRead_eq (u : String) (user : User) (games : List Game) (game : Game)
    (snapshot : Tree) (freshId : String) :
    updateGameLFGRead game games (lfgDictionary u user games game) snapshot freshId =
      match firstKey snapshot, platformOf games game.name with
      | some k, some platform =>
          [.write (.updateChildValues (lfgRef game.name ++ [k]) (entryValues u user platform))]
      | some k, none => [.write (.removeValue (lfgRef game.name ++ [k]))]
      | none, some platform =>
          [.write (.updateChildValues (lfgRef game.name ++ [freshId])
            (entryValues u user platform))]
      | none, none => [] := by
  have hany : ∀ platform, platformOf games game.name = some platform →
      (games.any fun g => g.isEqual game) = true := by
    intro platform hplatform
    obtain ⟨g, hg, -⟩ := Option.bind_eq_some_iff.mp hplatform
    refine List.any_eq_true.mpr ⟨g, List.mem_of_find?_eq_some hg, ?_⟩
    simpa [Game.isEqual] using List.find?_some hg
  rw [lfgDictionary_eq]
  unfold updateGameLFGRead
  rw [show (snapshot.asDictionary.bind fun dictionary => dictionary.keys.head?) =
    firstKey snapshot from rfl]
  cases hplatform : platformOf games game.name with
  | none => cases firstKey snapshot <;> rfl
  | some platform => cases firstKey snapshot <;> simp [hany platform hplatform]

/-- An entry with the values made from the stored profile agrees with it. -/
theorem entryAgrees_of_values {entry : Ref} {platform : String}
    (huser : user.Stored (db.sub (userRef u)))
    (hfield : ∀ field value, field ≠ "username" →
      (field, Tree.str value) ∈ entryValues u user platform →
      db.leafAt (entry ++ [field]) = some (.str value)) : EntryAgrees u db entry platform := by
  have hstored : ∀ {q v}, (db.sub (userRef u)).leafAt q = some v →
      db.leafAt (userRef u ++ q) = some v := by
    intro q v hleaf
    rwa [← PathTree.leafAt_sub]
  refine ⟨fun field hmem => ?_, ?_, user.region.rawValue, hstored huser.region, ?_⟩
  · simp only [List.mem_cons, List.not_mem_nil, or_false] at hmem
    rcases hmem with rfl | rfl | rfl | rfl
    · rw [hfield "region" user.region.rawValue (by decide) (by simp [entryValues]),
        hstored huser.region]
    · rw [hfield "profilePicUrl" user.profilePicUrl (by decide) (by simp [entryValues]),
        hstored huser.profilePicUrl]
    · rw [hfield "mic" user.mic.rawValue (by decide) (by simp [entryValues]), hstored huser.mic]
    · rw [hfield "biography" user.bio (by decide) (by simp [entryValues]),
        hstored huser.biography]
  · exact hfield "platform" platform (by decide) (by simp [entryValues])
  · exact hfield "compoundQuery" (platform ++ "_" ++ user.region.rawValue) (by decide)
      (by simp [entryValues])

/-- **An entry written with the fetched profile agrees with it.** -/
theorem listingAgrees_update {platform : String} (huser : user.Stored (db.sub (userRef u)))
    (hplatform : storedPlatform u db g = some platform)
    (honly : ∀ k', Listed (lfgRef g) u db k' → k' = k) :
    ListingAgrees u
      ((Write.updateChildValues (lfgRef g ++ [k]) (entryValues u user platform)).apply db) g := by
  have hprofile : Unchanged (userRef u) db
      ((Write.updateChildValues (lfgRef g ++ [k]) (entryValues u user platform)).apply db) :=
    (unchanged_of_entry rfl).1
  have hgames : Unchanged (gamesRef u) db _ := hprofile.below ["games"]
  refine ⟨fun platform' hplatform' => ⟨k, fun k' => ?_, ?_⟩, fun hnone => ?_⟩
  · rw [listed_updateEntry (nodup_entryValues u user platform) (by simp [entryValues])]
    exact ⟨fun h => h.elim id (honly k'), Or.inl⟩
  · rw [hgames.storedPlatform, hplatform] at hplatform'
    obtain rfl := Option.some.inj hplatform'
    refine entryAgrees_of_values (huser.congr hprofile.same) fun field value _ hmem => ?_
    exact Write.leafAt_update_named (nodup_entryValues u user platform) hmem []
  · rw [hgames.storedPlatform, hplatform] at hnone
    cases hnone

theorem listingAgrees_remove (hplatform : storedPlatform u db g = none)
    (honly : ∀ k', Listed (lfgRef g) u db k' → k' = k) :
    ListingAgrees u ((Write.removeValue (lfgRef g ++ [k])).apply db) g := by
  have hgames : Unchanged (gamesRef u) db ((Write.removeValue (lfgRef g ++ [k])).apply db) :=
    (unchanged_of_entry rfl).1.below ["games"]
  refine ⟨fun platform hsome => ?_, fun _ k' hlisted => ?_⟩
  · rw [hgames.storedPlatform, hplatform] at hsome
    cases hsome
  · obtain ⟨hold, hne⟩ := (listed_removeEntry k').mp hlisted
    exact hne (honly k' hold)

/-- The fields depend on what is stored only. -/
theorem entryValues_congr {user' : User} {t : Tree} (h : user.Stored t) (h' : user'.Stored t)
    (platform : String) : entryValues u user platform = entryValues u user' platform := by
  have hstr : ∀ {f a b}, t.leafAt [f] = some (Leaf.str a) → t.leafAt [f] = some (.str b) →
      a = b := by
    intro f a b ha hb
    simpa using ha.symm.trans hb
  rw [entryValues, entryValues, hstr h.region h'.region, hstr h.profilePicUrl h'.profilePicUrl,
    hstr h.mic h'.mic, hstr h.biography h'.biography]

/-- The entry that the profile calls for in the list of a game. -/
def currentEntry (u : String) (db : Tree) (g : String) : Option Dictionary :=
  (storedPlatform u db g).bind fun platform =>
    (fetchedUser (db.sub (userRef u))).map fun user => entryValues u user platform

theorem currentEntry_eq (huser : user.Stored (db.sub (userRef u))) (g : String) :
    currentEntry u db g =
      (storedPlatform u db g).map fun platform => entryValues u user platform := by
  obtain ⟨user', hfetched, huser'⟩ := huser.decodes
  have hfetch : fetchedUser (db.sub (userRef u)) = some user' := hfetched
  rw [currentEntry, hfetch]
  cases storedPlatform u db g with
  | none => rfl
  | some platform => exact congrArg some (entryValues_congr huser' huser platform)

/-- What a list's callback issues keeps the database tidy, and renews the list if it was
    given the entry that the profile calls for. -/
structure Renewed (catalogue : List Game) (u : String) (db : Tree) (g : String)
    (entry : Option Dictionary) (commands : Commands) (db' : Tree) : Prop where
  calls : commands.filterMap Command.call? = []
  writes : (app catalogue).applyAll (commands.filterMap Command.write?) db = db'
  agrees : entry = currentEntry u db g → ListingAgrees u db' g
  tidy : Tidy catalogue u db'
  profile : Unchanged (userRef u) db db'
  others : ∀ g', g' ≠ g → Unchanged (lfgRef g') db db'

theorem Renewed.of_update (htidy : Tidy catalogue u db) (user : User) (platform : String)
    (honly : ∀ k', Listed (lfgRef g) u db k' → k' = k) (hk : Tree.integerKey k = none) :
    ∃ db', Renewed catalogue u db g (some (entryValues u user platform))
      [.write (.updateChildValues (lfgRef g ++ [k]) (entryValues u user platform))] db' := by
  have href : (Write.updateChildValues (lfgRef g ++ [k]) (entryValues u user platform)).ref =
      lfgRef g ++ [k] := rfl
  obtain ⟨hprofile, hothers⟩ : Unchanged (userRef u) db
      ((Write.updateChildValues (lfgRef g ++ [k]) (entryValues u user platform)).apply db) ∧ _ :=
    unchanged_of_entry href
  have hlisted : ∀ k', Listed (lfgRef g) u
      ((Write.updateChildValues (lfgRef g ++ [k]) (entryValues u user platform)).apply db) k' →
      k' = k := by
    intro k' hk'
    rw [listed_updateEntry (nodup_entryValues u user platform) (by simp [entryValues])] at hk'
    exact hk'.elim id (honly k')
  refine ⟨_, rfl, rfl, fun hcurrent => ?_, ?_, hprofile, hothers⟩
  · obtain ⟨user', huser'⟩ := htidy.profile
    rw [currentEntry_eq huser'] at hcurrent
    obtain ⟨platform', hplatform, hentry⟩ := Option.map_eq_some_iff.mp hcurrent.symm
    rw [← hentry]
    exact listingAgrees_update huser' hplatform honly
  · refine htidy.entry href (fun k₁ k₂ h₁ h₂ => ?_) fun k' hk' => ?_
    · rw [hlisted k₁ h₁, hlisted k₂ h₂]
    · rw [hlisted k' hk']
      exact hk

theorem storedPlatform_of_currentEntry (htidy : Tidy catalogue u db)
    (h : none = currentEntry u db g) : storedPlatform u db g = none := by
  obtain ⟨user, huser⟩ := htidy.profile
  rw [currentEntry_eq huser] at h
  exact Option.map_eq_none_iff.mp h.symm

theorem Renewed.of_remove (htidy : Tidy catalogue u db)
    (honly : ∀ k', Listed (lfgRef g) u db k' → k' = k) :
    ∃ db', Renewed catalogue u db g none [.write (.removeValue (lfgRef g ++ [k]))] db' := by
  have href : (Write.removeValue (lfgRef g ++ [k])).ref = lfgRef g ++ [k] := rfl
  obtain ⟨hprofile, hothers⟩ : Unchanged (userRef u) db
      ((Write.removeValue (lfgRef g ++ [k])).apply db) ∧ _ := unchanged_of_entry href
  have hlisted : ∀ k',
      ¬ Listed (lfgRef g) u ((Write.removeValue (lfgRef g ++ [k])).apply db) k' := by
    intro k' hk'
    obtain ⟨hold, hne⟩ := (listed_removeEntry k').mp hk'
    exact hne (honly k' hold)
  refine ⟨_, rfl, rfl, fun hcurrent => ?_, ?_, hprofile, hothers⟩
  · exact listingAgrees_remove (storedPlatform_of_currentEntry htidy hcurrent) honly
  · exact htidy.entry href (fun k₁ k₂ h₁ => (hlisted k₁ h₁).elim)
      fun k' hk' => (hlisted k' hk').elim

/-- **A list's callback renews the list** if an entry in the list is the one it was given. -/
theorem renewed (htidy : Tidy catalogue u db) (user : User) (games : List Game) (game : Game)
    (hfound : ∀ k, Listed (lfgRef game.name) u db k → firstKey snapshot = some k)
    (hkey : ∀ k, firstKey snapshot = some k → Tree.integerKey k = none)
    {freshId : String} (hfresh : Tree.integerKey freshId = none) :
    ∃ db', Renewed catalogue u db game.name (lfgDictionary u user games game)
      (updateGameLFGRead game games (lfgDictionary u user games game) snapshot freshId) db' := by
  rw [updateGameLFGRead_eq, lfgDictionary_eq]
  cases hfirst : firstKey snapshot with
  | some k =>
    have honly : ∀ k', Listed (lfgRef game.name) u db k' → k' = k := by
      intro k' hk'
      exact Option.some.inj ((hfound k' hk').symm.trans hfirst)
    cases platformOf games game.name with
    | some platform => exact Renewed.of_update htidy user platform honly (hkey k hfirst)
    | none => exact Renewed.of_remove htidy honly
  | none =>
    have hnone : ∀ k, ¬ Listed (lfgRef game.name) u db k := by
      intro k hk
      exact Option.some_ne_none _ ((hfound k hk).symm.trans hfirst)
    cases platformOf games game.name with
    | some platform =>
      exact Renewed.of_update htidy user platform (fun k' hk' => (hnone k' hk').elim) hfresh
    | none =>
      refine ⟨db, rfl, rfl, fun hcurrent => ⟨fun platform hsome => ?_, fun _ => hnone⟩, htidy,
        fun _ => rfl, fun _ _ _ => rfl⟩
      have hplatform := storedPlatform_of_currentEntry htidy hcurrent
      rw [hplatform] at hsome
      cases hsome

/-! ### The fetched games -/

/-- The games fetched from the stored ones have their names and platforms. -/
theorem mem_fetchedGames (htidy : Tidy catalogue u db)
    (hsame : PathTree.Same snapshot (db.sub (gamesRef u))) :
    (∀ game ∈ fetchedGames snapshot,
      game.name ∈ snapshot.keys ∧ game.playerPlatform = storedPlatform u db game.name) ∧
      ∀ g ∈ snapshot.keys, ∃ game ∈ fetchedGames snapshot, game.name = g := by
  have hleaf : ∀ q, snapshot.leafAt q = db.leafAt (gamesRef u ++ q) := fun q => by
    rw [hsame.leafAt, PathTree.leafAt_sub]
  have hkey : ∀ g ∈ snapshot.keys, ∃ q v, snapshot.leafAt (g :: q) = some v := by
    intro g hg
    obtain ⟨q, hq⟩ := PathTree.has_iff_leafAt.mp (PathTree.mem_keys.mp hg)
    obtain ⟨v, hv⟩ := Option.ne_none_iff_exists'.mp hq
    exact ⟨q, v, hv⟩
  have hdecodes : ∀ g ∈ snapshot.keys, ∃ game,
      (Tree.asDictionary (snapshot.get g)).bind Game.ofDictionary = some game ∧ game.name = g ∧
        game.playerPlatform = storedPlatform u db g := by
    intro g hg
    obtain ⟨q, v, hv⟩ := hkey g hg
    obtain ⟨-, hstored⟩ := htidy.games g q v (hleaf (g :: q) ▸ hv)
    have hchild : PathTree.Same (snapshot.get g) (db.sub (gamesRef u ++ [g])) :=
      PathTree.same_of_leafAt fun q => by
        rw [PathTree.leafAt_child, hleaf, PathTree.leafAt_sub, List.append_assoc,
          List.singleton_append]
    obtain ⟨game, hgame, hname, hplatform⟩ := (hstored.congr hchild).decodes
    refine ⟨game, hgame, hname, hplatform.trans (Tree.asString_congr ?_)⟩
    rw [PathTree.leafAt_child, PathTree.leafAt_child, PathTree.leafAt_sub, hleaf]
    rfl
  constructor
  · intro game hgame
    simp only [fetchedGames] at hgame
    cases hdictionary : Tree.asDictionary snapshot with
    | none => simp [hdictionary] at hgame
    | some dictionary =>
      obtain rfl := Tree.asDictionary_eq_some hdictionary
      simp only [hdictionary, Option.map_some, Option.getD_some, gamesInDictionary] at hgame
      obtain ⟨g, hg, hdecode⟩ := List.mem_filterMap.mp hgame
      obtain ⟨game', hgame', hname, hplatform⟩ := hdecodes g hg
      obtain rfl := Option.some.inj (hgame'.symm.trans hdecode)
      exact ⟨hname ▸ hg, hname ▸ hplatform⟩
  · intro g hg
    obtain ⟨q, v, hv⟩ := hkey g hg
    obtain ⟨hint, -⟩ := htidy.games g q v (hleaf (g :: q) ▸ hv)
    obtain ⟨game, hgame, hname, -⟩ := hdecodes g hg
    refine ⟨game, ?_, hname⟩
    rw [fetchedGames, Game.asDictionary_of_leaf hv hint]
    exact List.mem_filterMap.mpr ⟨g, hg, hgame⟩

theorem represents_fetchedGames (htidy : Tidy catalogue u db)
    (hsame : PathTree.Same snapshot (db.sub (gamesRef u))) :
    Represents (fetchedGames snapshot) u db := by
  obtain ⟨hstored, hall⟩ := mem_fetchedGames htidy hsame
  intro g
  rw [platformOf]
  cases hfind : (fetchedGames snapshot).find? fun game => game.name == g with
  | some game =>
    obtain rfl : game.name = g := by simpa using List.find?_some hfind
    exact (hstored game (List.mem_of_find?_eq_some hfind)).2
  | none =>
    cases hplatform : storedPlatform u db g with
    | none => rfl
    | some platform =>
      have hleaf := Tree.asString_eq_some.mp hplatform
      rw [PathTree.leafAt_sub, List.append_nil, ← PathTree.leafAt_sub, ← hsame.leafAt] at hleaf
      obtain ⟨game, hgame, hname⟩ := hall g (PathTree.mem_keys.mpr
        (PathTree.has_of_leafAt (p := [g]) (q := ["playerPlatform"]) hleaf))
      have hne := List.find?_eq_none.mp hfind game hgame
      simp [hname] at hne

/-! ### Edits of the profile -/

theorem unchanged_storeField {field f : String} {value : Tree} (h : f ≠ field) :
    Unchanged (userRef u ++ [f]) db ((storeField u field value).apply db) := by
  intro q
  rw [List.append_assoc, List.singleton_append]
  exact Write.leafAt_update_other (by simpa using h) q

theorem unchanged_list_storeField {field : String} {value : Tree} (g : String) :
    Unchanged (lfgRef g) db ((storeField u field value).apply db) :=
  unchanged_of_beside (by simp [Incomparable, storeField, Write.ref])

theorem leafAt_storeField (field : String) (value : Tree) (q : Ref) :
    ((storeField u field value).apply db).leafAt (userRef u ++ field :: q) = value.leafAt q :=
  Write.leafAt_update_named (by simp) (by simp) q

theorem leafAt_storeField_other {field f : String} {value : Tree} (h : f ≠ field) :
    ((storeField u field value).apply db).leafAt (userRef u ++ [f]) =
      db.leafAt (userRef u ++ [f]) := by
  have hother : Unchanged (userRef u ++ [f]) db ((storeField u field value).apply db) :=
    unchanged_storeField h
  have hleaf := hother []
  rwa [List.append_nil] at hleaf

/-- A field with a string: the fields of the profile as they are stored. -/
theorem leafAt_storeString (field content f : String) :
    (((storeField u field (Tree.str content)).apply db).sub (userRef u)).leafAt [f] =
      if f = field then some (.str content) else (db.sub (userRef u)).leafAt [f] := by
  rw [PathTree.leafAt_sub, PathTree.leafAt_sub]
  split
  · rename_i h
    subst h
    exact leafAt_storeField f (Tree.str content) []
  · rename_i h
    exact leafAt_storeField_other h

/-- Storing a field that is not the games keeps the database tidy if the record decodes. -/
theorem Tidy.storeField (h : Tidy catalogue u db) {field : String} (hfield : field ≠ "games")
    {value : Tree} (hprofile : ∃ user : User,
      user.Stored (((TeamUp.storeField u field value).apply db).sub (userRef u))) :
    Tidy catalogue u ((TeamUp.storeField u field value).apply db) := by
  have hgames : Unchanged (gamesRef u) db ((TeamUp.storeField u field value).apply db) :=
    unchanged_storeField hfield.symm
  refine ⟨hprofile, fun g q v hleaf => ?_, fun game hgame k k' => ?_, fun game hgame k => ?_⟩
  · rw [hgames] at hleaf
    obtain ⟨hint, hstored⟩ := h.games g q v hleaf
    exact ⟨hint, hstored.congr (hgames.below [g]).same⟩
  · rw [(unchanged_list_storeField _).listed, (unchanged_list_storeField _).listed]
    exact h.single game hgame k k'
  · rw [(unchanged_list_storeField _).listed]
    exact h.keys game hgame k

/-- What an edit of a single field stores. -/
def profileEdit : Op → Option (String × String)
  | .updateBio bio => some ("biography", bio)
  | .editRegion region => some ("region", region.rawValue)
  | .editMicStatus status => some ("mic", status.rawValue)
  | .setProfilePicture imageUrl => some ("profilePicUrl", imageUrl)
  | _ => none

theorem begin_profileEdit {client : Session} {op : Op} {id field content : String}
    (h : profileEdit op = some (field, content)) :
    begin client op id = editProfile client.user field content ∧ field ≠ "games" := by
  cases op with
  | updateBio | editRegion | editMicStatus | setProfilePicture =>
    obtain ⟨rfl, rfl⟩ := Prod.mk.inj (Option.some.inj h)
    exact ⟨rfl, by decide⟩
  | _ => cases h

/-- After an edit of a field the record decodes again. -/
theorem stored_profileEdit {op : Op} {field content : String}
    (h : profileEdit op = some (field, content)) (huser : user.Stored (db.sub (userRef u))) :
    ∃ user' : User, user'.Stored
      (((storeField u field (Tree.str content)).apply db).sub (userRef u)) := by
  cases op with
  | updateBio bio =>
    obtain ⟨rfl, rfl⟩ := Prod.mk.inj (Option.some.inj h)
    refine ⟨{ user with bio }, ?_⟩
    constructor <;> simp [-PathTree.leafAt_sub, leafAt_storeString, huser.username, huser.mic,
      huser.profilePicUrl, huser.region]
  | editRegion region =>
    obtain ⟨rfl, rfl⟩ := Prod.mk.inj (Option.some.inj h)
    refine ⟨{ user with region }, ?_⟩
    constructor <;> simp [-PathTree.leafAt_sub, leafAt_storeString, huser.username, huser.mic,
      huser.profilePicUrl, huser.biography]
  | editMicStatus status =>
    obtain ⟨rfl, rfl⟩ := Prod.mk.inj (Option.some.inj h)
    refine ⟨{ user with mic := status }, ?_⟩
    constructor <;> simp [-PathTree.leafAt_sub, leafAt_storeString, huser.username, huser.region,
      huser.profilePicUrl, huser.biography]
  | setProfilePicture imageUrl =>
    obtain ⟨rfl, rfl⟩ := Prod.mk.inj (Option.some.inj h)
    refine ⟨{ user with profilePicUrl := imageUrl }, ?_⟩
    constructor <;> simp [-PathTree.leafAt_sub, leafAt_storeString, huser.username, huser.region,
      huser.mic, huser.biography]
  | _ => cases h

/-- Games that can be stored and read back: different names, each with a platform, and no
    name that Firebase takes for the index of an array. -/
structure Storable (games : List Game) : Prop where
  names : (games.map Game.name).Nodup
  keys : ∀ game ∈ games, Tree.integerKey game.name = none
  platforms : ∀ game ∈ games, ∃ p ∈ game.platforms, Tree.integerKey p = none

instance (games : List Game) : Decidable (Storable games) :=
  decidable_of_iff ((games.map Game.name).Nodup ∧
      (∀ game ∈ games, Tree.integerKey game.name = none) ∧
      ∀ game ∈ games, ∃ p ∈ game.platforms, Tree.integerKey p = none)
    ⟨fun h => ⟨h.1, h.2.1, h.2.2⟩, fun h => ⟨h.names, h.keys, h.platforms⟩⟩

theorem nodup_gameDictionary (game : Game) : ((gameDictionary game).map Prod.fst).Nodup := by
  unfold gameDictionary
  cases game.playerPlatform <;> simp [Dictionary.set]

/-- The leaves a game is stored with. -/
theorem leafAt_gameDictionary (game : Game) :
    (Tree.ofDictionary (gameDictionary game)).leafAt ["name"] = some (.str game.name) ∧
      (Tree.ofDictionary (gameDictionary game)).leafAt ["backgroundImageUrl"] =
        some (.str game.backgroundImageUrl) ∧
      (Tree.ofDictionary (gameDictionary game)).leafAt ["logoImageUrl"] =
        some (.str game.logoImageUrl) ∧
      (Tree.ofDictionary (gameDictionary game)).leafAt ["playerPlatform"] =
        game.playerPlatform.map .str ∧
      ∀ q, (Tree.ofDictionary (gameDictionary game)).leafAt ("platforms" :: q) =
        (Tree.ofDictionary (Dictionary.collect (fun platform => (platform, Tree.int 1))
          game.platforms)).leafAt q := by
  simp only [Tree.leafAt_ofDictionary (nodup_gameDictionary game)]
  unfold gameDictionary
  cases game.playerPlatform <;> simp [Dictionary.set, List.lookup_cons, Tree.str]

theorem stored_gameDictionary {game : Game} (h : ∃ p ∈ game.platforms, Tree.integerKey p = none) :
    Game.Stored game.name (Tree.ofDictionary (gameDictionary game)) := by
  obtain ⟨hname, hbackground, hlogo, -, hplatforms⟩ := leafAt_gameDictionary game
  obtain ⟨p, hp, hint⟩ := h
  refine ⟨hname, ⟨_, hbackground⟩, ⟨_, hlogo⟩, p, [], .int 1, ?_, hint⟩
  rw [hplatforms, Tree.leafAt_ofDictionary (Dictionary.nodup_collect _)]
  have hlookup : (Dictionary.collect (fun platform => (platform, Tree.int 1)) game.platforms).lookup
      p = some (Tree.int 1) :=
    Dictionary.lookup_collect (fun platform => (platform, Tree.int 1)) hp
      fun y _ hkey => Prod.ext hkey rfl
  rw [hlookup]
  rfl

/-- The games of an update, as they are stored. -/
theorem leafAt_gamesDictionary {games : List Game} (h : (games.map Game.name).Nodup) (g : String)
    (q : Ref) :
    (Tree.ofDictionary (gamesDictionary games)).leafAt (g :: q) =
      (games.find? fun game => game.name == g).bind fun game =>
        (Tree.ofDictionary (gameDictionary game)).leafAt q := by
  let entry : Game → String × Tree :=
    fun game => (game.name, Tree.ofDictionary (gameDictionary game))
  rw [gamesDictionary, Tree.leafAt_ofDictionary (Dictionary.nodup_collect _)]
  cases hfind : games.find? fun game => game.name == g with
  | some game =>
    obtain rfl : game.name = g := by simpa using List.find?_some hfind
    have hmem := List.mem_of_find?_eq_some hfind
    have hlookup : (Dictionary.collect entry games).lookup game.name =
        some (Tree.ofDictionary (gameDictionary game)) :=
      Dictionary.lookup_collect entry hmem fun y hy hname => by
        rw [List.inj_on_of_nodup_map h hy hmem hname]
    rw [hlookup]
    rfl
  | none =>
    have hlookup : (Dictionary.collect entry games).lookup g = none :=
      Dictionary.lookup_collect_none entry fun x hx => by
        simpa [entry] using List.find?_eq_none.mp hfind x hx
    rw [hlookup]
    rfl

/-- **Storable games are read back as they were given.** -/
theorem tidy_updateUserGames (htidy : Tidy catalogue u db) {games : List Game}
    (hgames : Storable games) :
    let db' := (storeField u "games" (Tree.ofDictionary (gamesDictionary games))).apply db
    Tidy catalogue u db' ∧ Represents games u db' := by
  intro db'
  have hleaf : ∀ g q, db'.leafAt (gamesRef u ++ g :: q) =
      (games.find? fun game => game.name == g).bind fun game =>
        (Tree.ofDictionary (gameDictionary game)).leafAt q := by
    intro g q
    rw [← leafAt_gamesDictionary hgames.names g q]
    exact leafAt_storeField "games" _ (g :: q)
  refine ⟨⟨?_, fun g q v hv => ?_, fun game hgame k k' => ?_, fun game hgame k => ?_⟩, fun g => ?_⟩
  · obtain ⟨user, huser⟩ := htidy.profile
    have hfield : ∀ f, f ≠ "games" →
        (db'.sub (userRef u)).leafAt [f] = (db.sub (userRef u)).leafAt [f] := by
      intro f hf
      rw [PathTree.leafAt_sub, PathTree.leafAt_sub]
      exact leafAt_storeField_other hf
    refine ⟨user, ?_⟩
    constructor <;> rw [hfield _ (by decide)]
    · exact huser.username
    · exact huser.biography
    · exact huser.mic
    · exact huser.profilePicUrl
    · exact huser.region
  · rw [hleaf] at hv
    obtain ⟨game, hfind, -⟩ := Option.bind_eq_some_iff.mp hv
    obtain rfl : game.name = g := by simpa using List.find?_some hfind
    have hmem := List.mem_of_find?_eq_some hfind
    refine ⟨hgames.keys game hmem, (stored_gameDictionary (hgames.platforms game hmem)).congr ?_⟩
    refine PathTree.same_of_leafAt fun q => ?_
    rw [PathTree.leafAt_sub, List.append_assoc, List.singleton_append, hleaf, hfind,
      Option.bind_some]
  · rw [(unchanged_list_storeField _).listed, (unchanged_list_storeField _).listed]
    exact htidy.single game hgame k k'
  · rw [(unchanged_list_storeField _).listed]
    exact htidy.keys game hgame k
  · have hplatform : (db'.sub (gamesRef u ++ [g, "playerPlatform"])).leafAt [] =
        (games.find? fun game => game.name == g).bind fun game => game.playerPlatform.map .str := by
      rw [PathTree.leafAt_sub, List.append_nil, hleaf]
      congr 1
      funext game
      exact (leafAt_gameDictionary game).2.2.2.1
    rw [platformOf, storedPlatform, Tree.asString, hplatform]
    cases games.find? fun game => game.name == g with
    | none => rfl
    | some game => cases hstored : game.playerPlatform <;> simp [hstored]

end TeamUp
