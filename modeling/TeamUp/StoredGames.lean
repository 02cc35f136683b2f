import TeamUp.Cleanup

/-!
# The stored games

`updateUserGames` stores a list of games as dictionaries: the games under their names, and in
each game the platforms as keys.  `fetchUsersGames` rebuilds the list from the keys, in the
order they are enumerated in.  Nothing is lost on the way, unless the names of all the games
are small integers: the node is then read as an array, and no game at all is found.
-/

namespace TeamUp

open Protocol

/-! ### One game -/

namespace Game

/-- A game built by `Game(dictionary:)`. -/
def Decoded (game : Game) : Prop := ∃ dictionary, ofDictionary dictionary = some game

/-- The same name, images and platform chosen, and the same platforms in some order. -/
structure SameAs (game game' : Game) : Prop where
  name : game'.name = game.name
  platforms : game'.platforms.Perm game.platforms
  backgroundImageUrl : game'.backgroundImageUrl = game.backgroundImageUrl
  logoImageUrl : game'.logoImageUrl = game.logoImageUrl
  playerPlatform : game'.playerPlatform = game.playerPlatform

variable {game : Game}

theorem Decoded.platforms (h : game.Decoded) :
    game.platforms.Nodup ∧ game.platforms ≠ [] ∧ Tree.indexes game.platforms = false := by
  obtain ⟨dictionary, h⟩ := h
  simp only [ofDictionary, Option.bind_eq_bind, Option.bind_eq_some_iff, Option.some.injEq] at h
  obtain ⟨name, -, platforms, hplatforms, background, -, logo, -, rfl⟩ := h
  exact ⟨List.nodup_dedup _, Tree.indexes_of_asDictionary hplatforms⟩

end Game

/-- The keys of a stored dictionary. -/
theorem keys_ofDictionary_collect {α : Type} (entry : α → String × Tree) (xs : List α)
    (hnodup : (xs.map fun x => (entry x).1).Nodup)
    (hstored : ∀ x ∈ xs, ∃ q v, (entry x).2.leafAt q = some v) {t : Tree}
    (hsame : ∀ k q, t.leafAt (k :: q) =
      (Tree.ofDictionary (Dictionary.collect entry xs)).leafAt (k :: q)) :
    t.keys.Perm (xs.map fun x => (entry x).1) := by
  refine (List.perm_ext_iff_of_nodup (List.nodup_dedup _) hnodup).mpr fun k => ?_
  rw [← PathTree.keys, PathTree.mem_keys, PathTree.has_iff_leafAt, List.mem_map]
  simp only [List.singleton_append, hsame]
  simp only [Tree.leafAt_ofDictionary (Dictionary.nodup_collect xs)]
  constructor
  · rintro ⟨q, hq⟩
    cases hlookup : (Dictionary.collect entry xs).lookup k with
    | none => simp [hlookup] at hq
    | some value =>
      obtain ⟨l₁, l₂, hsplit, -⟩ := List.lookup_eq_some_iff.mp hlookup
      obtain ⟨x, hx, hentry⟩ := Dictionary.mem_of_mem_collect (e := (k, value))
        (mem_of_split hsplit)
      exact ⟨x, hx, (congrArg Prod.fst hentry).symm⟩
  · rintro ⟨x, hx, rfl⟩
    obtain ⟨q, v, hleaf⟩ := hstored x hx
    have hlookup := Dictionary.lookup_collect entry hx fun y hy hkey => by
      rw [List.inj_on_of_nodup_map hnodup hy hx hkey]
    exact ⟨q, by simp [hlookup, hleaf]⟩

/-- **A stored game is read back.** -/
theorem decodes_gameDictionary {game : Game} (hdecoded : game.Decoded) {t : Tree}
    (hsame : PathTree.Same t (Tree.ofDictionary (gameDictionary game))) :
    ∃ game', t.asDictionary.bind Game.ofDictionary = some game' ∧ game.SameAs game' := by
  obtain ⟨hname, hbackground, hlogo, hplatform, hplatforms⟩ := leafAt_gameDictionary game
  obtain ⟨hnodup, hne, hindexes⟩ := hdecoded.platforms
  have hstring : ∀ {key value}, (Tree.ofDictionary (gameDictionary game)).leafAt [key] =
      some (.str value) → (t.get key).asString = some value := by
    intro key value hleaf
    rw [Tree.asString_eq_some, PathTree.leafAt_child, hsame.leafAt]
    exact hleaf
  have hkeys : (t.get "platforms").keys.Perm game.platforms := by
    have hperm := keys_ofDictionary_collect (t := t.get "platforms")
      (fun platform => (platform, Tree.int 1)) game.platforms
      (by simpa using hnodup) (fun _ _ => ⟨[], .int 1, rfl⟩) fun k q => by
        rw [PathTree.leafAt_child, hsame.leafAt, hplatforms]
    simpa using hperm
  have hroot : (t.get "platforms").leafAt [] = none := by
    rw [PathTree.leafAt_child, hsame.leafAt, hplatforms]
    exact Tree.leafAt_ofDictionary_nil _
  have hcast := Tree.asDictionary_of_names hroot hkeys hne hindexes
  have hchosen : (t.get "playerPlatform").asString = game.playerPlatform := by
    unfold Tree.asString
    rw [PathTree.leafAt_child, hsame.leafAt, hplatform]
    cases game.playerPlatform <;> rfl
  have hdictionary : t.asDictionary = some t :=
    Game.asDictionary_of_leaf ((hsame.leafAt _).trans hname) (by decide)
  refine ⟨⟨game.name, (t.get "platforms").keys, game.backgroundImageUrl, game.logoImageUrl,
    game.playerPlatform⟩, ?_, ⟨rfl, hkeys, rfl, rfl, rfl⟩⟩
  rw [hdictionary, Option.bind_some]
  simp [Game.ofDictionary, hstring hname, hstring hbackground, hstring hlogo, hcast, hchosen]

/-! ### The list of games -/

def SameGames (games found : List Game) : Prop :=
  ∃ found', found'.Perm found ∧ List.Forall₂ Game.SameAs games found'

variable {games : List Game} {u : String} {snapshot : Tree}

/-- Games that decode under their names are found, in some order. -/
theorem sameGames_filterMap {decode : String → Option Game} {keys : List String}
    (hkeys : keys.Perm (games.map Game.name))
    (hdecode : ∀ game ∈ games, ∃ game', decode game.name = some game' ∧ game.SameAs game') :
    SameGames games (keys.filterMap decode) := by
  refine ⟨_, (hkeys.filterMap decode).symm, ?_⟩
  rw [List.filterMap_map]
  clear hkeys
  induction games with
  | nil => exact .nil
  | cons game rest ih =>
    obtain ⟨game', hgame', hsame⟩ := hdecode game List.mem_cons_self
    rw [List.filterMap_cons_some (f := decode ∘ Game.name) hgame']
    exact .cons hsame (ih fun g hg => hdecode g (List.mem_cons_of_mem game hg))

/-- **The games that are read** from the stored ones are the same exactly if the names are not
    read as the indexes of an array. -/
theorem sameGames_fetchedGames (hdistinct : (games.map Game.name).Nodup)
    (hdecoded : ∀ game ∈ games, game.Decoded)
    (hsame : PathTree.Same snapshot (Tree.ofDictionary (gamesDictionary games))) :
    SameGames games (fetchedGames snapshot) ↔ Tree.indexes (games.map Game.name) = false := by
  have hkeys : snapshot.keys.Perm (games.map Game.name) :=
    keys_ofDictionary_collect (fun game =>
        (game.name, Tree.ofDictionary (gameDictionary game))) games hdistinct
      (fun game _ => ⟨_, _, (leafAt_gameDictionary game).1⟩) fun k q => hsame.leafAt (k :: q)
  constructor
  · rintro ⟨found, hperm, hall⟩
    refine Bool.eq_false_iff.mpr fun hindexes => ?_
    have hcast := Tree.asDictionary_of_indexes hkeys hindexes
    rw [fetchedGames, hcast] at hperm
    obtain rfl : found = [] := hperm.eq_nil
    obtain rfl : games = [] := List.forall₂_nil_right_iff.mp hall
    cases hindexes
  · intro hindexes
    by_cases hempty : games = []
    · subst hempty
      have hnone : snapshot.asDictionary = none := by
        cases hcast : snapshot.asDictionary with
        | none => rfl
        | some dictionary =>
          obtain rfl := Tree.asDictionary_eq_some hcast
          exact ((Tree.indexes_of_asDictionary hcast).1 hkeys.eq_nil).elim
      rw [fetchedGames, hnone]
      exact ⟨[], .refl _, .nil⟩
    · have hroot : snapshot.leafAt [] = none :=
        (hsame.leafAt []).trans (Tree.leafAt_ofDictionary_nil _)
      have hne : games.map Game.name ≠ [] := by simpa using hempty
      rw [fetchedGames, Tree.asDictionary_of_names hroot hkeys hne hindexes]
      refine sameGames_filterMap hkeys fun game hgame => ?_
      refine decodes_gameDictionary (hdecoded game hgame) (PathTree.same_of_leafAt fun q => ?_)
      have hfind : games.find? (fun g => g.name == game.name) = some game := by
        cases hfind : games.find? fun g => g.name == game.name with
        | none => simpa using List.find?_eq_none.mp hfind game hgame
        | some g =>
          have hname : g.name = game.name := by simpa using List.find?_some hfind
          rw [List.inj_on_of_nodup_map hdistinct (List.mem_of_find?_eq_some hfind) hgame hname]
      rw [PathTree.leafAt_child, hsame.leafAt, leafAt_gamesDictionary hdistinct, hfind]
      rfl

/-! ### Storing and reading -/

variable {catalogue : List Game} {client : Session} {db : Tree} {ids : List String} {t : State}

abbrev gamesStored (u : String) (games : List Game) (db : Tree) : Tree :=
  (storeField u "games" (Tree.ofDictionary (gamesDictionary games))).apply db

/-- The state in which a session has asked for its games to be replaced. -/
abbrev gamesBegun (client : Session) (games : List Game) (db : Tree) (ids : List String)
    (id : String) : State :=
  (State.initial db ids).issue client id (updateUserGames client.user games)

/-- The lists are renewed as if the games had been stored before. -/
theorem renewing_gamesBegun (client : Session) (games : List Game) (db : Tree)
    (ids : List String) (id : String) :
    Renewing catalogue client games (gamesStored client.user games db) ids
      (gamesBegun client games db ids id) := by
  have hflush : (app catalogue).flush (gamesBegun client games db ids id) =
      gamesStored client.user games db := rfl
  have hcalls : ∀ c ∈ (gamesBegun client games db ids id).calls,
      c = ⟨client, .value (userRef client.user), .updateUserLFG client.user games⟩ := by
    intro c hc
    exact List.mem_singleton.mp hc
  refine ⟨⟨fun e he => ?_, fun c hc => ?_, fun a ha => (by cases ha)⟩,
    ⟨fun e he => trivial, fun c hc => ?_, fun a ha => (by cases ha)⟩,
    List.subset_cons_self id ids, fun _ _ _ _ => ?_, fun _ _ => ?_, fun a ha => (by cases ha),
    fun a ha => (by cases ha)⟩
  · rw [List.mem_singleton.mp he]
  · rw [hcalls c hc]
  · rw [hcalls c hc]
    exact .user
  · exact fun _ => rfl
  · exact fun _ => rfl

/-- A state of an undisturbed run of `updateUserGames` on a database. -/
def StoringAlone (catalogue : List Game) (client : Session) (games : List Game) (db : Tree)
    (t : State) : Prop :=
  ∃ ids id events, (app catalogue).Run (fun s e => undisturbed e = true ∧ InOrder s e)
    (gamesBegun client games db ids id) events t

theorem StoringAlone.renewing (h : StoringAlone catalogue client games db t) :
    ∃ ids, Renewing catalogue client games (gamesStored client.user games db) ids t := by
  obtain ⟨ids, id, events, run⟩ := h
  exact ⟨ids, run.invariant _ (fun s e v hr hok hst => hr.step hok.1 hok.2 hst)
    (renewing_gamesBegun client games db ids id)⟩

/-- **What is stored is read back**, whatever was stored before, by the session itself at any
    moment and by every other one once nothing is outstanding: up to order the same games,
    exactly if their names are not read as the indexes of an array. -/
theorem games_readBack {reader : Session} (hdistinct : (games.map Game.name).Nodup)
    (hdecoded : ∀ game ∈ games, game.Decoded) (h : StoringAlone catalogue client games db t)
    (hreader : reader = client ∨ t.outstanding = [])
    (hanswer : (Query.value (gamesRef client.user)).answers ((app catalogue).view t reader)
      snapshot = true) :
    SameGames games (fetchedGames snapshot) ↔ Tree.indexes (games.map Game.name) = false := by
  obtain ⟨ids, hrenewing⟩ := h.renewing
  have hview : (app catalogue).view t reader = (app catalogue).flush t := by
    rcases hreader with rfl | hout
    · exact view_eq_flush hrenewing.active.writes
    · simp [Protocol.view, Protocol.flush, hout]
  have hread : PathTree.Same snapshot (((app catalogue).flush t).sub (gamesRef client.user)) :=
    of_decide_eq_true (hview ▸ hanswer)
  refine sameGames_fetchedGames hdistinct hdecoded (PathTree.same_of_leafAt fun q => ?_)
  have hkept := hrenewing.elsewhere (gamesRef client.user) fun game _ => by simp [Incomparable]
  rw [hread.leafAt, PathTree.leafAt_sub, hkept q]
  exact leafAt_storeField "games" _ q

theorem decoded_chess : chess.Decoded :=
  ⟨Tree.ofDictionary (gameDictionary chess), by decide +kernel⟩

theorem games_readBack_chess :
    SameGames [chess] (fetchedGames (Tree.ofDictionary (gamesDictionary [chess]))) ↔
      Tree.indexes ([chess].map Game.name) = false := by
  let begun := gamesBegun ⟨"alice1", 1⟩ [chess] chessPlayer [] "-1"
  have hstoring : StoringAlone [chess] ⟨"alice1", 1⟩ [chess] chessPlayer begun :=
    ⟨[], "-1", [], .nil⟩
  have hanswer : (Query.value (gamesRef "alice1")).answers ((app [chess]).view begun ⟨"alice1", 1⟩)
      (Tree.ofDictionary (gamesDictionary [chess])) = true := by
    decide +kernel
  exact games_readBack (by decide) (by simpa using decoded_chess) hstoring (Or.inl rfl) hanswer

/-- A game whose name is an index. -/
def zero : Game := { chess with name := "0" }

/-- Its only name makes the node an array, and no game is read. -/
theorem not_always_readBack : ¬ ∀ (catalogue games : List Game) (client reader : Session)
    (db snapshot : Tree) (t : State), (games.map Game.name).Nodup →
    (∀ game ∈ games, game.Decoded) → StoringAlone catalogue client games db t →
    (reader = client ∨ t.outstanding = []) →
    (Query.value (gamesRef client.user)).answers ((app catalogue).view t reader) snapshot = true →
    SameGames games (fetchedGames snapshot) := by
  intro hall
  have hdecoded : zero.Decoded := ⟨Tree.ofDictionary (gameDictionary zero), by decide +kernel⟩
  obtain ⟨found, hperm, hsame⟩ := hall [] [zero] ⟨"alice1", 1⟩ ⟨"alice1", 1⟩ newcomer
    (Tree.ofDictionary (gamesDictionary [zero]))
    (gamesBegun ⟨"alice1", 1⟩ [zero] newcomer [] "-1") (by decide) (by simpa using hdecoded)
    ⟨[], "-1", [], .nil⟩ (Or.inl rfl) (by decide +kernel)
  have hnone : fetchedGames (Tree.ofDictionary (gamesDictionary [zero])) = [] := by
    decide +kernel
  rw [hnone] at hperm
  rw [hperm.eq_nil] at hsame
  cases hsame

end TeamUp
