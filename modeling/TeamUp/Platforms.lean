import TeamUp.OnlineEntries
import TeamUp.StoredGames

/-!
# One platform for each game

`updateUserGames` reduces its list to one platform for each game twice: the record keeps the
last game of a name, since each one replaces the entry of the dictionary, and the listing
takes the first, since `firstIndex(of:)` compares names.  A list that names a game twice
stores one platform and lists the other.
-/

namespace TeamUp

open Protocol

variable {catalogue games : List Game} {client : Session} {u g : String} {list : Ref}
variable {db db' snapshot snapshot' : Tree} {ids : List String} {s t : State}

/-- The user has one entry in the list of the game, with the platform stored with the game, or
    none if no platform is stored. -/
abbrev PlatformsAgree (u : String) (db : Tree) (g : String) : Prop :=
  ListedWith (storedPlatform u db g) u g db

theorem platformsAgree_congr (hgames : Unchanged (gamesRef u) db db')
    (hlist : Unchanged (lfgRef g) db db') : PlatformsAgree u db' g ↔ PlatformsAgree u db g := by
  simp only [PlatformsAgree, ListedWith, hgames.storedPlatform, hlist.listed, hlist _]

/-! ### Lists that are not touched -/

theorem firstKey_eq_none (hroot : snapshot.leafAt [] = none) :
    firstKey snapshot = none ↔ snapshot.keys = [] ∨ Tree.indexes snapshot.keys = true := by
  by_cases hkeys : snapshot.keys = []
  · refine iff_of_true ?_ (Or.inl hkeys)
    cases hcast : Tree.asDictionary snapshot with
    | none => simp [firstKey, hcast]
    | some dictionary =>
      obtain rfl := Tree.asDictionary_eq_some hcast
      exact ((Tree.indexes_of_asDictionary hcast).1 hkeys).elim
  · cases hindexes : Tree.indexes snapshot.keys with
    | true =>
      have hcast := Tree.asDictionary_of_indexes (List.Perm.refl _) hindexes
      simp [firstKey, hcast]
    | false =>
      have hcast := Tree.asDictionary_of_names hroot (List.Perm.refl _) hkeys hindexes
      simp [firstKey, hcast, hkeys]

/-- Whether a first key is found depends on the entries of the user alone. -/
theorem firstKey_none_congr (h : (Query.equal list "username" u).answers db snapshot = true)
    (h' : (Query.equal list "username" u).answers db' snapshot' = true)
    (hlisted : ∀ k, Listed list u db' k ↔ Listed list u db k)
    (hnone : firstKey snapshot = none) : firstKey snapshot' = none := by
  have hroot : ∀ {db snapshot}, (Query.equal list "username" u).answers db snapshot = true →
      snapshot.leafAt [] = none := by
    intro db snapshot hanswers
    have hsame : PathTree.Same snapshot ((Query.equal list "username" u).snapshot db) :=
      of_decide_eq_true hanswers
    exact (hsame.leafAt []).trans (PathTree.leafAt_filterKeys_nil _ _)
  have hkeys : snapshot'.keys.Perm snapshot.keys := by
    refine (List.perm_ext_iff_of_nodup (List.nodup_dedup _) (List.nodup_dedup _)).mpr fun k => ?_
    rw [← PathTree.keys, ← PathTree.keys, mem_keys_answer h', mem_keys_answer h, hlisted]
  rw [firstKey_eq_none (hroot h')]
  rcases (firstKey_eq_none (hroot h)).mp hnone with hempty | hindexes
  · exact Or.inl (List.perm_nil.mp (hempty ▸ hkeys))
  · exact Or.inr ((Tree.indexes_perm hkeys).trans hindexes)

/-- No entry has been found in the list, so it is as it was. -/
structure Ignored (catalogue games : List Game) (g : String) (db : Tree) (s : State) : Prop where
  list : Unchanged (lfgRef g) db ((app catalogue).flush s)
  found : ∀ a ∈ s.answers, ∀ game lfgDictionary,
    a.callback = .updateGameLFG game games lfgDictionary → game.name = g →
      firstKey a.response = none

theorem Ignored.step (h : Ignored catalogue games g db s)
    (hrenewing : Renewing catalogue client games db ids s) (hplatform : platformOf games g = none)
    (hnone : foundKey client.user g db = none) {e : Event} (hquiet : undisturbed e = true)
    (horder : InOrder s e) (hst : (app catalogue).step s e = some t) :
    Ignored catalogue games g db t := by
  cases quiet_of_undisturbed hrenewing.active hquiet horder hst with
  | kept hflush hcalls hanswers => exact ⟨hflush ▸ h.list, hanswers ▸ h.found⟩
  | served before c after response hasked hanswer hflush hcalls hanswers =>
    have hc : c ∈ s.calls := mem_of_split hasked
    have hrenewal := hrenewing.issued.calls c hc
    have hanswer : c.request.answers ((app catalogue).flush s) response = true := hanswer
    refine ⟨hflush ▸ h.list, fun a ha => ?_⟩
    rw [hanswers] at ha
    rcases List.mem_append.mp ha with hold | hnew
    · exact h.found a hold
    · obtain rfl := List.mem_singleton.mp hnew
      intro game lfgDictionary hcallback hname
      dsimp only at hcallback
      rw [hcallback] at hrenewal
      generalize c.request = request at hrenewal hanswer
      cases hrenewal with
      | list hgame user =>
        subst hname
        exact firstKey_none_congr (decide_eq_true (PathTree.Same.refl _)) hanswer h.list.listed
          hnone
  | resumed before a after id hanswered hmintable hfresh hflush hcalls hanswers =>
    have ha : a ∈ s.answers := mem_of_split hanswered
    have hrest : before ++ after ⊆ s.answers := rest_of_split hanswered
    refine ⟨?_, fun a' ha' => h.found a' (hrest (hanswers ▸ ha'))⟩
    rw [hflush]
    refine h.list.trans (unchanged_applied catalogue fun w hw => ?_)
    have hrenewal := hrenewing.issued.answers a ha
    have hfound := h.found a ha
    obtain ⟨answering, request, callback, response⟩ := a
    dsimp only at hrenewal hfound hw
    cases hrenewal with
    | user =>
      have hwrites := (handsOn_updateUserLFG catalogue client.user db games response).writes
      rw [app_resume, resume_updateUserLFG, hwrites] at hw
      cases hw
    | @list game hgame user =>
      rw [app_resume, resume_updateGameLFG] at hw
      by_cases hname : game.name = g
      · -- nothing was found and nothing is to be listed, so nothing is written
        rw [writes_updateGameLFGRead, hname, hplatform, hfound game _ rfl hname] at hw
        cases hw
      · rw [ref_updateGameLFGRead hw]
        simp [Incomparable, hname, Ne.symm hname]

/-! ### The two platforms of a game -/

theorem ListedWith.unique {platform platform' : Option String} (h : ListedWith platform u g db)
    (h' : ListedWith platform' u g db) : platform = platform' := by
  cases platform with
  | none =>
    cases platform' with
    | none => rfl
    | some platform' =>
      obtain ⟨k, hone, -⟩ := h'
      exact (h k ((hone k).mpr rfl)).elim
  | some platform =>
    obtain ⟨k, hone, hleaf⟩ := h
    cases platform' with
    | none => exact (h' k ((hone k).mpr rfl)).elim
    | some platform' =>
      obtain ⟨k', hone', hleaf'⟩ := h'
      obtain rfl := (hone' k).mp ((hone k).mpr rfl)
      exact congrArg some (Leaf.str.inj (Option.some.inj (hleaf.symm.trans hleaf')))

/-- The list of a game will have the platform that is stored.  Either it can be repaired, and
    the first game of that name has the platform of the last one; or it is left alone, and
    has the platform already. -/
def WillAgree (catalogue games : List Game) (u g : String) (stored : Tree) : Prop :=
  RepairableList catalogue games u g stored ∧ platformOf games g = lastPlatform games g ∨
    platformOf games g = none ∧ foundKey u g stored = none ∧ PlatformsAgree u stored g

/-- Every list of a game that is stored will have its platform.  If the record of the user
    cannot be read, no list is renewed. -/
def Matching (catalogue games : List Game) (u : String) (stored : Tree) : Prop :=
  ∀ game ∈ catalogue, (∃ g ∈ games, g.name = game.name) →
    if (fetchedUser (stored.sub (userRef u))).isSome then
      WillAgree catalogue games u game.name stored
    else PlatformsAgree u stored game.name

section Run

variable {events : List Event} {id : String}
variable (run : (app catalogue).Run (fun s e => undisturbed e = true ∧ InOrder s e)
  (gamesBegun client games db ids id) events t)
include run

theorem unchanged_of_run (hrest : t.Quiescent) :
    Unchanged (gamesRef client.user) (gamesStored client.user games db) t.store := by
  obtain ⟨ids, hrenewing⟩ := StoringAlone.renewing ⟨ids, id, events, run⟩
  have hkept := hrenewing.elsewhere (gamesRef client.user) fun game _ => by simp [Incomparable]
  rwa [flush_of_quiescent hrest] at hkept

theorem storedPlatform_of_run (hrest : t.Quiescent) (g : String) :
    storedPlatform client.user t.store g = lastPlatform games g := by
  rw [(unchanged_of_run run hrest).storedPlatform, storedPlatform_updateUserGames]

theorem store_of_run_unread (hrest : t.Quiescent) (hread : (fetchedUser
    ((gamesStored client.user games db).sub (userRef client.user))).isSome = false) :
    t.store = gamesStored client.user games db := by
  have hunread : Unread catalogue client games (gamesStored client.user games db)
      (gamesBegun client games db ids id) :=
    ⟨rfl, fun c hc => by rw [List.mem_singleton.mp hc], fun a ha => by cases ha⟩
  refine store_of_unread ?_ (renewing_gamesBegun client games db ids id) hunread run hrest
  simpa using hread

/-- A list that can be repaired gets the platform of the first game. -/
theorem listedWith_of_run (hrest : t.Quiescent) {game : Game} (hgame : game ∈ catalogue)
    (hread : (fetchedUser
      ((gamesStored client.user games db).sub (userRef client.user))).isSome = true)
    (hlist : RepairableList catalogue games client.user game.name
      (gamesStored client.user games db)) :
    ListedWith (platformOf games game.name) client.user game.name t.store := by
  have hrounds : rounds catalogue game.name (gamesBegun client games db ids id) =
      catalogue.countP fun other => decide (other.name = game.name) := rfl
  exact listedWith_of_inHand (inHand_of_run hgame hread hlist
    (renewing_gamesBegun client games db ids id) ⟨rfl, rfl, hrounds⟩ run hrest)

/-- A list in which no entry is found, and none is to be, agrees if it did before. -/
theorem platformsAgree_of_ignored (hrest : t.Quiescent) (hplatform : platformOf games g = none)
    (hnone : foundKey client.user g (gamesStored client.user games db) = none) :
    PlatformsAgree client.user t.store g ↔
      PlatformsAgree client.user (gamesStored client.user games db) g := by
  have hstart : Ignored catalogue games g (gamesStored client.user games db)
      (gamesBegun client games db ids id) := ⟨fun _ => rfl, fun a ha => by cases ha⟩
  obtain ⟨-, hignored⟩ := run.invariant
    (fun v => Renewing catalogue client games (gamesStored client.user games db) ids v ∧
      Ignored catalogue games g (gamesStored client.user games db) v)
    (fun _ _ _ hv hok hst => ⟨hv.1.step hok.1 hok.2 hst,
      hv.2.step hv.1 hplatform hnone hok.1 hok.2 hst⟩)
    ⟨renewing_gamesBegun client games db ids id, hstart⟩
  have hlist := hignored.list
  rw [flush_of_quiescent hrest] at hlist
  exact platformsAgree_congr (unchanged_of_run run hrest) hlist

end Run

/-- A run of the call begins like this; the lists are then renewed on what is stored. -/
theorem run_stored (catalogue : List Game) (client : Session) (games : List Game) (db : Tree)
    (used : List String) :
    (app catalogue).Run (fun s e => undisturbed e = true ∧ InOrder s e)
      (gamesBegun client games db used "") [.deliver 0]
      (renewalBegun client games (gamesStored client.user games db) used "") :=
  .snoc .nil ⟨rfl, fun _ _ e' he' => by cases he'⟩ rfl

/-- An entry that is the only one and is not found. -/
theorem foundKey_of_not_single
    (honly : ∀ k k', Listed (lfgRef g) u db k → Listed (lfgRef g) u db k' → k' = k)
    (h : ¬ Single (lfgRef g) u db) : foundKey u g db = none := by
  have hanswers : (Query.equal (lfgRef g) "username" u).answers db
      ((Query.equal (lfgRef g) "username" u).snapshot db) = true :=
    decide_eq_true (PathTree.Same.refl _)
  cases hfirst : foundKey u g db with
  | none => rfl
  | some k =>
    refine (h ((single_iff hanswers).mpr fun k' hk' => ?_)).elim
    rw [honly k k' (listed_of_firstKey hanswers hfirst) hk']
    exact hfirst

theorem matching_of_agree
    (honly : ∀ game ∈ catalogue, ∀ k k', Listed (lfgRef game.name) client.user db k →
      Listed (lfgRef game.name) client.user db k' → k' = k)
    (h : ∀ t, EndsAlone catalogue client (updateUserGames client.user games) db t →
      ∀ game ∈ catalogue, (∃ g ∈ games, g.name = game.name) →
        PlatformsAgree client.user t.store game.name) :
    Matching catalogue games client.user (gamesStored client.user games db) := by
  intro game hgame hstored
  let stored := gamesStored client.user games db
  let used := usedKeys db ++ usedKeys stored
  have hused : ∀ list k, db.has (list ++ [k]) = true → k ∈ used :=
    fun list k hk => List.mem_append_left _ (mem_usedKeys db list k hk)
  have honlyStored : ∀ game ∈ catalogue, ∀ k k', Listed (lfgRef game.name) client.user stored k →
      Listed (lfgRef game.name) client.user stored k' → k' = k := by
    intro game hgame k k'
    rw [(unchanged_list_storeField _).listed, (unchanged_list_storeField _).listed]
    exact honly game hgame k k'
  split_ifs with hread
  · obtain ⟨user, huser⟩ := Option.isSome_iff_exists.mp hread
    obtain ⟨t, events, newIds, run, hrest, hlength, hnodup, hnew, hstore⟩ :=
      exists_undisturbed catalogue client games huser
        (List.subset_append_right (usedKeys db) (usedKeys stored))
    have hrun := (run_stored catalogue client games db used).append run
    have hagree := h t ⟨used, "", _, hused, hrun, hrest⟩ game hgame hstored
    rw [PlatformsAgree, storedPlatform_of_run hrun hrest] at hagree
    have hrepaired : RepairableList catalogue games client.user game.name stored →
        WillAgree catalogue games client.user game.name stored := fun hlist =>
      Or.inl ⟨hlist, (listedWith_of_run hrun hrest hgame hread hlist).unique hagree⟩
    cases hplatform : platformOf games game.name with
    | some platform =>
      -- an entry has been written, so the list is not empty
      obtain ⟨x, hx, hname⟩ := renewal_of_mem hgame hlength
      have hentry : Listed (lfgRef game.name) client.user t.store
          ((foundKey client.user game.name stored).getD x.2) := by
        have hlisted := listed_renewAll catalogue games client.user user stored
          (catalogue.zip newIds) stored game.name
        simp only [hplatform] at hlisted
        rw [hstore]
        exact (hlisted _).mpr (Or.inr ⟨x, hx, hname, rfl⟩)
      have hone : ∃ k, ∀ k', Listed (lfgRef game.name) client.user t.store k' ↔ k' = k := by
        cases hlast : lastPlatform games game.name with
        | some last =>
          rw [hlast] at hagree
          obtain ⟨k, hone, -⟩ := hagree
          exact ⟨k, hone⟩
        | none =>
          rw [hlast] at hagree
          exact (hagree _ hentry).elim
      rw [hstore] at hone
      have hlist := repairable_of_renewAll games client.user user hgame hlength
        hnodup hnew (by rw [hplatform]; exact hone)
      exact hrepaired hlist
    | none =>
      by_cases hsingle : Single (lfgRef game.name) client.user stored
      · exact hrepaired ⟨hsingle, fun hsome => (hsome hplatform).elim⟩
      · -- the only entry cannot be read, so it is left alone
        have hnone := foundKey_of_not_single (honlyStored game hgame) hsingle
        rw [← storedPlatform_of_run hrun hrest] at hagree
        exact Or.inr ⟨hplatform, hnone,
          (platformsAgree_of_ignored hrun hrest hplatform hnone).mp hagree⟩
  · obtain ⟨t, events, run, hrest⟩ := exists_unread catalogue client games used
      (by simpa using hread)
    have hrun := (run_stored catalogue client games db used).append run
    have hagree := h t ⟨used, "", _, hused, hrun, hrest⟩ game hgame hstored
    rwa [store_of_run_unread hrun hrest (by simpa using hread)] at hagree

theorem agree_of_matching
    (hmatching : Matching catalogue games client.user (gamesStored client.user games db))
    (h : EndsAlone catalogue client (updateUserGames client.user games) db t) {game : Game}
    (hgame : game ∈ catalogue) (hstored : ∃ g ∈ games, g.name = game.name) :
    PlatformsAgree client.user t.store game.name := by
  obtain ⟨ids, id, events, -, run, hrest⟩ := h
  have hwill := hmatching game hgame hstored
  split_ifs at hwill with hread
  · rcases hwill with ⟨hlist, hsame⟩ | ⟨hplatform, hnone, hagree⟩
    · rw [PlatformsAgree, storedPlatform_of_run run hrest, ← hsame]
      exact listedWith_of_run run hrest hgame hread hlist
    · exact (platformsAgree_of_ignored run hrest hplatform hnone).mpr hagree
  · rw [store_of_run_unread run hrest (by simpa using hread)]
    exact hwill

/-- **The platforms that are stored and listed agree** after every undisturbed call, for each
    game of the catalogue that was given, exactly if the first and the last game of its name
    have the same platform, and its list can be repaired (or is left alone and agrees already). -/
theorem platforms_match
    (honly : ∀ game ∈ catalogue, ∀ k k', Listed (lfgRef game.name) client.user db k →
      Listed (lfgRef game.name) client.user db k' → k' = k) :
    (∀ t, EndsAlone catalogue client (updateUserGames client.user games) db t →
      ∀ game ∈ catalogue, (∃ g ∈ games, g.name = game.name) →
        PlatformsAgree client.user t.store game.name) ↔
      Matching catalogue games client.user (gamesStored client.user games db) :=
  ⟨matching_of_agree honly, fun hmatching _ h _ hgame hstored =>
    agree_of_matching hmatching h hgame hstored⟩

/-- The session alice stores her games with. -/
def alicesSession : Session := ⟨"alice1", 1⟩

theorem platforms_match_newcomer :
    (∀ t, EndsAlone [chess] alicesSession (updateUserGames alicesSession.user [chess]) newcomer t →
      ∀ game ∈ [chess], (∃ g ∈ [chess], g.name = game.name) →
        PlatformsAgree alicesSession.user t.store game.name) ↔
      Matching [chess] [chess] alicesSession.user
        (gamesStored alicesSession.user [chess] newcomer) := by
  have honly : ∀ game ∈ [chess], ∀ k k', Listed (lfgRef game.name) alicesSession.user newcomer k →
      Listed (lfgRef game.name) alicesSession.user newcomer k' → k' = k :=
    fun game _ k _ hk => (unlisted_newcomer game.name k hk).elim
  exact platforms_match honly

/-- Chess, played on one of two platforms. -/
def chessOn (platform : String) : Game :=
  { chess with platforms := ["PC", "Mobile"], playerPlatform := some platform }

/-- Chess is given twice: the record keeps one platform, the list the other. -/
theorem not_always_match : ¬ ∀ (catalogue games : List Game) (client : Session) (db : Tree),
    (∀ game ∈ catalogue, ∀ k k', Listed (lfgRef game.name) client.user db k →
      Listed (lfgRef game.name) client.user db k' → k' = k) →
    ∀ t, EndsAlone catalogue client (updateUserGames client.user games) db t →
      ∀ game ∈ catalogue, (∃ g ∈ games, g.name = game.name) →
        PlatformsAgree client.user t.store game.name := by
  intro hall
  have honly : ∀ game ∈ [chess], ∀ k k', Listed (lfgRef game.name) alicesSession.user newcomer k →
      Listed (lfgRef game.name) alicesSession.user newcomer k' → k' = k :=
    fun game _ k _ hk => (unlisted_newcomer game.name k hk).elim
  have hmatching := @matching_of_agree [chess] [chessOn "PC", chessOn "Mobile"] alicesSession
    newcomer honly (hall [chess] [chessOn "PC", chessOn "Mobile"] alicesSession newcomer honly)
  have hread : (fetchedUser ((gamesStored alicesSession.user [chessOn "PC", chessOn "Mobile"]
      newcomer).sub (userRef alicesSession.user))).isSome = true := by
    decide +kernel
  have hchess := hmatching chess (by simp) ⟨chessOn "PC", by simp, rfl⟩
  rw [if_pos hread, WillAgree] at hchess
  rcases hchess with ⟨-, hsame⟩ | ⟨hnone, -⟩
  · exact absurd hsame (by decide)
  · exact absurd hnone (by decide)

end TeamUp
