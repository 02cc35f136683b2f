import TeamUp.Mirrors
import TeamUp.SetupProfile
import TeamUp.Writes

/-!
# The list of players of a game

`LFGController.fetchPlayers` reads two listings of a game, who plays it now and who looks
for players, and the screen shows one after the other.  The user and the teammates are
left out entry by entry, teammates by comparing with the teammates at hand by name,
biography and region.

So the list is proper exactly if the entries of teammates are up to date and nobody else
has two entries among the two answers.
-/

namespace TeamUp

open Protocol

/-! ### Queries -/

/-- The number that decimal digits stand for. -/
def decimal (digits : List Char) : Option Int :=
  if digits ≠ [] ∧ digits.all Char.isDigit then
    some (digits.foldl (fun n c => 10 * n + ((c.toNat : Int) - ('0'.toNat : Int))) 0)
  else none

/-- `FUtilities.tryParseStringToInt`: digits that may have a sign, for a number of 32 bits. -/
def parseStringToInt (key : String) : Option Int :=
  if 11 < key.length then none
  else
    let value :=
      match key.toList with
      | '-' :: digits => (decimal digits).map Int.neg
      | digits => decimal digits
    value.filter fun n => decide (-2147483648 ≤ n ∧ n ≤ 2147483647)

/-- The UTF-16 code units of a character. -/
def utf16 (c : Char) : List Nat :=
  if c.toNat < 0x10000 then [c.toNat]
  else [0xd800 + (c.toNat - 0x10000) / 0x400, 0xdc00 + (c.toNat - 0x10000) % 0x400]

/-- `FUtilities.compareKey`: integers come first, and the shorter of two that are equal. -/
def keyBefore (a b : String) : Bool :=
  match parseStringToInt a, parseStringToInt b with
  | some m, some n => decide (m < n ∨ m = n ∧ a.length < b.length)
  | some _, none => true
  | none, some _ => false
  | none, none => decide (a.toList.flatMap utf16 < b.toList.flatMap utf16)

/-- `queryLimited(toLast:)`, for children that do not differ in what they are ordered by. -/
def queryLimited (limit : Nat) (snapshot : Tree) : Tree :=
  snapshot.filterKeys fun key => decide ((snapshot.keys.filter (keyBefore key)).length < limit)

namespace LFGController

def limit : Nat := 150

/-- The query for one of the two listings of a game, before it is limited. -/
def query (list : Ref) (platform : Option String) (region : Option Region) : Query :=
  match platform, region with
  | some platform, some region =>
      .equal list "compoundQuery" (platform ++ "_" ++ region.rawValue)
  | some platform, none => .equal list "platform" platform
  | none, some region => .equal list "region" region.rawValue
  | none, none => .value list

def found (list : Ref) (platform : Option String) (region : Option Region) (db : Tree) : Tree :=
  queryLimited limit ((query list platform region).snapshot db)

def getLFGUsersFromDictionary (currentUser : Option String) (teammates : List User)
    (dictionary : Tree) : List User :=
  dictionary.keys.filterMap fun key =>
    match (dictionary.get key).asDictionary.bind User.ofDictionary with
    | some user =>
        if some user.username ≠ currentUser ∧ ¬ teammates.any (fun mate => mate.isEqual user) then
          some user
        else none
    | none => none

/-- The callback of either query. -/
def lfgUsers (currentUser : Option String) (teammates : List User) (snapshot : Tree) :
    List User :=
  match snapshot.asDictionary with
  | some dictionary => getLFGUsersFromDictionary currentUser teammates dictionary
  | none => []

end LFGController

/-- What `PlayersViewController.fetchPlayers` shows: the online players, then the others. -/
def shownPlayers (currentUser : Option String) (teammates : List User)
    (snapshot onlineSnapshot : Tree) : List User :=
  LFGController.lfgUsers currentUser teammates onlineSnapshot ++
    LFGController.lfgUsers currentUser teammates snapshot

/-! ### The entries behind the list -/

namespace LFGController

/-- The users the entries of an answer decode to. -/
def entries (snapshot : Tree) : List User :=
  match snapshot.asDictionary with
  | some dictionary =>
      dictionary.keys.filterMap fun key => (dictionary.get key).asDictionary.bind User.ofDictionary
  | none => []

/-- The filter of the list. -/
def Shown (currentUser : Option String) (teammates : List User) (user : User) : Prop :=
  some user.username ≠ currentUser ∧ ¬ teammates.any (fun mate => mate.isEqual user)

instance (currentUser : Option String) (teammates : List User) (user : User) :
    Decidable (Shown currentUser teammates user) :=
  inferInstanceAs (Decidable (_ ∧ _))

variable {currentUser : Option String} {teammates : List User} {snapshot db : Tree}

theorem lfgUsers_eq (snapshot : Tree) :
    lfgUsers currentUser teammates snapshot =
      (entries snapshot).filter fun user => decide (Shown currentUser teammates user) := by
  unfold lfgUsers entries
  cases snapshot.asDictionary with
  | none => rfl
  | some dictionary =>
    simp only [getLFGUsersFromDictionary, List.filter_filterMap]
    refine List.filterMap_congr fun key _ => ?_
    cases (dictionary.get key).asDictionary.bind User.ofDictionary with
    | none => rfl
    | some user => simp [Option.filter, Shown]

/-- The entries of an answer are the same users however it is enumerated. -/
theorem entries_perm (h : PathTree.Same snapshot db) :
    ((entries snapshot).map User.identity).Perm ((entries db).map User.identity) := by
  unfold entries
  rcases Tree.asDictionary_congr h with ⟨hsnapshot, hdb⟩ | ⟨hsnapshot, hdb⟩
  · rw [hsnapshot, hdb]
  · simp only [hsnapshot, hdb, List.map_filterMap]
    have hkeys := h.keys_perm.filterMap fun key =>
      ((Tree.get snapshot key).asDictionary.bind User.ofDictionary).map User.identity
    refine hkeys.trans (List.Perm.of_eq (List.filterMap_congr fun key _ => ?_))
    exact User.identity_congr (PathTree.same_of_leafAt fun p => by simp [h.leafAt])

/-- Whether a user is shown depends on what `==` compares only. -/
theorem shown_iff (user : User) :
    Shown currentUser teammates user ↔
      some user.identity.1 ≠ currentUser ∧ user.identity ∉ teammates.map User.identity := by
  simp [Shown, User.isEqual_iff_identity, User.identity]

end LFGController

/-! ### When the list is proper -/

open Mirrors (userNames)

/-- Neither the user nor a teammate is in the list, and nobody is in it twice. -/
structure Proper (currentUser : Option String) (teammates players : List User) : Prop where
  others : ∀ player ∈ players, some player.username ≠ currentUser
  strangers : ∀ player ∈ players, player.username ∉ userNames teammates
  once : (userNames players).Nodup

/-- The entries of each teammate carry the biography and the region the teammate is known
    with, and nobody else has two entries. -/
structure Listable (currentUser : Option String) (teammates entries : List User) : Prop where
  current : ∀ user ∈ entries, some user.username ≠ currentUser →
    user.username ∈ userNames teammates → user.identity ∈ teammates.map User.identity
  single : ∀ name, some name ≠ currentUser → name ∉ userNames teammates →
    (userNames entries).count name ≤ 1

section Proper

open LFGController

variable {currentUser : Option String} {teammates entries entries' : List User}

/-- Whoever is neither the user nor a teammate is shown. -/
theorem shown_of_stranger {user : User} (hother : some user.username ≠ currentUser)
    (hmate : user.username ∉ userNames teammates) : Shown currentUser teammates user := by
  refine (shown_iff user).mpr ⟨hother, fun hmem => hmate ?_⟩
  obtain ⟨mate, hmem, hidentity⟩ := List.mem_map.mp hmem
  exact List.mem_map.mpr ⟨mate, hmem, congrArg Prod.fst hidentity⟩

/-- All entries of a stranger are shown. -/
theorem count_shown {name : String} (hother : some name ≠ currentUser)
    (hmate : name ∉ userNames teammates) :
    (userNames (entries.filter fun user => decide (Shown currentUser teammates user))).count name =
      (userNames entries).count name := by
  simp only [userNames, List.count, List.countP_map, List.countP_filter]
  refine List.countP_congr fun user _ => ?_
  simp only [Function.comp_apply, Bool.and_eq_true, beq_iff_eq, decide_eq_true_eq]
  refine ⟨fun h => h.1, ?_⟩
  rintro rfl
  exact ⟨rfl, shown_of_stranger hother hmate⟩

/-- **The shown entries are proper exactly if all of them are listable.** -/
theorem proper_iff_listable :
    Proper currentUser teammates
        (entries.filter fun user => decide (Shown currentUser teammates user)) ↔
      Listable currentUser teammates entries := by
  constructor
  · intro hproper
    refine ⟨fun user huser hother hmate => ?_, fun name hother hmate => ?_⟩
    · by_contra hstale
      have hshown : Shown currentUser teammates user := (shown_iff user).mpr ⟨hother, hstale⟩
      exact hproper.strangers user
        (List.mem_filter.mpr ⟨huser, decide_eq_true hshown⟩) hmate
    · rw [← count_shown hother hmate]
      exact List.nodup_iff_count_le_one.mp hproper.once name
  · intro hlistable
    have hstrangers : ∀ user ∈ entries, Shown currentUser teammates user →
        some user.username ≠ currentUser ∧ user.username ∉ userNames teammates := by
      intro user huser hshown
      obtain ⟨hother, hidentity⟩ := (shown_iff user).mp hshown
      exact ⟨hother, fun hmate => hidentity (hlistable.current user huser hother hmate)⟩
    have hshown : ∀ user ∈ entries.filter fun user => decide (Shown currentUser teammates user),
        some user.username ≠ currentUser ∧ user.username ∉ userNames teammates := by
      intro user hmem
      obtain ⟨huser, hshown⟩ := List.mem_filter.mp hmem
      exact hstrangers user huser (of_decide_eq_true hshown)
    refine ⟨fun user hmem => (hshown user hmem).1, fun user hmem => (hshown user hmem).2,
      List.nodup_iff_count_le_one.mpr fun name => ?_⟩
    by_cases hname : name ∈ userNames (entries.filter fun user =>
        decide (Shown currentUser teammates user))
    · obtain ⟨user, hmem, rfl⟩ := List.mem_map.mp hname
      obtain ⟨hother, hmate⟩ := hshown user hmem
      rw [count_shown hother hmate]
      exact hlistable.single user.username hother hmate
    · rw [List.count_eq_zero.mpr hname]
      exact Nat.zero_le 1

theorem Listable.perm (h : (entries'.map User.identity).Perm (entries.map User.identity)) :
    Listable currentUser teammates entries' ↔ Listable currentUser teammates entries := by
  have hone : ∀ {entries entries' : List User},
      (entries'.map User.identity).Perm (entries.map User.identity) →
      Listable currentUser teammates entries → Listable currentUser teammates entries' := by
    intro entries entries' h hlistable
    refine ⟨fun user huser hother hmate => ?_, fun name hother hmate => ?_⟩
    · have hmem : user.identity ∈ entries.map User.identity :=
        h.mem_iff.mp (List.mem_map.mpr ⟨user, huser, rfl⟩)
      obtain ⟨user', huser', hidentity⟩ := List.mem_map.mp hmem
      have hname : user'.username = user.username := congrArg Prod.fst hidentity
      rw [← hidentity]
      exact hlistable.current user' huser' (by rwa [hname]) (by rwa [hname])
    · have hnames : (userNames entries').Perm (userNames entries) := by
        have hfst := h.map Prod.fst
        rwa [List.map_map, List.map_map] at hfst
      rw [hnames.count_eq]
      exact hlistable.single name hother hmate
  exact ⟨hone h.symm, hone h⟩

end Proper

/-- What the two queries for a game find in the database. -/
def foundEntries (game : Game) (platform : Option String) (region : Option Region) (db : Tree) :
    List User :=
  LFGController.entries (LFGController.found (onlineRef game.name) platform region db) ++
    LFGController.entries (LFGController.found (lfgRef game.name) platform region db)

/-- **The list of players is proper exactly if what the queries find is listable**: the
    entries of teammates are up to date, and nobody else has two. -/
theorem players_proper_iff {db snapshot onlineSnapshot : Tree} (game : Game)
    (platform : Option String) (region : Option Region) (currentUser : Option String)
    (teammates : List User)
    (h : PathTree.Same snapshot (LFGController.found (lfgRef game.name) platform region db))
    (honline : PathTree.Same onlineSnapshot
      (LFGController.found (onlineRef game.name) platform region db)) :
    Proper currentUser teammates (shownPlayers currentUser teammates snapshot onlineSnapshot) ↔
      Listable currentUser teammates (foundEntries game platform region db) := by
  rw [shownPlayers, LFGController.lfgUsers_eq, LFGController.lfgUsers_eq, ← List.filter_append,
    proper_iff_listable]
  refine Listable.perm ?_
  rw [foundEntries, List.map_append, List.map_append]
  exact (LFGController.entries_perm honline).append (LFGController.entries_perm h)

/-! ### A player of the game who is online as well -/

def profiles (attempts : List Attempt) : Tree :=
  attempts.foldl (fun db attempt => (SetupProfile.storeProfile attempt).apply db) .empty

/-- The current records of the teammates stored with a user. -/
def storedTeammates (user : String) (db : Tree) : List User :=
  (db.sub (teammatesRef user)).keys.filterMap fun key => fetchedUser (db.sub (userRef key))

/-- The teammates at hand are those stored, with their current records. -/
def Knows (user : String) (teammates : List User) (db : Tree) : Prop :=
  teammates.Perm (storedTeammates user db)

/-- Going online, going offline and editing profiles. -/
def listingOps : Event → Bool
  | .start _ (.goOnlineForGame _ _) _ | .start _ (.goOfflineForGame _) _ => true
  | .start _ (.updateBio _) _ | .start _ (.editRegion _) _ | .start _ (.editMicStatus _) _ => true
  | .start _ (.setProfilePicture _) _ | .start _ (.updateUserGames _) _ => true
  | .start _ _ _ => false
  | _ => true

def aliceAndBob : List Attempt :=
  [{ SetupProfile.gamer with username := "alice1" },
    { SetupProfile.gamer with username := "bobbob" }]

def bobsRecord : Tree :=
  ((storeField "bobbob" "games" (Tree.ofDictionary (gamesDictionary [chess]))).apply
    (profiles aliceAndBob)).sub (userRef "bobbob")

/-- Bob chooses a game and goes online for it. -/
def choosesAndPlays : List Event :=
  [.start ⟨"bobbob", 1⟩ (.updateUserGames [chess]) "-1", .deliver 0, .serve 0 bobsRecord,
    .resume 0 "-2", .serve 0 .empty, .resume 0 "-3", .deliver 0,
    .start ⟨"bobbob", 1⟩ (.goOnlineForGame chess 5) "-4", .serve 0 bobsRecord, .resume 0 "-5",
    .deliver 0, .deliver 0]

theorem players_proper_iff_chosen :
    ∃ t, (app [chess]).exec (fun _ e => listingOps e) (State.initial (profiles aliceAndBob) [])
        (choosesAndPlays.take 7) = some t ∧
      Proper (some "alice1") []
        (shownPlayers (some "alice1") [] (LFGController.found (lfgRef "chess") none none t.store)
          (LFGController.found (onlineRef "chess") none none t.store)) := by
  have hend : ((app [chess]).exec (fun _ e => listingOps e)
      (State.initial (profiles aliceAndBob) []) (choosesAndPlays.take 7)).map
        (fun t => userNames (foundEntries chess none none t.store)) = some ["bobbob"] := by
    decide +kernel
  obtain ⟨t, ht, hnames⟩ := Option.map_eq_some_iff.mp hend
  refine ⟨t, ht, ?_⟩
  refine (players_proper_iff chess none none (some "alice1") [] (PathTree.Same.refl _)
    (PathTree.Same.refl _)).mpr
      ⟨fun user _ _ hmate => (List.not_mem_nil hmate).elim, fun name _ _ => ?_⟩
  rw [hnames]
  exact List.nodup_iff_count_le_one.mp (List.nodup_singleton _) name

theorem not_always_players_proper :
    ¬ ∀ (attempts : List Attempt) (events : List Event) (t : State),
      (app [chess]).Run (fun s e => listingOps e = true ∧ InOrder s e)
        (State.initial (profiles attempts) []) events t → t.Quiescent →
      ∀ (user : String) (teammates : List User) (platform : Option String)
        (region : Option Region) (snapshot onlineSnapshot : Tree), Knows user teammates t.store →
      PathTree.Same snapshot (LFGController.found (lfgRef "chess") platform region t.store) →
      PathTree.Same onlineSnapshot
        (LFGController.found (onlineRef "chess") platform region t.store) →
      Proper (some user) teammates
        (shownPlayers (some user) teammates snapshot onlineSnapshot) := by
  intro hall
  have hend : ((app [chess]).exec (fun s e => decide (listingOps e = true ∧ InOrder s e))
      (State.initial (profiles aliceAndBob) []) choosesAndPlays).map (fun t =>
        (decide t.Quiescent, (t.store.sub (teammatesRef "alice1")).keys,
          userNames (shownPlayers (some "alice1") []
            (LFGController.found (lfgRef "chess") none none t.store)
            (LFGController.found (onlineRef "chess") none none t.store)))) =
      some (true, [], ["bobbob", "bobbob"]) := by
    decide +kernel
  obtain ⟨t, ht, hend⟩ := Option.map_eq_some_iff.mp hend
  simp only [Prod.mk.injEq, decide_eq_true_eq] at hend
  obtain ⟨hrest, hteammates, hnames⟩ := hend
  have run := run_of_exec (fun s e h => of_decide_eq_true h) ht
  have hknows : Knows "alice1" [] t.store := by
    rw [Knows, storedTeammates, hteammates]
    exact List.Perm.nil
  have honce := (hall aliceAndBob choosesAndPlays t run hrest "alice1" [] none none _ _ hknows
    (PathTree.Same.refl _) (PathTree.Same.refl _)).once
  rw [hnames] at honce
  exact absurd honce (by decide)

end TeamUp
