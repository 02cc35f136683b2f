import TeamUp.InterruptedLoops
import TeamUp.Mirrors
import TeamUp.StoredGames
import TeamUp.UserSearch

/-!
# Fetching users

`UserController.fetchUsers` looks the users of some names up, and `fetchTeammateRequests` those
of the requests in a snapshot.  Each starts its look-ups in a loop, gathers what they find in
an array the closures share, and hands the array over when its group is joined.  Whether a
look-up returns in the loop or after it, and in whatever order, the array is handed over only
when all of them have returned, and holds the users found, one for each occurrence of a name.

The names of the requests are the keys of a dictionary.  If they are the indexes of an array
nobody is looked up, and no user is handed over.
-/

namespace TeamUp

/-- Users are looked up by their names, and handed over. -/
def lookUps {Snapshot : Type} (react : Snapshot → List User ⊕ List String) :
    Observer Snapshot String String Tree User (List User) where
  react := react
  start := some
  completion := fun _ snapshot => some (fetchedUser snapshot)
  join := fun users => users

/-- A call of `UserController.fetchUsers` is handed the names, and publishes what it calls its
    completion with. -/
def UserController.fetchUsers : Observer (List String) String String Tree User (List User) :=
  lookUps .inr

theorem fetchTeammateRequests_eq : fetchTeammateRequests = lookUps fun snapshot =>
    match Tree.asDictionary snapshot with
    | some dictionary => .inr dictionary.keys
    | none => .inl [] := rfl

/-! ### What is wanted -/

/-- The users found by these look-ups. -/
def usersFound (lookups : List (String × Tree)) : List User :=
  lookups.filterMap fun lookup => fetchedUser lookup.2

/-- Each name was looked up, once for each of its occurrences, and these are the users found. -/
def FoundBy (lookups : List (String × Tree)) (usernames : List String) (users : List User) :
    Prop :=
  (lookups.map Prod.fst).Perm usernames ∧ users = usersFound lookups

/-- The users of these names: those found if each name is looked up, once for each of its
    occurrences, and `reads` tells what a look-up may read. -/
def UsersOf (reads : String → Tree → Prop) (usernames : List String) (users : List User) : Prop :=
  ∃ lookups : List (String × Tree), (lookups.map Prod.fst).Perm usernames ∧
    (∀ lookup ∈ lookups, reads lookup.1 lookup.2) ∧ users.Perm (usersFound lookups)

/-- Users are handed over once, when all look-ups have returned, and they are the right ones. -/
structure HandsOver {Snapshot : Type} (Right : List User → Prop)
    (f : OpenFork Snapshot String String Tree User (List User)) : Prop where
  once : f.published.length ≤ 1
  settled : f.Settled → f.published ≠ []
  right : ∀ users ∈ f.published, f.Returned ∧ Right users

variable {usernames : List String} {users : List User} {reads : String → Tree → Prop}
variable {lookups : List (String × Tree)}

/-- While the records stay as they are, the users are those of the records that exist and
    decode, one for each occurrence of a name. -/
theorem usersOf_iff (records : String → Tree) :
    UsersOf (fun username snapshot => snapshot = records username) usernames users ↔
      users.Perm (usernames.filterMap fun username => fetchedUser (records username)) := by
  constructor
  · rintro ⟨lookups, hnames, hreads, husers⟩
    have hfound : usersFound lookups =
        (lookups.map Prod.fst).filterMap fun username => fetchedUser (records username) := by
      rw [List.filterMap_map]
      exact List.filterMap_congr fun lookup hlookup => congrArg fetchedUser (hreads lookup hlookup)
    rw [hfound] at husers
    exact husers.trans (hnames.filterMap _)
  · intro husers
    refine ⟨usernames.map fun username => (username, records username), ?_, ?_, ?_⟩
    · rw [List.map_map]
      exact List.Perm.of_eq (List.map_id' usernames)
    · intro lookup hlookup
      obtain ⟨username, -, rfl⟩ := List.mem_map.mp hlookup
      rfl
    · rw [usersFound, List.filterMap_map]
      exact husers

theorem FoundBy.usersOf (h : FoundBy lookups usernames users)
    (hreads : ∀ lookup ∈ lookups, reads lookup.1 lookup.2) : UsersOf reads usernames users :=
  ⟨lookups, h.1, hreads, List.Perm.of_eq h.2⟩

/-- No user is right for names none of whose look-ups need find one. -/
theorem usersOf_nil_iff : UsersOf reads usernames [] ↔
    ∀ username ∈ usernames, ∃ snapshot, reads username snapshot ∧ fetchedUser snapshot = none := by
  constructor
  · rintro ⟨lookups, hnames, hreads, hnone⟩ username husername
    obtain ⟨lookup, hlookup, rfl⟩ := List.mem_map.mp (hnames.mem_iff.mpr husername)
    have hempty : usersFound lookups = [] := hnone.symm.eq_nil
    exact ⟨lookup.2, hreads lookup hlookup, List.filterMap_eq_nil_iff.mp hempty lookup hlookup⟩
  · intro hnobody
    choose snapshot hreads hnone using hnobody
    refine ⟨usernames.attach.map fun u => (u.1, snapshot u.1 u.2), ?_, ?_, ?_⟩
    · rw [List.map_map]
      exact List.Perm.of_eq (List.attach_map_subtype_val usernames)
    · intro lookup hlookup
      obtain ⟨u, -, rfl⟩ := List.mem_map.mp hlookup
      exact hreads u.1 u.2
    · have hempty : usersFound (usernames.attach.map fun u => (u.1, snapshot u.1 u.2)) = [] := by
        refine List.filterMap_eq_nil_iff.mpr fun lookup hlookup => ?_
        obtain ⟨u, -, rfl⟩ := List.mem_map.mp hlookup
        exact hnone u.1 u.2
      rw [hempty]

/-! ### What is handed over -/

section Runs

variable {Snapshot : Type} {react : Snapshot → List User ⊕ List String} {V : Snapshot → Prop}
variable {handed : List User} {events : List (OpenEvent Snapshot Tree)}
variable {b : OpenBoard Snapshot String String Tree User (List User)}
variable {f : OpenFork Snapshot String String Tree User (List User)}

/-- **The users that are looked up are handed over once**, when every look-up has returned: those
    found, one for each occurrence of a name. -/
theorem handsOver_of_forked
    (run : Run (lookUps react).openStep (Observer.OpenPermitted V reads) (.initial handed) events b)
    (hf : f ∈ b.forks) (hreact : react f.snapshot = .inr usernames) :
    HandsOver (FoundBy f.answers usernames) f ∧ ∀ a ∈ f.answers, reads a.1 a.2 := by
  have hstarts : ∀ username ∈ usernames, (lookUps react).start username ≠ none := by
    intro username _ hstart
    cases hstart
  have hpermitted : ∀ a ∈ f.answers, reads a.1 a.2 :=
    ((Observer.allOpenSound_run run f hf).accounts usernames hreact hstarts).permitted
  refine ⟨?_, hpermitted⟩
  rcases Observer.published_of_forked run hf hreact hstarts (fun _ _ => rfl) with
    ⟨hnone, hnot⟩ | ⟨hreturned, hnames, hpublished⟩
  · refine ⟨by simp [hnone], fun hsettled => (hnot hsettled).elim, fun users husers => ?_⟩
    rw [hnone] at husers
    cases husers
  · refine ⟨by simp [hpublished], fun _ => by simp [hpublished], fun users husers => ?_⟩
    rw [hpublished] at husers
    refine ⟨hreturned, ?_, List.mem_singleton.mp husers⟩
    simpa [lookUps] using hnames

/-- While the records stay as they are, these are the users whose records exist and decode. -/
theorem handed_of_records (records : String → Tree)
    (run : Run (lookUps react).openStep
      (Observer.OpenPermitted V fun username snapshot => snapshot = records username)
      (.initial handed) events b)
    (hf : f ∈ b.forks) (hreact : react f.snapshot = .inr usernames) (husers : users ∈ f.published) :
    users.Perm (usernames.filterMap fun username => fetchedUser (records username)) := by
  obtain ⟨hhanded, hreads⟩ := handsOver_of_forked run hf hreact
  obtain ⟨-, hfound⟩ := hhanded.right users husers
  exact (usersOf_iff records).mp (hfound.usersOf hreads)

theorem handsOver_iff_of_answered
    (run : Run (lookUps react).openStep (Observer.OpenPermitted V reads) (.initial handed) events b)
    (hf : f ∈ b.forks) (hreact : react f.snapshot = .inl users) {Right : List User → Prop} :
    HandsOver Right f ↔ Right users := by
  obtain ⟨hreturned, hpublished⟩ := Observer.published_of_answered run hf hreact
  constructor
  · intro h
    exact (h.right users (by simp [hpublished])).2
  · intro hright
    refine ⟨by simp [hpublished], fun _ => by simp [hpublished], fun users' husers' => ?_⟩
    rw [hpublished] at husers'
    rw [List.mem_singleton.mp husers']
    exact ⟨hreturned, hright⟩

/-- **A group of look-ups comes to its end**: it takes two steps at most for each name, and two
    more, and where no step is possible the users have been handed over. -/
theorem lookUps_end {x : Snapshot} (hreact : react x = .inr usernames)
    (run : Run (lookUps react).openStep (Observer.OpenPermitted (fun _ => False) reads)
      ((lookUps react).openObserve (.initial handed) x) events b) :
    events.length ≤ 2 * usernames.length + 2 ∧
      ((∀ e, (∀ y, e ≠ .observed y) → (lookUps react).openStep b e = none) →
        ∀ f ∈ b.forks, f.Settled ∧ f.published ≠ []) := by
  have hstart : Run (lookUps react).openStep (Observer.OpenPermitted (fun y => y = x) reads)
      (.initial handed) [.observed x] ((lookUps react).openObserve (.initial handed) x) :=
    .snoc .nil rfl rfl
  have hsteps : ((lookUps react).openObserve (.initial handed) x).stepsLeft =
      2 * usernames.length + 2 := by
    simp [Observer.openObserve, lookUps, hreact, OpenBoard.initial, OpenBoard.stepsLeft,
      OpenFork.stepsLeft, Group.new]
  refine ⟨?_, fun hstuck f hf => ?_⟩
  · have hle := Observer.length_add_stepsLeft_le (Observer.allOpenSound_run hstart) run
    omega
  · have hsettled := Observer.settled_of_stuck .empty hstuck f hf
    have hwhole := hstart.append (run.mono fun _ _ hok => hok.mono fun _ hnever => hnever.elim)
    obtain ⟨hsnapshot, -⟩ := Observer.sound_closed hwhole hf
    have hhanded := (handsOver_of_forked hwhole hf (by rw [hsnapshot, hreact])).1
    exact ⟨hsettled, hhanded.settled hsettled⟩

end Runs

/-- **A snapshot that is a dictionary hands over the users of its keys, and any other none**: so
    these are right unless it is exported as an array and some look-up of a key is bound to find
    a user. -/
theorem handsOver_requests_iff {requests : List User} {events : List (OpenEvent Tree Tree)}
    {b : OpenBoard Tree String String Tree User (List User)}
    (run : Run fetchTeammateRequests.openStep (Observer.OpenPermitted (fun _ => True) reads)
      (.initial requests) events b)
    {f : OpenFork Tree String String Tree User (List User)} (hf : f ∈ b.forks) :
    HandsOver (UsersOf reads f.snapshot.keys) f ↔ Mirrors.Keyed f.snapshot ∨
      ∀ username ∈ f.snapshot.keys, ∃ snapshot,
        reads username snapshot ∧ fetchedUser snapshot = none := by
  rw [fetchTeammateRequests_eq] at run
  cases hdictionary : Tree.asDictionary f.snapshot with
  | some dictionary =>
    obtain rfl := Tree.asDictionary_eq_some hdictionary
    have hreact : fetchTeammateRequests.react f.snapshot = .inr f.snapshot.keys := by
      simp [fetchTeammateRequests, fetchUsers, hdictionary]
    obtain ⟨hhanded, hreads⟩ := handsOver_of_forked run hf hreact
    refine iff_of_true ⟨hhanded.once, hhanded.settled, fun users husers => ?_⟩
      (Or.inl (Or.inl (by rw [hdictionary]; rfl)))
    obtain ⟨hreturned, hfound⟩ := hhanded.right users husers
    exact ⟨hreturned, hfound.usersOf hreads⟩
  | none =>
    rw [handsOver_iff_of_answered run hf (by rw [hdictionary]), usersOf_nil_iff]
    constructor
    · exact Or.inr
    · rintro ((hsome | hkeys) | hnobody)
      · rw [hdictionary] at hsome
        cases hsome
      · intro username husername
        rw [hkeys] at husername
        cases husername
      · exact hnobody

/-- **`fetchUsers` hands the users it finds to its completion, once, after every look-up has
    returned, one for each occurrence of a name**, however the look-ups and the loop that starts
    them are interleaved; and so does `fetchTeammateRequests` for the keys of a snapshot, unless
    they make it an array and some look-up of them is bound to find a user. -/
theorem users_handed_iff {handed requests : List User}
    {calls : List (OpenEvent (List String) Tree)}
    {b : OpenBoard (List String) String String Tree User (List User)}
    (run : Run UserController.fetchUsers.openStep (fun _ _ => True) (.initial handed) calls b)
    {events : List (OpenEvent Tree Tree)} {b' : OpenBoard Tree String String Tree User (List User)}
    (run' : Run fetchTeammateRequests.openStep (Observer.OpenPermitted (fun _ => True) reads)
      (.initial requests) events b') :
    (∀ f ∈ b.forks, HandsOver (FoundBy f.answers f.snapshot) f) ∧
      ∀ f ∈ b'.forks, HandsOver (UsersOf reads f.snapshot.keys) f ↔ Mirrors.Keyed f.snapshot ∨
        ∀ username ∈ f.snapshot.keys, ∃ snapshot,
          reads username snapshot ∧ fetchedUser snapshot = none := by
  refine ⟨fun f hf => ?_, fun f hf => handsOver_requests_iff run' hf⟩
  have hany : Run UserController.fetchUsers.openStep
      (Observer.OpenPermitted (fun _ => True) fun _ _ => True) (.initial handed) calls b := by
    refine run.mono fun u e _ => ?_
    cases e with
    | observed usernames | advanced i | joined i => trivial
    | returned i index snapshot => exact fun _ _ _ _ => trivial
  exact (handsOver_of_forked hany hf rfl).1

/-- Bob is found before the loop comes to the next name; another name is unknown. -/
def bobTwice : List (OpenEvent (List String) Tree) :=
  [.observed ["bobbob", "nobody", "bobbob"], .advanced 0, .returned 0 0 (record "bobbob"),
    .advanced 0, .advanced 0, .returned 0 1 (record "bobbob"), .advanced 0,
    .returned 0 0 .empty, .joined 0]

def bobFound : List (OpenEvent Tree Tree) :=
  [.observed (teammatesSnapshot ["bobbob"]), .advanced 0, .returned 0 0 (record "bobbob"),
    .advanced 0, .joined 0]

theorem users_handed_iff_bobTwice :
    ∃ b b', exec UserController.fetchUsers.openStep (fun _ _ => true) (.initial []) bobTwice =
        some b ∧
      exec fetchTeammateRequests.openStep (fun b e => decide (Observer.OpenPermitted
        (fun _ => True) (fun username snapshot => snapshot = record username) b e))
        (.initial []) bobFound = some b' ∧
      (b.forks.flatMap OpenFork.published).map Mirrors.userNames = [["bobbob", "bobbob"]] ∧
      (b'.forks.flatMap OpenFork.published).map Mirrors.userNames = [["bobbob"]] ∧
      (∀ f ∈ b.forks, HandsOver (FoundBy f.answers f.snapshot) f) ∧
      ∀ f ∈ b'.forks, HandsOver
        (UsersOf (fun username snapshot => snapshot = record username) f.snapshot.keys) f := by
  have hcalls : (exec UserController.fetchUsers.openStep (fun _ _ => true) (.initial [])
      bobTwice).map (fun b => (b.forks.flatMap OpenFork.published).map Mirrors.userNames) =
        some [["bobbob", "bobbob"]] := by
    decide +kernel
  have hrequests : (exec fetchTeammateRequests.openStep (fun b e => decide (Observer.OpenPermitted
      (fun _ => True) (fun username snapshot => snapshot = record username) b e))
      (.initial []) bobFound).map (fun b =>
        ((b.forks.flatMap OpenFork.published).map Mirrors.userNames,
          decide (∀ f ∈ b.forks, Mirrors.Keyed f.snapshot))) = some ([["bobbob"]], true) := by
    decide +kernel
  obtain ⟨b, hb, hpublished⟩ := Option.map_eq_some_iff.mp hcalls
  obtain ⟨b', hb', hfacts⟩ := Option.map_eq_some_iff.mp hrequests
  obtain ⟨hpublished', hkeyed⟩ := Prod.mk.inj hfacts
  obtain ⟨hhanded, hiff⟩ := users_handed_iff (run_of_exec (fun _ _ _ => trivial) hb)
    (run_of_exec (fun _ _ h => of_decide_eq_true h) hb')
  exact ⟨b, b', hb, hb', hpublished, hpublished', hhanded,
    fun f hf => (hiff f hf).mpr (Or.inl (of_decide_eq_true hkeyed f hf))⟩

def requestsSnapshot (usernames : List String) : Tree :=
  Tree.ofDictionary (Dictionary.collect (fun username => (username, Tree.int 1)) usernames)

theorem keys_requestsSnapshot (hnodup : usernames.Nodup) :
    (requestsSnapshot usernames).keys.Perm usernames := by
  have hkeys := keys_ofDictionary_collect (t := requestsSnapshot usernames)
    (fun username => (username, Tree.int 1)) usernames (by rwa [List.map_id'])
    (fun _ _ => ⟨[], .int 1, rfl⟩) fun _ _ => rfl
  rwa [List.map_id'] at hkeys

/-- Requests that are exported as an array are handed over as none. -/
theorem nobody_of_indexes (hnodup : usernames.Nodup) (hindexes : Tree.indexes usernames = true)
    (hall : ∀ (requests : List User) (events : List (OpenEvent Tree Tree))
      (b : OpenBoard Tree String String Tree User (List User)),
      Run fetchTeammateRequests.openStep (Observer.OpenPermitted (fun _ => True) reads)
        (.initial requests) events b →
      ∀ f ∈ b.forks, HandsOver (UsersOf reads f.snapshot.keys) f) :
    ∀ username ∈ usernames, ∃ snapshot, reads username snapshot ∧ fetchedUser snapshot = none := by
  intro username husername
  have hkeys := keys_requestsSnapshot hnodup
  have hnone : Tree.asDictionary (requestsSnapshot usernames) = none :=
    Tree.asDictionary_of_indexes hkeys hindexes
  have hreact : fetchTeammateRequests.react (requestsSnapshot usernames) = .inl [] := by
    simp [fetchTeammateRequests, fetchUsers, hnone]
  have hforks : (fetchTeammateRequests.openObserve (.initial [])
      (requestsSnapshot usernames)).forks =
        [⟨requestsSnapshot usernames, none, .new, [], [[]]⟩] := by
    simp [Observer.openObserve, hreact, OpenBoard.initial]
  have hhanded := hall [] [.observed (requestsSnapshot usernames)] _ (.snoc .nil trivial rfl) _
    (by rw [hforks]; exact List.mem_singleton_self _)
  exact usersOf_nil_iff.mp (hhanded.right [] (by simp)).2 username
    (hkeys.mem_iff.mpr husername)

/-- **None of a hundred thousand users is among those who made the requests**, if their names are
    the six-digit numbers that begin with 1. -/
theorem not_always_handed :
    ¬ ∀ (reads : String → Tree → Prop) (requests : List User) (events : List (OpenEvent Tree Tree))
      (b : OpenBoard Tree String String Tree User (List User)),
      Run fetchTeammateRequests.openStep (Observer.OpenPermitted (fun _ => True) reads)
        (.initial requests) events b →
      ∀ f ∈ b.forks, HandsOver (UsersOf reads f.snapshot.keys) f := by
  intro hall
  have hfirst : (100000 + 0).repr ∈ (List.range 100000).map fun i => (100000 + i).repr :=
    List.mem_map.mpr ⟨0, List.mem_range.mpr (by omega), rfl⟩
  obtain ⟨snapshot, rfl, hnouser⟩ := nobody_of_indexes nodup_numerals indexes_numerals
    (hall fun username snapshot => snapshot = (profiles numbered).sub (userRef username)) _ hfirst
  -- though the record is there
  obtain ⟨hregistry, hkeys⟩ := registry_profiles accepted_numbered
  obtain ⟨attempt, hattempt, hname⟩ : ∃ attempt ∈ numbered, attempt.username = (100000 + 0).repr :=
    ⟨_, List.mem_map_of_mem (List.mem_range.mpr (by omega)), rfl⟩
  obtain ⟨user, -, hstored⟩ := (hregistry _ ((hkeys _).mpr ⟨attempt, hattempt, hname⟩)).record
  obtain ⟨user', huser', -⟩ := hstored.decodes
  cases huser'.symm.trans hnouser

end TeamUp
