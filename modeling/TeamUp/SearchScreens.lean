import TeamUp.CollectionView
import TeamUp.Display
import TeamUp.Players

/-!
# Searching games and players

`LFGViewController` searches half a second after the last change of the text, the games at
once and the users by a query; `PlayersViewController` fetches players for each filter.  The
answers overwrite what is shown in the order they arrive in.  What is shown at rest belongs to
the latest input only if no answer of an earlier one comes late, and, on the first screen, if
a short text is searched while no users are shown and the catalogue is not replaced under the
results.

How many characters a text has is asked of the parameter that says how strings are read.
-/

namespace TeamUp

/-- The users `searchUsers` hands to its completion. -/
def searchedUsers (snapshot : Tree) : List User :=
  match snapshot.asDictionary with
  | some dictionary =>
      (dictionary.keys.filterMap fun key =>
        (dictionary.get key).asDictionary.bind User.ofDictionary).mergeSort
          fun a b => !decide (b.username < a.username)
  | none => []

/-! ### The screen for looking for a group -/

structure LFGScreen where
  /-- `GameController.shared.games` -/
  games : List Game
  initialCurrentGameFetchComplete : Bool
  searchText : Option String
  /-- A search is to run half a second after the last change of the text. -/
  scheduled : Bool
  resultGames : List Game
  /-- `users`, with the queries for users under way. -/
  found : Display String (List User)
  /-- `collectionView`, with the items of the section of games. -/
  view : CollectionView

inductive LFGEvent where
  | textDidChange (searchText : String)
  /-- The delayed search runs. -/
  | performSearch
  | searchButtonClicked (barText : Option String)
  /-- A query for users is answered. -/
  | usersFound (index : Nat) (snapshot : Tree)
  /-- `fetchAllGames` returns, for this screen or another one. -/
  | gamesFetched (snapshot : Tree) (own : Bool)
  /-- The current game is observed, or its observer removed, or there is none to go offline
      for. -/
  | currentGameUpdated (fetched : Bool)
  /-- A reload on the main queue runs. -/
  | reload
  /-- The collection view is laid out. -/
  | layout
deriving DecidableEq

namespace LFGScreen

/-- The screen before its view was laid out. -/
def opened (games : List Game) (initialCurrentGameFetchComplete : Bool) : LFGScreen :=
  { games, initialCurrentGameFetchComplete, searchText := none, scheduled := false
    resultGames := [], found := .initial [], view := .created }

def users (s : LFGScreen) : List User := s.found.shown

/-- The text searched for. -/
def text (s : LFGScreen) : String := s.searchText.getD ""

def gamesDataSource (s : LFGScreen) : List Game :=
  if s.text.isEmpty then s.games else s.resultGames

def reloadSection (s : LFGScreen) : LFGScreen := { s with view := s.view.post }

def reloadData (s : LFGScreen) : LFGScreen :=
  if !s.games.isEmpty && s.initialCurrentGameFetchComplete then { s with view := s.view.post }
  else s

section Texts

variable {Character : Type} [DecidableEq Character] (T : Texts Character)

def search (s : LFGScreen) : LFGScreen :=
  if s.text.isEmpty then
    { s with resultGames := [], found := s.found.put [] }.reloadSection
  else if 3 < (T.characters s.text).length then
    { s with resultGames := T.searchGames s.games s.text, found := s.found.ask s.text }
  else
    { s with
      resultGames := T.searchGames s.games s.text
      found := s.found.leave [] }.reloadSection

def step (s : LFGScreen) : LFGEvent → Option LFGScreen
  | .textDidChange searchText =>
      some { s with searchText := some searchText, scheduled := true }
  | .performSearch => if s.scheduled then some ({ s with scheduled := false }.search T) else none
  | .searchButtonClicked barText =>
      if barText ≠ s.searchText then some (s.search T) else some s
  | .usersFound index snapshot =>
      (s.found.answer index (searchedUsers snapshot)).map fun found =>
        { s with found }.reloadSection
  | .gamesFetched snapshot own =>
      let s := { s with games := fetchedAllGames s.games snapshot }
      some (if own then s.reloadData else s)
  | .currentGameUpdated fetched =>
      some { s with initialCurrentGameFetchComplete :=
        fetched || s.initialCurrentGameFetchComplete }.reloadData
  | .reload => s.view.reload.map fun view => { s with view }
  | .layout => (s.view.layout s.gamesDataSource.length).map fun view => { s with view }

/-- The games that are searched for. -/
def searchedGames (games : List Game) (text : String) : List Game :=
  if text.isEmpty then [] else T.searchGames games text

/-- The users are asked for: there is a text, of more than three characters. -/
def asksUsers (text : String) : Bool := !text.isEmpty && decide (3 < (T.characters text).length)

/-- What is shown belongs to the text: the games found now, and the users its query was answered
    with, or none if it has at most three characters. -/
def ShowsCurrent (s : LFGScreen) : Prop :=
  s.resultGames = searchedGames T s.games s.text ∧
    if asksUsers T s.text then s.found.latest = some s.text ∧ s.found.result = some s.users
    else s.users = []

/-- A short text is searched for while no users are shown. -/
def Searchable (s : LFGScreen) : Prop :=
  s.text.isEmpty = false → (T.characters s.text).length ≤ 3 → s.users = []

/-- No answer overwrites that of a later search, unless another search is to come; a short text
    is searched for while no users are shown; and the catalogue is not replaced under the
    results, unless another search is to come. -/
def InTurn (s : LFGScreen) : LFGEvent → Prop
  | .performSearch => s.Searchable T
  | .searchButtonClicked barText => barText ≠ s.searchText → s.Searchable T
  | .usersFound index snapshot =>
      s.scheduled = true ∨ s.found.InTurn index (searchedUsers snapshot)
  | .gamesFetched snapshot _ =>
      s.scheduled = true ∨
        searchedGames T (fetchedAllGames s.games snapshot) s.text = searchedGames T s.games s.text
  | _ => True

instance (s : LFGScreen) (e : LFGEvent) : Decidable (s.InTurn T e) := by
  unfold InTurn Searchable
  split <;> infer_instance

/-- Unless a search is to come, the games are those found for the text, and the users those of
    its query, or on their way. -/
structure Searched (s : LFGScreen) : Prop where
  counted : s.found.Counted
  games : s.scheduled = false → s.resultGames = searchedGames T s.games s.text
  found : s.scheduled = false → s.found.Following
  latest : s.scheduled = false →
    if asksUsers T s.text then s.found.latest = some s.text else s.found.Known []

variable {T} {s t : LFGScreen} {e : LFGEvent} {events : List LFGEvent}

theorem searched_opened (games : List Game) (complete : Bool) :
    (opened games complete).Searched T := by
  refine ⟨Display.counted_initial [], fun _ => rfl, fun _ => Display.following_initial [],
    fun _ => ⟨?_, rfl⟩⟩
  rintro ⟨q, hq, -⟩
  cases hq

@[simp] theorem text_search : (s.search T).text = s.text := by
  unfold search
  split_ifs <;> rfl

@[simp] theorem games_search : (s.search T).games = s.games := by
  unfold search
  split_ifs <;> rfl

theorem resultGames_search : (s.search T).resultGames = searchedGames T s.games s.text := by
  unfold search searchedGames
  split_ifs <;> rfl

theorem found_search :
    (s.search T).found =
      if s.text.isEmpty then s.found.put []
      else if 3 < (T.characters s.text).length then s.found.ask s.text
      else s.found.leave [] := by
  unfold search
  split_ifs <;> rfl

/-- A search leaves the results of the text, or has them on their way. -/
theorem searched_search (h : s.Searchable T) (hcounted : s.found.Counted) :
    (s.search T).Searched T := by
  have hgames : (s.search T).resultGames =
      searchedGames T (s.search T).games (s.search T).text := by
    rw [games_search, text_search, resultGames_search]
  have hkept : (s.search T).found.Counted := by
    rw [found_search]
    split_ifs
    · exact hcounted.put []
    · exact hcounted.ask s.text
    · exact hcounted.leave []
  have hfound : (s.search T).found.Following := by
    rw [found_search]
    split_ifs with hempty hlong
    · exact Display.following_put _ _
    · exact Display.following_ask _ _
    · exact Display.following_leave (h (by simpa using hempty) (Nat.not_lt.mp hlong))
  have hlatest : if asksUsers T (s.search T).text then
      (s.search T).found.latest = some (s.search T).text else (s.search T).found.Known [] := by
    rw [text_search, found_search]
    by_cases hempty : s.text.isEmpty
    · simpa [asksUsers, hempty] using Display.known_put hcounted []
    · by_cases hlong : 3 < (T.characters s.text).length
      · simp [asksUsers, hempty, hlong, Display.ask]
      · simpa [asksUsers, hempty, hlong] using Display.known_leave hcounted []
  exact ⟨hkept, fun _ => hgames, fun _ => hfound, fun _ => hlatest⟩

/-- The reloads do not touch what is searched for. -/
theorem Searched.reloadData (h : s.Searched T) : s.reloadData.Searched T := by
  unfold LFGScreen.reloadData
  split
  · exact ⟨h.counted, h.games, h.found, h.latest⟩
  · exact h

/-- **Every step in turn** leaves the results of the text, or has them on their way. -/
theorem Searched.step (h : s.Searched T) (hturn : s.InTurn T e) (hst : s.step T e = some t) :
    t.Searched T := by
  cases e with
  | textDidChange searchText =>
    -- another search is to come
    obtain rfl := Option.some.inj hst
    refine ⟨h.counted, ?_, ?_, ?_⟩ <;> exact fun hrest => by cases hrest
  | performSearch =>
    simp only [LFGScreen.step] at hst
    split at hst
    · obtain rfl := Option.some.inj hst
      exact searched_search hturn h.counted
    · cases hst
  | searchButtonClicked barText =>
    simp only [LFGScreen.step] at hst
    split at hst
    · rename_i hother
      obtain rfl := Option.some.inj hst
      exact searched_search (hturn hother) h.counted
    · obtain rfl := Option.some.inj hst
      exact h
  | usersFound index snapshot =>
    obtain ⟨found, hanswer, rfl⟩ := Option.map_eq_some_iff.mp hst
    refine ⟨h.counted.answer hanswer, h.games, fun hrest => ?_, fun hrest => ?_⟩
    · rcases hturn with hscheduled | hturn
      · exact Bool.noConfusion (hrest.symm.trans hscheduled)
      · exact (h.found hrest).answer hturn hanswer
    · have hlatest := h.latest hrest
      change if asksUsers T s.text then found.latest = some s.text else found.Known []
      split_ifs at hlatest ⊢
      · exact (Display.latest_answer hanswer).trans hlatest
      · exact hlatest.answer hanswer
  | gamesFetched snapshot own =>
    obtain rfl := Option.some.inj hst
    have hfetched : Searched T { s with games := fetchedAllGames s.games snapshot } := by
      refine ⟨h.counted, fun hrest => ?_, h.found, h.latest⟩
      rcases hturn with hscheduled | hsame
      · rw [hscheduled] at hrest
        cases hrest
      · exact (h.games hrest).trans hsame.symm
    cases own with
    | true => exact hfetched.reloadData
    | false => exact hfetched
  | currentGameUpdated fetched =>
    obtain rfl := Option.some.inj hst
    exact Searched.reloadData ⟨h.counted, h.games, h.found, h.latest⟩
  | reload | layout =>
    obtain ⟨view, -, rfl⟩ := Option.map_eq_some_iff.mp hst
    exact ⟨h.counted, h.games, h.found, h.latest⟩

/-- What is searched for is at rest. -/
def Quiescent (s : LFGScreen) : Prop := s.scheduled = false ∧ s.found.pending = []

theorem Searched.showsCurrent (h : s.Searched T) (hrest : s.Quiescent) : s.ShowsCurrent T := by
  have hshown := (h.found hrest.1).settled hrest.2
  have hlatest := h.latest hrest.1
  refine ⟨h.games hrest.1, ?_⟩
  split_ifs at hlatest ⊢
  · exact ⟨hlatest, hshown⟩
  · exact (Option.some.inj (hlatest.2.symm.trans hshown)).symm

theorem searched_of_run (games : List Game) (complete : Bool)
    (run : Run (step T) (InTurn T) (opened games complete) events t) : t.Searched T :=
  run.invariant (Searched T) (fun _ _ _ h => h.step) (searched_opened games complete)

end Texts

end LFGScreen

/-! ### The screen with the players of a game -/

/-- What the callback of one of the two queries of `fetchPlayers` finds at hand. -/
structure PlayersAnswer where
  currentUser : Option String
  teammates : List User
  snapshot : Tree
deriving DecidableEq

def PlayersAnswer.users (answer : PlayersAnswer) : List User :=
  LFGController.lfgUsers answer.currentUser answer.teammates answer.snapshot

structure PlayersScreen where
  /-- `users`, with the calls of `fetchPlayers` under way. -/
  found : Display (Option String × Option Region) (List User)

inductive PlayersEvent where
  | filter (platform : Option String) (region : Option Region)
  /-- Both queries of a call are answered. -/
  | playersFetched (index : Nat) (answer onlineAnswer : PlayersAnswer)
deriving DecidableEq

namespace PlayersScreen

def users (s : PlayersScreen) : List User := s.found.shown

def fetchPlayers (s : PlayersScreen) (platform : Option String) (region : Option Region) :
    PlayersScreen :=
  { found := s.found.ask (platform, region) }

/-- `viewDidLoad` -/
def opened : PlayersScreen := fetchPlayers { found := .initial [] } none none

def step (s : PlayersScreen) : PlayersEvent → Option PlayersScreen
  | .filter platform region => some (s.fetchPlayers platform region)
  | .playersFetched index answer onlineAnswer =>
      (s.found.answer index (onlineAnswer.users ++ answer.users)).map fun found => { found }

/-- The last filter chosen, if any was. -/
def lastFilter (events : List PlayersEvent) : Option String × Option Region :=
  events.foldl (fun last e =>
    match e with
    | .filter platform region => (platform, region)
    | .playersFetched .. => last) (none, none)

/-- The players shown are the answer for the last of these filters. -/
def ShowsCurrent (s : PlayersScreen) (events : List PlayersEvent) : Prop :=
  s.found.latest = some (lastFilter events) ∧ s.found.result = some s.users

/-- No answer overwrites that of a later filter. -/
def InTurn (s : PlayersScreen) : PlayersEvent → Prop
  | .filter .. => True
  | .playersFetched index answer onlineAnswer =>
      s.found.InTurn index (onlineAnswer.users ++ answer.users)

instance (s : PlayersScreen) (e : PlayersEvent) : Decidable (s.InTurn e) := by
  unfold InTurn
  split <;> infer_instance

/-- The players of the last filter are shown, or on their way. -/
structure Filtered (events : List PlayersEvent) (s : PlayersScreen) : Prop where
  found : s.found.Following
  latest : s.found.latest = some (lastFilter events)

variable {s t : PlayersScreen} {e : PlayersEvent} {events : List PlayersEvent}

theorem lastFilter_answer (index : Nat) (answer onlineAnswer : PlayersAnswer) :
    lastFilter (events ++ [.playersFetched index answer onlineAnswer]) = lastFilter events := by
  simp [lastFilter]

theorem lastFilter_filter (platform : Option String) (region : Option Region) :
    lastFilter (events ++ [.filter platform region]) = (platform, region) := by
  simp [lastFilter]

/-- **Every step in turn** leaves the players of the last filter shown, or on their way. -/
theorem Filtered.step (h : s.Filtered events) (hturn : s.InTurn e) (hst : s.step e = some t) :
    t.Filtered (events ++ [e]) := by
  cases e with
  | filter platform region =>
    obtain rfl := Option.some.inj hst
    exact ⟨Display.following_ask _ _, (congrArg some (lastFilter_filter platform region)).symm⟩
  | playersFetched index answer onlineAnswer =>
    obtain ⟨found, hanswer, rfl⟩ := Option.map_eq_some_iff.mp hst
    refine ⟨h.found.answer hturn hanswer, ?_⟩
    rw [lastFilter_answer]
    exact (Display.latest_answer hanswer).trans h.latest

theorem filtered_of_run (run : Run step InTurn opened events t) : t.Filtered events :=
  run.history (fun done u => u.Filtered done) (fun _ _ _ _ h => h.step)
    ⟨Display.following_ask _ _, rfl⟩

theorem Filtered.showsCurrent (h : s.Filtered events) (hrest : s.found.pending = []) :
    s.ShowsCurrent events :=
  ⟨h.latest, h.found.settled hrest⟩

end PlayersScreen

/-! ### Results at rest -/

/-- **In every run of either screen whose answers come in turn the results at rest belong to
    the latest input.** -/
theorem results_current {Character : Type} [DecidableEq Character] (T : Texts Character)
    (games : List Game) (complete : Bool) (events : List LFGEvent) (t : LFGScreen)
    (run : Run (LFGScreen.step T) (LFGScreen.InTurn T) (.opened games complete) events t)
    (choices : List PlayersEvent) (players : PlayersScreen)
    (run' : Run PlayersScreen.step PlayersScreen.InTurn .opened choices players) :
    (t.Quiescent → t.ShowsCurrent T) ∧
      (players.found.pending = [] → players.ShowsCurrent choices) := by
  constructor
  · intro hrest
    exact (LFGScreen.searched_of_run games complete run).showsCurrent hrest
  · intro hrest
    exact (PlayersScreen.filtered_of_run run').showsCurrent hrest

/-- An answer with one user. -/
def aliceFound : Tree := (profiles [{ SetupProfile.gamer with username := "alice1" }]).sub ["users"]

/-- A long text is searched for, then a short one. -/
def shortens : List LFGEvent :=
  [.textDidChange "alice", .performSearch, .usersFound 0 aliceFound, .textDidChange "ali",
    .performSearch]

def aliceListed : PlayersAnswer :=
  { currentUser := some "bobbob", teammates := [], snapshot := aliceFound }

def nobodyListed : PlayersAnswer := { aliceListed with snapshot := .empty }

/-- A filter finds nobody, then the answer without a filter arrives. -/
def filtersEarly : List PlayersEvent :=
  [.filter (some "Xbox") none, .playersFetched 1 nobodyListed nobodyListed,
    .playersFetched 0 aliceListed nobodyListed]

theorem results_current_alice :
    ∃ t players, Run (LFGScreen.step .plain) (LFGScreen.InTurn .plain) (.opened [] true)
        (shortens.take 3) t ∧
      t.ShowsCurrent .plain ∧
      Run PlayersScreen.step PlayersScreen.InTurn .opened
        [.playersFetched 0 aliceListed nobodyListed] players ∧
      players.ShowsCurrent [.playersFetched 0 aliceListed nobodyListed] := by
  have hsearch : (exec (LFGScreen.step .plain) (fun s e => decide (s.InTurn .plain e))
      (.opened [] true) (shortens.take 3)).map (fun t => (t.scheduled, t.found.pending)) =
        some (false, []) := by
    decide +kernel
  have hplayers : (exec PlayersScreen.step (fun s e => decide (s.InTurn e)) .opened
      [.playersFetched 0 aliceListed nobodyListed]).map (fun t => t.found.pending) = some [] := by
    decide +kernel
  obtain ⟨t, hexec, hrest⟩ := Option.map_eq_some_iff.mp hsearch
  obtain ⟨hscheduled, hpending⟩ := Prod.mk.inj hrest
  obtain ⟨players, hexec', hpending'⟩ := Option.map_eq_some_iff.mp hplayers
  have run := run_of_exec (fun _ _ h => of_decide_eq_true h) hexec
  have run' := run_of_exec (fun _ _ h => of_decide_eq_true h) hexec'
  have hcurrent := results_current .plain [] true _ t run _ players run'
  exact ⟨t, players, run, hcurrent.1 ⟨hscheduled, hpending⟩, run', hcurrent.2 hpending'⟩

theorem not_always_current :
    (¬ ∀ (games : List Game) (complete : Bool) (events : List LFGEvent) (t : LFGScreen),
      Run (LFGScreen.step .plain) (fun _ _ => True) (.opened games complete) events t →
        t.Quiescent → t.ShowsCurrent .plain) ∧
    ¬ ∀ (events : List PlayersEvent) (t : PlayersScreen),
      Run PlayersScreen.step (fun _ _ => True) .opened events t →
        t.found.pending = [] → t.ShowsCurrent events := by
  have hsearch : (exec (LFGScreen.step .plain) (fun _ _ => true) (.opened [] true) shortens).map
      (fun t => ((t.scheduled, t.found.pending), t.text, t.users.length)) =
        some ((false, []), "ali", 1) := by
    decide +kernel
  have hplayers : (exec PlayersScreen.step (fun _ _ => true) .opened filtersEarly).map (fun t =>
      (t.found.pending.isEmpty, t.found.result.map List.length, t.users.length)) =
        some (true, some 0, 1) := by
    decide +kernel
  constructor
  · intro hall
    obtain ⟨t, hexec, hend⟩ := Option.map_eq_some_iff.mp hsearch
    simp only [Prod.mk.injEq] at hend
    obtain ⟨⟨hscheduled, hpending⟩, htext, hlength⟩ := hend
    have hcurrent := (hall [] true shortens t (run_of_exec (fun _ _ _ => trivial) hexec)
      ⟨hscheduled, hpending⟩).2
    rw [htext, if_neg (by decide)] at hcurrent
    rw [hcurrent] at hlength
    cases hlength
  · intro hall
    obtain ⟨t, hexec, hend⟩ := Option.map_eq_some_iff.mp hplayers
    simp only [Prod.mk.injEq] at hend
    obtain ⟨hpending, hresult, hlength⟩ := hend
    have hcurrent := (hall filtersEarly t (run_of_exec (fun _ _ _ => trivial) hexec)
      (List.isEmpty_iff.mp hpending)).2
    rw [hcurrent, Option.map_some, hlength] at hresult
    cases hresult

end TeamUp
