import Mathlib.Logic.Function.Basic
import TeamUp.Models
import TeamUp.Runs

/-!
# Choosing games

`AddGamesViewController` lets the user pick games out of the catalogue, whose `Game` objects
are shared by the whole app.  Choosing a platform sets it in the object and appends the
object to the working list; the stored games arrive at some moment and replace that list.
Whenever the screen disappears without Finish, for good or under another one, the platforms of
whatever is in the list are reset.

What Finish saves is the stored games with the choices applied as long as nothing chosen is
lost when the stored games arrive, no game is chosen that has come into the list since its
menu was opened, and no game is saved whose platform a disappearance has reset.
-/

namespace TeamUp

/-! ### The screen and the objects it shares -/

/-- A reference to a `Game` object. -/
abbrev GameRef := Nat

/-- The `Game` objects of the app and the ones `GameController.games` refers to. -/
structure Catalogue where
  heap : GameRef → Game
  games : List GameRef
  /-- References from here on are not in use. -/
  allocated : Nat
  valid : ∀ game ∈ games, game < allocated

/-- The games stored for a user, each under its name. -/
structure StoredGames where
  games : List Game
  distinct : (games.map Game.name).Nodup

/-- The alert that is open, with the game it captures. -/
inductive GameMenu where
  | platformOptions (game : GameRef)
  | removeOption (game : GameRef)
deriving DecidableEq

def GameMenu.game : GameMenu → GameRef
  | .platformOptions game => game
  | .removeOption game => game

/-- What the user has chosen in an alert. -/
inductive Choice where
  | add (game : Game)
  | remove (name : String)
deriving DecidableEq

structure AddGames where
  heap : GameRef → Game
  allocated : Nat
  /-- `GameController.shared.games` -/
  games : List GameRef
  addedGames : List GameRef
  searchText : Option String
  searchResults : List GameRef
  menu : Option GameMenu
  /-- What `fetchUsersGames` is going to answer. -/
  fetching : Option (List Game)
  isFinished : Bool
  disappeared : Bool
  /-- The choices made so far. -/
  choices : List Choice
  /-- The lists saved so far, with the choices made before. -/
  saved : List (List Choice × List Game)
  /-- The platform an object had when the screen was entered, or when it was created. -/
  entered : GameRef → Option String
  /-- The objects whose platform was reset when the screen disappeared, and not set again. -/
  reset : List GameRef

inductive AddGamesEvent where
  /-- `fetchAllGames` returns, for whatever screen. -/
  | fetchedAllGames (games : List Game)
  | fetchedUsersGames
  | textDidChange (searchText : String)
  | didSelectItemAt (item : Nat)
  | selectPlatform (platform : String)
  | selectRemove
  | cancel
  | finishTapped
  | viewWillDisappear
  /-- The screen is shown again, or was not left after all. -/
  | viewWillAppear
deriving DecidableEq

/-- What happens to a screen that is not shown. -/
def AddGamesEvent.unseen : AddGamesEvent → Bool
  | .fetchedAllGames _ | .fetchedUsersGames | .viewWillAppear => true
  | _ => false

namespace AddGames

/-- `viewDidLoad` -/
def opened (catalogue : Catalogue) (stored : StoredGames) : AddGames :=
  { heap := catalogue.heap, allocated := catalogue.allocated, games := catalogue.games
    addedGames := [], searchText := none, searchResults := [], menu := none
    fetching := some stored.games, isFinished := false, disappeared := false
    choices := [], saved := []
    entered := fun game => (catalogue.heap game).playerPlatform
    reset := [] }

/-- New objects with these contents, from the first reference that is not in use. -/
def allocate (s : AddGames) (new : List Game) : AddGames :=
  { s with
    heap := fun game =>
      if game < s.allocated then s.heap game
      else (new[game - s.allocated]?).getD (s.heap game)
    entered := fun game =>
      if game < s.allocated then s.entered game
      else ((new[game - s.allocated]?).getD (s.heap game)).playerPlatform
    allocated := s.allocated + new.length }

def newRefs (s : AddGames) (new : List Game) : List GameRef :=
  List.range' s.allocated new.length

/-- `game.playerPlatform = platform` -/
def setPlatform (s : AddGames) (game : GameRef) (platform : Option String) : AddGames :=
  { s with heap := Function.update s.heap game { s.heap game with playerPlatform := platform } }

def dataSource (s : AddGames) : List GameRef :=
  match s.searchText with
  | some searchText => if searchText.isEmpty then s.games else s.searchResults
  | none => s.games

/-- `==` on the objects. -/
def sameGame (s : AddGames) (game game' : GameRef) : Bool := (s.heap game).isEqual (s.heap game')

def didSelect (s : AddGames) (game : GameRef) : AddGames :=
  if s.addedGames.any fun added => s.sameGame added game then
    { s with menu := some (.removeOption game) }
  else { s with menu := some (.platformOptions game) }

/-- The action of `presentPlatformOptions`. -/
def addGame (s : AddGames) (game : GameRef) (platform : String) : AddGames :=
  { s.setPlatform game (some platform) with
    addedGames := s.addedGames ++ [game]
    menu := none
    choices := s.choices ++ [.add { s.heap game with playerPlatform := some platform }]
    reset := s.reset.filter fun other => decide (other ≠ game) }

def noteRemoval (s : AddGames) (game : GameRef) : AddGames :=
  { s with menu := none, choices := s.choices ++ [.remove (s.heap game).name] }

/-- The action of `presentRemoveOption`. -/
def removeGame (s : AddGames) (game : GameRef) : AddGames :=
  match s.addedGames.findIdx? fun added => s.sameGame added game with
  | some index =>
      { (s.noteRemoval game).setPlatform game none with
        addedGames := s.addedGames.eraseIdx index }
  | none => s.noteRemoval game

/-- The completion of `GameController.fetchAllGames`. -/
def reloadCatalogue (s : AddGames) (games : List Game) : AddGames :=
  { s.allocate games with games := s.newRefs games }

/-- The completion of `UserController.fetchUsersGames`. -/
def gamesFetched (s : AddGames) (games : List Game) : AddGames :=
  { s.allocate games with addedGames := s.newRefs games, fetching := none }

def finish (s : AddGames) : AddGames :=
  if s.addedGames.isEmpty then s
  else { s with
    isFinished := true
    saved := s.saved ++ [(s.choices, s.addedGames.map s.heap)] }

def disappear (s : AddGames) : AddGames :=
  if s.isFinished then { s with disappeared := true }
  else { s with
    disappeared := true
    heap := fun game =>
      if game ∈ s.addedGames then { s.heap game with playerPlatform := none } else s.heap game
    reset := (s.addedGames.filter fun game => (s.heap game).playerPlatform.isSome) ++ s.reset }

section Texts

variable {Character : Type} [DecidableEq Character] (T : Texts Character)

/-- The user acts on a screen that is shown, and while an alert is open only on the alert. -/
def step (s : AddGames) (e : AddGamesEvent) : Option AddGames :=
  if s.disappeared && !e.unseen then none
  else
    match e with
    | .fetchedAllGames games => some (s.reloadCatalogue games)
    | .fetchedUsersGames => s.fetching.map s.gamesFetched
    | .textDidChange searchText =>
        if s.menu = none then
          some { s with
            searchText := some searchText
            searchResults := s.games.filter fun game =>
              T.matchesSearch searchText (s.heap game).name }
        else none
    | .didSelectItemAt item =>
        if s.menu = none then (s.dataSource[item]?).map s.didSelect else none
    | .selectPlatform platform =>
        match s.menu with
        | some (.platformOptions game) =>
            if platform ∈ (s.heap game).platforms then some (s.addGame game platform) else none
        | _ => none
    | .selectRemove =>
        match s.menu with
        | some (.removeOption game) => some (s.removeGame game)
        | _ => none
    | .cancel => if s.menu = none then none else some { s with menu := none }
    | .finishTapped => if s.menu = none then some s.finish else none
    | .viewWillDisappear => some s.disappear
    | .viewWillAppear => some { s with disappeared := false }

end Texts

/-! ### Objects -/

variable {s t : AddGames} {new : List Game} {game added : GameRef} {platform : Option String}

theorem heap_allocate_old (h : game < s.allocated) : (s.allocate new).heap game = s.heap game :=
  if_pos h

theorem heap_newRefs (s : AddGames) (new : List Game) :
    (s.newRefs new).map (s.allocate new).heap = new := by
  refine List.ext_getElem (by simp [newRefs]) fun index hindex hlt => ?_
  have hnew : ¬ s.allocated + index < s.allocated := by omega
  simp [newRefs, allocate, hnew, List.getElem?_eq_getElem hlt]

theorem mem_newRefs (h : game ∈ s.newRefs new) :
    s.allocated ≤ game ∧ game < (s.allocate new).allocated := by
  simpa [newRefs, allocate, List.mem_range'_1] using h

theorem entered_newRefs (h : game ∈ s.newRefs new) :
    (s.allocate new).entered game = ((s.allocate new).heap game).playerPlatform := by
  have hnew : ¬ game < s.allocated := Nat.not_lt.mpr (mem_newRefs h).1
  simp only [allocate, if_neg hnew]

theorem heap_setPlatform_of_ne (h : added ≠ game) :
    (s.setPlatform game platform).heap added = s.heap added :=
  Function.update_of_ne h _ _

end AddGames

/-! ### Choices applied to a set of games -/

/-- The first game of this name. -/
def gameNamed (games : List Game) (name : String) : Option Game :=
  games.find? fun game => game.name == name

namespace Choice

def name : Choice → String
  | add game => game.name
  | remove name => name

/-- What a choice makes of the games, by their names. -/
def apply : Choice → (String → Option Game) → String → Option Game
  | add game, games => Function.update games game.name (some game)
  | remove name, games => Function.update games name none

end Choice

/-- The choices applied in order. -/
def applyChoices (choices : List Choice) (games : String → Option Game) : String → Option Game :=
  choices.foldl (fun games choice => choice.apply games) games

section Choices

variable {choices : List Choice} {choice : Choice} {games games' : String → Option Game}
variable {list : List Game} {game : Game} {name : String}

theorem Choice.apply_of_ne (h : name ≠ choice.name) : choice.apply games name = games name := by
  cases choice <;> exact Function.update_of_ne h _ _

theorem applyChoices_append (choices : List Choice) (choice : Choice)
    (games : String → Option Game) :
    applyChoices (choices ++ [choice]) games = choice.apply (applyChoices choices games) :=
  List.foldl_concat _ _ _ _

theorem Choice.apply_congr (h : name = choice.name ∨ games name = games' name) :
    choice.apply games name = choice.apply games' name := by
  by_cases hname : name = choice.name
  · subst hname
    cases choice <;> simp [Choice.apply, Choice.name]
  · rw [Choice.apply_of_ne hname, Choice.apply_of_ne hname]
    exact h.resolve_left hname

/-- A game whose name was chosen is what the choices made of it, whatever it was before. -/
theorem applyChoices_congr
    (h : (∃ choice ∈ choices, choice.name = name) ∨ games name = games' name) :
    applyChoices choices games name = applyChoices choices games' name := by
  induction choices using List.reverseRecOn with
  | nil => simpa [applyChoices] using h
  | append_singleton choices choice ih =>
    rw [applyChoices_append, applyChoices_append]
    refine Choice.apply_congr ?_
    rcases h with ⟨choice', hmem, hname⟩ | hsame
    · rcases List.mem_append.mp hmem with hold | hnew
      · exact Or.inr (ih (Or.inl ⟨choice', hold, hname⟩))
      · rw [List.mem_singleton.mp hnew] at hname
        exact Or.inl hname.symm
    · exact Or.inr (ih (Or.inr hsame))

theorem applyChoices_of_not_mem (h : ∀ choice ∈ choices, choice.name ≠ name) :
    applyChoices choices games name = games name := by
  induction choices using List.reverseRecOn with
  | nil => rfl
  | append_singleton choices choice ih =>
    have hlast : name ≠ choice.name := (h choice (by simp)).symm
    rw [applyChoices_append, Choice.apply_of_ne hlast]
    exact ih fun choice' hmem => h choice' (List.mem_append_left _ hmem)

theorem gameNamed_append (h : ∀ other ∈ list, other.name ≠ game.name) (name : String) :
    gameNamed (list ++ [game]) name = (Choice.add game).apply (gameNamed list) name := by
  rw [gameNamed, List.find?_append, Choice.apply]
  by_cases hname : name = game.name
  · subst hname
    have hnone : list.find? (fun other => other.name == game.name) = none :=
      List.find?_eq_none.mpr fun other hother => by simpa using h other hother
    simp [hnone]
  · rw [Function.update_of_ne hname]
    have hother : (game.name == name) = false := by simpa using Ne.symm hname
    simp [gameNamed, hother]

theorem gameNamed_remove {before after : List Game}
    (hdistinct : ((before ++ game :: after).map Game.name).Nodup) (name : String) :
    gameNamed (before ++ after) name =
      (Choice.remove game.name).apply (gameNamed (before ++ game :: after)) name := by
  rw [Choice.apply]
  by_cases hname : name = game.name
  · subst hname
    rw [Function.update_self, gameNamed, List.find?_eq_none]
    intro other hother
    rw [List.map_append, List.map_cons] at hdistinct
    have hperm := List.perm_middle.nodup_iff.mp hdistinct
    rw [List.nodup_cons, ← List.map_append] at hperm
    simpa using fun heq => hperm.1 (List.mem_map.mpr ⟨other, hother, heq⟩)
  · rw [Function.update_of_ne hname, gameNamed, gameNamed, List.find?_append, List.find?_append,
      List.find?_cons_of_neg (by simpa using Ne.symm hname)]

end Choices

/-! ### What Finish saves -/

/-- Each name once, and the choices applied to what was stored. -/
def Chosen (stored : List Game) (choices : List Choice) (games : List Game) : Prop :=
  (games.map Game.name).Nodup ∧
    ∀ name, gameNamed games name = applyChoices choices (gameNamed stored) name

namespace AddGames

/-- The stored games arrive when the choices made so far leave them as they are; a platform is
    chosen for a game that is not in the list; and what is stored is known to Finish, or every
    stored game has been chosen anew, with no platform of the list reset. -/
def Timely (s : AddGames) : AddGamesEvent → Prop
  | .fetchedUsersGames =>
      ∀ stored ∈ s.fetching, ∀ choice ∈ s.choices,
        applyChoices s.choices (gameNamed stored) choice.name = gameNamed stored choice.name
  | .selectPlatform _ =>
      ∀ menu ∈ s.menu, ∀ added ∈ s.addedGames, (s.heap added).name ≠ (s.heap menu.game).name
  | .finishTapped =>
      (∀ stored ∈ s.fetching, ∀ game ∈ stored, ∃ choice ∈ s.choices, choice.name = game.name) ∧
        ∀ game ∈ s.addedGames, game ∉ s.reset
  | _ => True

instance (s : AddGames) (e : AddGamesEvent) : Decidable (s.Timely e) := by
  unfold Timely
  split <;> infer_instance

/-- The games in the list, as they are. -/
def added (s : AddGames) : List Game := s.addedGames.map s.heap

/-- Every reference in use is allocated. -/
structure Allocated (s : AddGames) : Prop where
  games : ∀ game ∈ s.games, game < s.allocated
  addedGames : ∀ game ∈ s.addedGames, game < s.allocated
  searchResults : ∀ game ∈ s.searchResults, game < s.allocated
  menu : ∀ menu ∈ s.menu, menu.game < s.allocated

/-- What the games in the list would be if no platform had been reset. -/
structure Meant (s : AddGames) (meant : GameRef → Game) : Prop where
  name : ∀ game ∈ s.addedGames, (meant game).name = (s.heap game).name
  kept : ∀ game ∈ s.addedGames, game ∉ s.reset → meant game = s.heap game

/-- But for the platforms that were reset, the list is what the choices make of the stored games,
    or of none while these are on their way; and so was every list that was saved. -/
structure Editing (stored : List Game) (s : AddGames) : Prop where
  allocated : s.Allocated
  distinct : (s.added.map Game.name).Nodup
  fetching : ∀ games ∈ s.fetching, games = stored
  content : ∃ meant, s.Meant meant ∧ ∀ name, gameNamed (s.addedGames.map meant) name =
    applyChoices s.choices (if s.fetching = none then gameNamed stored else fun _ => none) name
  saved : ∀ x ∈ s.saved, Chosen stored x.1 x.2

variable {Character : Type} [DecidableEq Character] {T : Texts Character}
variable {stored : List Game} {s t : AddGames} {e : AddGamesEvent}

theorem Allocated.opened (catalogue : Catalogue) (stored : StoredGames) :
    (opened catalogue stored).Allocated :=
  ⟨catalogue.valid, fun _ h => (by cases h), fun _ h => (by cases h), fun _ h => (by cases h)⟩

theorem Allocated.allocate (h : s.Allocated) (new : List Game) : (s.allocate new).Allocated := by
  have hle : s.allocated ≤ (s.allocate new).allocated := Nat.le_add_right _ _
  exact ⟨fun game hgame => (h.games game hgame).trans_le hle,
    fun game hgame => (h.addedGames game hgame).trans_le hle,
    fun game hgame => (h.searchResults game hgame).trans_le hle,
    fun menu hmenu => (h.menu menu hmenu).trans_le hle⟩

theorem Allocated.dataSource (h : s.Allocated) {game : GameRef} (hgame : game ∈ s.dataSource) :
    game < s.allocated := by
  unfold AddGames.dataSource at hgame
  split at hgame
  · split at hgame
    · exact h.games game hgame
    · exact h.searchResults game hgame
  · exact h.games game hgame

/-! ### What a step can do -/

/-- The steps, with what they need. -/
inductive Moves (T : Texts Character) (s : AddGames) : AddGamesEvent → AddGames → Prop
  | fetchedAllGames (games : List Game) :
      Moves T s (.fetchedAllGames games) (s.reloadCatalogue games)
  | fetchedUsersGames {games : List Game} (hfetching : s.fetching = some games) :
      Moves T s .fetchedUsersGames (s.gamesFetched games)
  | textDidChange (searchText : String) :
      Moves T s (.textDidChange searchText) { s with
        searchText := some searchText
        searchResults := s.games.filter fun game => T.matchesSearch searchText (s.heap game).name }
  | didSelectItemAt {item : Nat} {game : GameRef} (hgame : game ∈ s.dataSource) :
      Moves T s (.didSelectItemAt item) (s.didSelect game)
  | selectPlatform {platform : String} {game : GameRef}
      (hmenu : s.menu = some (.platformOptions game)) :
      Moves T s (.selectPlatform platform) (s.addGame game platform)
  | selectRemove {game : GameRef} (hmenu : s.menu = some (.removeOption game)) :
      Moves T s .selectRemove (s.removeGame game)
  | cancel : Moves T s .cancel { s with menu := none }
  | finishTapped : Moves T s .finishTapped s.finish
  | viewWillDisappear : Moves T s .viewWillDisappear s.disappear
  | viewWillAppear : Moves T s .viewWillAppear { s with disappeared := false }

theorem moves_of_step (h : s.step T e = some t) : s.Moves T e t := by
  unfold step at h
  split at h
  · cases h
  · cases e with
    | fetchedAllGames games =>
      obtain rfl := Option.some.inj h
      exact .fetchedAllGames games
    | fetchedUsersGames =>
      obtain ⟨games, hfetching, rfl⟩ := Option.map_eq_some_iff.mp h
      exact .fetchedUsersGames hfetching
    | textDidChange searchText =>
      dsimp only at h
      split at h
      · obtain rfl := Option.some.inj h
        exact .textDidChange searchText
      · cases h
    | didSelectItemAt item =>
      dsimp only at h
      split at h
      · obtain ⟨game, hgame, rfl⟩ := Option.map_eq_some_iff.mp h
        exact .didSelectItemAt (List.mem_of_getElem? hgame)
      · cases h
    | selectPlatform platform =>
      dsimp only at h
      split at h
      · rename_i game hmenu
        split at h
        · obtain rfl := Option.some.inj h
          exact .selectPlatform hmenu
        · cases h
      · cases h
    | selectRemove =>
      dsimp only at h
      split at h
      · rename_i game hmenu
        obtain rfl := Option.some.inj h
        exact .selectRemove hmenu
      · cases h
    | cancel =>
      dsimp only at h
      split at h
      · cases h
      · obtain rfl := Option.some.inj h
        exact .cancel
    | finishTapped =>
      dsimp only at h
      split at h
      · obtain rfl := Option.some.inj h
        exact .finishTapped
      · cases h
    | viewWillDisappear =>
      obtain rfl := Option.some.inj h
      exact .viewWillDisappear
    | viewWillAppear =>
      obtain rfl := Option.some.inj h
      exact .viewWillAppear

/-- The game removed from the list is the first of its name. -/
theorem removeGame_cases (s : AddGames) (game : GameRef) :
    (∃ before first after, s.addedGames = before ++ first :: after ∧
      (s.addedGames.find? fun added => s.sameGame added game) = some first ∧
      s.removeGame game = { (s.noteRemoval game).setPlatform game none with
        addedGames := before ++ after }) ∨
    (∀ added ∈ s.addedGames, (s.heap added).name ≠ (s.heap game).name) ∧
      s.removeGame game = s.noteRemoval game := by
  cases hindex : s.addedGames.findIdx? fun added => s.sameGame added game with
  | some index =>
    left
    obtain ⟨hlt, hsame, hbefore⟩ := List.findIdx?_eq_some_iff_getElem.mp hindex
    obtain ⟨before, after, hsplit, hlength⟩ := split_at (List.getElem?_eq_getElem hlt)
    refine ⟨before, _, after, hsplit, List.find?_eq_some_iff_getElem.mpr
      ⟨hsame, index, hlt, rfl, fun j hj => by simpa using hbefore j hj⟩, ?_⟩
    have herase : s.addedGames.eraseIdx index = before ++ after := by
      generalize s.addedGames[index] = first at hsplit
      rw [hsplit, ← hlength, eraseIdx_split]
    rw [removeGame, hindex]
    simp only [herase]
  | none =>
    right
    refine ⟨fun added hadded => ?_, by rw [removeGame, hindex]⟩
    have hother := List.findIdx?_eq_none_iff.mp hindex added hadded
    simpa [sameGame, Game.isEqual] using hother

theorem name_of_find {s : AddGames} {game first : GameRef}
    (h : (s.addedGames.find? fun added => s.sameGame added game) = some first) :
    (s.heap first).name = (s.heap game).name := by
  simpa [sameGame, Game.isEqual] using List.find?_some h

theorem Allocated.step (h : s.Allocated) (hst : s.step T e = some t) : t.Allocated := by
  cases moves_of_step hst with
  | fetchedAllGames games =>
    have hgrown := h.allocate games
    exact ⟨fun game hgame => (mem_newRefs hgame).2, hgrown.addedGames, hgrown.searchResults,
      hgrown.menu⟩
  | @fetchedUsersGames games hfetching =>
    have hgrown := h.allocate games
    exact ⟨hgrown.games, fun game hgame => (mem_newRefs hgame).2, hgrown.searchResults,
      hgrown.menu⟩
  | textDidChange searchText =>
    exact ⟨h.games, h.addedGames, fun game hgame => h.games game (List.mem_filter.mp hgame).1,
      h.menu⟩
  | @didSelectItemAt item game hgame =>
    have hmenu : (s.didSelect game).menu = some (.removeOption game) ∨
        (s.didSelect game).menu = some (.platformOptions game) := by
      unfold didSelect
      split <;> simp
    have hrest : (s.didSelect game).games = s.games ∧
        (s.didSelect game).addedGames = s.addedGames ∧
        (s.didSelect game).searchResults = s.searchResults ∧
        (s.didSelect game).allocated = s.allocated := by
      unfold didSelect
      split <;> exact ⟨rfl, rfl, rfl, rfl⟩
    obtain ⟨hgames, hadded, hresults, hallocated⟩ := hrest
    refine ⟨?_, ?_, ?_, fun menu hmem => ?_⟩
    · rw [hgames, hallocated]
      exact h.games
    · rw [hadded, hallocated]
      exact h.addedGames
    · rw [hresults, hallocated]
      exact h.searchResults
    · rw [hallocated]
      rcases hmenu with heq | heq
      · rw [heq] at hmem
        cases hmem
        exact h.dataSource hgame
      · rw [heq] at hmem
        cases hmem
        exact h.dataSource hgame
  | @selectPlatform platform game hmenu =>
    refine ⟨h.games, fun added hadded => ?_, h.searchResults, fun _ hnone => by cases hnone⟩
    rcases List.mem_append.mp hadded with hold | hnew
    · exact h.addedGames added hold
    · rw [List.mem_singleton.mp hnew]
      exact h.menu _ hmenu
  | @selectRemove game hmenu =>
    rcases s.removeGame_cases game with ⟨before, first, after, hsplit, -, hremove⟩ | ⟨-, hremove⟩
    · rw [hremove]
      refine ⟨h.games, fun added hadded => h.addedGames added ?_, h.searchResults,
        fun _ hnone => by cases hnone⟩
      exact rest_of_split hsplit hadded
    · rw [hremove]
      exact ⟨h.games, h.addedGames, h.searchResults, fun _ hnone => by cases hnone⟩
  | cancel => exact ⟨h.games, h.addedGames, h.searchResults, fun _ hnone => by cases hnone⟩
  | finishTapped =>
    unfold finish
    split
    · exact h
    · exact ⟨h.games, h.addedGames, h.searchResults, h.menu⟩
  | viewWillDisappear =>
    unfold disappear
    split <;> exact ⟨h.games, h.addedGames, h.searchResults, h.menu⟩
  | viewWillAppear => exact ⟨h.games, h.addedGames, h.searchResults, h.menu⟩

/-! ### The list follows the choices -/

theorem added_congr {s t : AddGames} (hlist : t.addedGames = s.addedGames)
    (hheap : ∀ added ∈ s.addedGames, t.heap added = s.heap added) : t.added = s.added := by
  rw [added, added, hlist]
  exact List.map_congr_left hheap

theorem Meant.names {meant : GameRef → Game} (h : s.Meant meant) :
    (s.addedGames.map meant).map Game.name = s.added.map Game.name := by
  rw [added, List.map_map, List.map_map]
  exact List.map_congr_left h.name

/-- A step that changes neither the list nor the choices. -/
theorem Editing.keep (h : Editing stored s) (hallocated : t.Allocated)
    (hlist : t.addedGames = s.addedGames)
    (hheap : ∀ added ∈ s.addedGames, t.heap added = s.heap added) (hreset : t.reset = s.reset)
    (hfetching : t.fetching = s.fetching) (hchoices : t.choices = s.choices)
    (hsaved : t.saved = s.saved) : Editing stored t where
  allocated := hallocated
  distinct := by rw [added_congr hlist hheap]; exact h.distinct
  fetching := by rw [hfetching]; exact h.fetching
  content := by
    obtain ⟨meant, hmeant, hcontent⟩ := h.content
    refine ⟨meant, ⟨fun game hgame => ?_, fun game hgame hkept => ?_⟩, ?_⟩
    · rw [hlist] at hgame
      rw [hheap game hgame]
      exact hmeant.name game hgame
    · rw [hlist] at hgame
      rw [hreset] at hkept
      rw [hheap game hgame]
      exact hmeant.kept game hgame hkept
    · rw [hlist, hfetching, hchoices]
      exact hcontent
  saved := by rw [hsaved]; exact h.saved

theorem Editing.opened (catalogue : Catalogue) (stored : StoredGames) :
    Editing stored.games (opened catalogue stored) where
  allocated := .opened catalogue stored
  distinct := List.nodup_nil
  fetching := fun games hgames => (Option.some.inj hgames).symm
  content := ⟨catalogue.heap, ⟨fun _ _ => rfl, fun _ _ _ => rfl⟩, fun _ => rfl⟩
  saved := fun x hx => by cases hx

/-- The stored games arrive, and the choices so far have not changed them. -/
theorem Editing.gamesFetched (h : Editing stored s) {games : List Game}
    (hdistinct : (stored.map Game.name).Nodup) (hfetching : s.fetching = some games)
    (htimely : s.Timely .fetchedUsersGames) (ht : (s.gamesFetched games).Allocated) :
    Editing stored (s.gamesFetched games) := by
  obtain rfl := h.fetching games hfetching
  have hadded : (s.gamesFetched games).added = games := heap_newRefs s games
  refine ⟨ht, ?_, fun _ hnone => (by cases hnone),
    ⟨(s.gamesFetched games).heap, ⟨fun _ _ => rfl, fun _ _ _ => rfl⟩, fun name => ?_⟩, h.saved⟩
  · rw [hadded]
    exact hdistinct
  · have hnone : (s.gamesFetched games).fetching = none := rfl
    rw [← added, hadded, if_pos hnone]
    by_cases hname : ∃ choice ∈ s.choices, choice.name = name
    · obtain ⟨choice, hmem, rfl⟩ := hname
      exact (htimely games hfetching choice hmem).symm
    · refine (applyChoices_of_not_mem fun choice hmem heq => ?_).symm
      exact hname ⟨choice, hmem, heq⟩

/-- A platform is chosen for a game that is not in the list. -/
theorem Editing.addGame (h : Editing stored s) {game : GameRef} {platform : String}
    (hnew : ∀ added ∈ s.addedGames, (s.heap added).name ≠ (s.heap game).name)
    (ht : (s.addGame game platform).Allocated) : Editing stored (s.addGame game platform) := by
  let chosen : Game := { s.heap game with playerPlatform := some platform }
  have hne : ∀ added ∈ s.addedGames, added ≠ game := by
    rintro added hmem rfl
    exact hnew added hmem rfl
  have hheap : ∀ added ∈ s.addedGames, (s.addGame game platform).heap added = s.heap added :=
    fun added hmem => heap_setPlatform_of_ne (hne added hmem)
  have hself : (s.addGame game platform).heap game = chosen := Function.update_self _ _ _
  have hlist : (s.addGame game platform).addedGames = s.addedGames ++ [game] := rfl
  have hadded : (s.addGame game platform).added = s.added ++ [chosen] := by
    rw [added, hlist, List.map_append, List.map_singleton, hself, List.map_congr_left hheap, added]
  obtain ⟨meant, hmeant, hcontent⟩ := h.content
  have hkept : ∀ added ∈ s.addedGames, Function.update meant game chosen added = meant added :=
    fun added hmem => Function.update_of_ne (hne added hmem) _ _
  have hmap : (s.addGame game platform).addedGames.map (Function.update meant game chosen) =
      s.addedGames.map meant ++ [chosen] := by
    rw [hlist, List.map_append, List.map_singleton, Function.update_self,
      List.map_congr_left hkept]
  refine ⟨ht, ?_, h.fetching, ⟨Function.update meant game chosen,
    ⟨fun added hmem => ?_, fun added hmem hreset => ?_⟩, fun name => ?_⟩, h.saved⟩
  · rw [hadded, List.map_append, List.map_singleton]
    refine h.distinct.append (List.nodup_singleton _) ?_
    rw [List.disjoint_singleton]
    intro hmem
    obtain ⟨other, hin, hname⟩ := List.mem_map.mp hmem
    obtain ⟨added, hadd, rfl⟩ := List.mem_map.mp hin
    exact hnew added hadd hname
  · rcases List.mem_append.mp hmem with hold | hlast
    · rw [hkept added hold, hheap added hold]
      exact hmeant.name added hold
    · rw [List.mem_singleton.mp hlast, Function.update_self, hself]
  · rcases List.mem_append.mp hmem with hold | hlast
    · rw [hkept added hold, hheap added hold]
      refine hmeant.kept added hold fun hin => hreset ?_
      exact List.mem_filter.mpr ⟨hin, decide_eq_true (hne added hold)⟩
    · rw [List.mem_singleton.mp hlast, Function.update_self, hself]
  · have hother : ∀ other ∈ s.addedGames.map meant, other.name ≠ chosen.name := by
      intro other hmem
      obtain ⟨added, hadd, rfl⟩ := List.mem_map.mp hmem
      rw [hmeant.name added hadd]
      exact hnew added hadd
    have happly : (s.addGame game platform).choices = s.choices ++ [.add chosen] := rfl
    rw [hmap, gameNamed_append hother, happly, applyChoices_append]
    exact Choice.apply_congr (Or.inr (hcontent name))

/-- The first game of a name is removed, or there is none. -/
theorem Editing.removeGame (h : Editing stored s) (game : GameRef)
    (ht : (s.removeGame game).Allocated) : Editing stored (s.removeGame game) := by
  obtain ⟨meant, hmeant, hcontent⟩ := h.content
  have hchoices : (s.removeGame game).choices = s.choices ++ [.remove (s.heap game).name] ∧
      (s.removeGame game).fetching = s.fetching ∧ (s.removeGame game).saved = s.saved ∧
      (s.removeGame game).reset = s.reset := by
    rcases s.removeGame_cases game with ⟨before, first, after, -, -, hremove⟩ | ⟨-, hremove⟩
    · rw [hremove]
      exact ⟨rfl, rfl, rfl, rfl⟩
    · rw [hremove]
      exact ⟨rfl, rfl, rfl, rfl⟩
  obtain ⟨hchoices, hfetching, hsaved, hreset⟩ := hchoices
  suffices hlist : (s.removeGame game).addedGames.Sublist s.addedGames ∧
      (∀ added ∈ (s.removeGame game).addedGames, (s.removeGame game).heap added = s.heap added) ∧
      ∀ name, gameNamed ((s.removeGame game).addedGames.map meant) name =
        (Choice.remove (s.heap game).name).apply (gameNamed (s.addedGames.map meant)) name by
    obtain ⟨hsub, hheap, hnamed⟩ := hlist
    have hadded : (s.removeGame game).added = (s.removeGame game).addedGames.map s.heap :=
      List.map_congr_left hheap
    refine ⟨ht, ?_, ?_, ⟨meant, ⟨fun added hmem => ?_, fun added hmem hkept => ?_⟩,
      fun name => ?_⟩, ?_⟩
    · rw [hadded]
      exact h.distinct.sublist ((hsub.map s.heap).map Game.name)
    · rw [hfetching]
      exact h.fetching
    · rw [hheap added hmem]
      exact hmeant.name added (hsub.subset hmem)
    · rw [hreset] at hkept
      rw [hheap added hmem]
      exact hmeant.kept added (hsub.subset hmem) hkept
    · rw [hnamed, hchoices, hfetching, applyChoices_append]
      exact Choice.apply_congr (Or.inr (hcontent name))
    · rw [hsaved]
      exact h.saved
  rcases s.removeGame_cases game with ⟨before, first, after, hsplit, hfind, hremove⟩ |
      ⟨hnone, hremove⟩
  · have hfirst : first ∈ s.addedGames := mem_of_split hsplit
    have hname : (meant first).name = (s.heap game).name :=
      (hmeant.name first hfirst).trans (name_of_find hfind)
    have hrest : ∀ other ∈ before ++ after, other ≠ game := by
      rintro other hmem rfl
      have hdistinct := h.distinct
      rw [added, hsplit, List.map_append, List.map_cons, List.map_append,
        List.map_cons] at hdistinct
      have hperm := List.perm_middle.nodup_iff.mp hdistinct
      rw [List.nodup_cons, ← List.map_append, ← List.map_append] at hperm
      refine hperm.1 (List.mem_map.mpr ⟨s.heap other, ?_, (name_of_find hfind).symm⟩)
      exact List.mem_map.mpr ⟨other, hmem, rfl⟩
    rw [hremove]
    refine ⟨hsplit ▸ split_sublist before first after,
      fun added hmem => heap_setPlatform_of_ne (hrest added hmem), fun name => ?_⟩
    have hdistinct := h.distinct
    rw [← hmeant.names, hsplit, List.map_append, List.map_cons] at hdistinct
    rw [hsplit, List.map_append, List.map_append, List.map_cons, gameNamed_remove hdistinct, hname]
  · rw [hremove]
    refine ⟨List.Sublist.refl _, fun _ _ => rfl, fun name => ?_⟩
    by_cases heq : name = (s.heap game).name
    · subst heq
      have habsent : gameNamed (s.addedGames.map meant) (s.heap game).name = none := by
        refine List.find?_eq_none.mpr fun other hmem => ?_
        obtain ⟨added, hadd, rfl⟩ := List.mem_map.mp hmem
        rw [hmeant.name added hadd]
        simpa using hnone added hadd
      rw [Choice.apply, Function.update_self]
      exact habsent
    · rw [Choice.apply_of_ne heq]
      rfl

/-- What is saved is what the choices make of the stored games. -/
theorem Editing.finish (h : Editing stored s) (htimely : s.Timely .finishTapped) :
    Editing stored s.finish := by
  obtain ⟨hchosen, hkept⟩ := htimely
  unfold AddGames.finish
  split
  · exact h
  · refine ⟨⟨h.allocated.games, h.allocated.addedGames, h.allocated.searchResults,
      h.allocated.menu⟩, h.distinct, h.fetching, ?_, fun x hx => ?_⟩
    · obtain ⟨meant, hmeant, hcontent⟩ := h.content
      exact ⟨meant, ⟨hmeant.name, hmeant.kept⟩, hcontent⟩
    rcases List.mem_append.mp hx with hold | hnew
    · exact h.saved x hold
    · obtain ⟨meant, hmeant, hcontent⟩ := h.content
      have hadded : s.addedGames.map s.heap = s.addedGames.map meant :=
        List.map_congr_left fun game hgame => (hmeant.kept game hgame (hkept game hgame)).symm
      rw [List.mem_singleton.mp hnew]
      refine ⟨h.distinct, fun name => ?_⟩
      rw [hadded]
      refine (hcontent name).trans ?_
      cases hfetching : s.fetching with
      | none => rw [if_pos rfl]
      | some games =>
        obtain rfl := h.fetching games hfetching
        rw [if_neg (by simp)]
        refine applyChoices_congr ?_
        by_cases hstored : ∃ game ∈ games, game.name = name
        · obtain ⟨game, hgame, rfl⟩ := hstored
          exact Or.inl (hchosen games hfetching game hgame)
        · refine Or.inr (List.find?_eq_none.mpr fun game hgame => ?_).symm
          simpa using fun heq => hstored ⟨game, hgame, heq⟩

/-- Only platforms are reset. -/
theorem name_disappear (s : AddGames) (game : GameRef) :
    (s.disappear.heap game).name = (s.heap game).name := by
  simp only [AddGames.disappear]
  split
  · rfl
  · dsimp only
    split <;> rfl

theorem list_disappear (s : AddGames) : s.disappear.games = s.games ∧
    s.disappear.addedGames = s.addedGames ∧ s.disappear.fetching = s.fetching ∧
    s.disappear.choices = s.choices ∧ s.disappear.saved = s.saved := by
  unfold AddGames.disappear
  split <;> exact ⟨rfl, rfl, rfl, rfl, rfl⟩

/-- What is not reset by now is as it was. -/
theorem heap_disappear {game : GameRef} (hgame : game ∈ s.addedGames)
    (h : game ∉ s.disappear.reset) : game ∉ s.reset ∧ s.disappear.heap game = s.heap game := by
  unfold AddGames.disappear at h ⊢
  split at h
  · rename_i hfinished
    rw [if_pos hfinished]
    exact ⟨h, rfl⟩
  · rename_i hfinished
    simp only [List.mem_append, List.mem_filter, not_or, not_and] at h
    obtain ⟨hplatform, hreset⟩ := h
    have hnone : (s.heap game).playerPlatform = none := by simpa using hplatform hgame
    refine ⟨hreset, ?_⟩
    simp only [if_neg hfinished, if_pos hgame]
    rw [← hnone]

/-- The screen disappears: what the games were meant to be stays the same. -/
theorem Editing.disappear (h : Editing stored s) (ht : s.disappear.Allocated) :
    Editing stored s.disappear := by
  obtain ⟨-, hlist, hfetching, hchoices, hsaved⟩ := s.list_disappear
  obtain ⟨meant, hmeant, hcontent⟩ := h.content
  refine ⟨ht, ?_, ?_, ⟨meant, ⟨fun game hgame => ?_, fun game hgame hkept => ?_⟩, ?_⟩, ?_⟩
  · have hnames : s.disappear.added.map Game.name = s.added.map Game.name := by
      rw [added, added, hlist, List.map_map, List.map_map]
      exact List.map_congr_left fun game _ => s.name_disappear game
    rw [hnames]
    exact h.distinct
  · rw [hfetching]
    exact h.fetching
  · rw [hlist] at hgame
    rw [name_disappear]
    exact hmeant.name game hgame
  · rw [hlist] at hgame
    obtain ⟨hreset, hheap⟩ := heap_disappear hgame hkept
    rw [hheap]
    exact hmeant.kept game hgame hreset
  · rw [hlist, hfetching, hchoices]
    exact hcontent
  · rw [hsaved]
    exact h.saved

/-- **A timely step** keeps the list in line with the choices. -/
theorem Editing.step (h : Editing stored s) (hdistinct : (stored.map Game.name).Nodup)
    (htimely : s.Timely e) (hst : s.step T e = some t) : Editing stored t := by
  have hallocated := h.allocated.step hst
  cases moves_of_step hst with
  | fetchedAllGames games =>
    refine h.keep hallocated rfl (fun added hadd => ?_) rfl rfl rfl rfl
    exact heap_allocate_old (h.allocated.addedGames added hadd)
  | fetchedUsersGames hfetching =>
    exact h.gamesFetched hdistinct hfetching htimely hallocated
  | textDidChange searchText => exact h.keep hallocated rfl (fun _ _ => rfl) rfl rfl rfl rfl
  | @didSelectItemAt item game hgame =>
    unfold didSelect at hallocated ⊢
    split at hallocated
    · rename_i hcontains
      rw [if_pos hcontains]
      exact h.keep hallocated rfl (fun _ _ => rfl) rfl rfl rfl rfl
    · rename_i hcontains
      rw [if_neg hcontains]
      exact h.keep hallocated rfl (fun _ _ => rfl) rfl rfl rfl rfl
  | @selectPlatform platform game hmenu => exact h.addGame (htimely _ hmenu) hallocated
  | @selectRemove game hmenu => exact h.removeGame game hallocated
  | cancel => exact h.keep hallocated rfl (fun _ _ => rfl) rfl rfl rfl rfl
  | finishTapped => exact h.finish htimely
  | viewWillDisappear => exact h.disappear hallocated
  | viewWillAppear => exact h.keep hallocated rfl (fun _ _ => rfl) rfl rfl rfl rfl

/-- **What Finish saves** in a timely run has each name once, and is the stored games with the
    choices applied in order. -/
theorem finish_saves {catalogue : Catalogue} {stored : StoredGames} {events : List AddGamesEvent}
    (run : Run (step T) Timely (opened catalogue stored) events t) :
    ∀ x ∈ t.saved, Chosen stored.games x.1 x.2 := by
  have hediting := run.invariant (Editing stored.games)
    (fun _ _ _ h htimely hst => h.step stored.distinct htimely hst) (.opened catalogue stored)
  exact hediting.saved

/-- Chess, on either of two platforms, not chosen yet. -/
def anyChess : Game := { chess with platforms := ["PC", "Mobile"], playerPlatform := none }

/-- The catalogue has chess only. -/
def chessOnly : Catalogue where
  heap := fun _ => anyChess
  games := [0]
  allocated := 1
  valid := by decide

def storedChess : StoredGames where
  games := [{ anyChess with playerPlatform := some "PC" }]
  distinct := by decide

/-- Once the stored chess has arrived the screen is left and comes back, and chess is removed,
    chosen on the other platform, and saved. -/
def chessAgain : List AddGamesEvent :=
  [.fetchedUsersGames, .viewWillDisappear, .viewWillAppear, .didSelectItemAt 0, .selectRemove,
    .didSelectItemAt 0, .selectPlatform "Mobile", .finishTapped]

theorem finish_saves_chess : ∃ t,
    Run (step .plain) Timely (opened chessOnly storedChess) chessAgain t ∧
    t.saved.map Prod.snd = [[{ anyChess with playerPlatform := some "Mobile" }]] ∧
    ∀ x ∈ t.saved, Chosen storedChess.games x.1 x.2 := by
  have hsaved : ((exec (step .plain) (fun s e => decide (s.Timely e))
      (opened chessOnly storedChess) chessAgain).map fun t => t.saved.map Prod.snd) =
      some [[{ anyChess with playerPlatform := some "Mobile" }]] := by
    decide +kernel
  obtain ⟨t, hexec, ht⟩ := Option.map_eq_some_iff.mp hsaved
  have run : Run (step .plain) Timely (opened chessOnly storedChess) _ t :=
    run_of_exec (fun _ _ h => of_decide_eq_true h) hexec
  exact ⟨t, run, ht, finish_saves run⟩

/-- The stored chess arrives while the menu is open: chess is saved twice. -/
theorem not_always_chosen : ¬ ∀ (catalogue : Catalogue) (stored : StoredGames)
    (events : List AddGamesEvent) (t : AddGames),
    Run (step .plain) (fun _ _ => True) (opened catalogue stored) events t →
      ∀ x ∈ t.saved, Chosen stored.games x.1 x.2 := by
  intro hall
  have hsaved : ((exec (step .plain) (fun _ _ => true) (opened chessOnly storedChess)
      [.didSelectItemAt 0, .fetchedUsersGames, .selectPlatform "Mobile", .finishTapped]).map
        fun t => t.saved.map fun x => x.2.map Game.name) = some [["chess", "chess"]] := by
    decide +kernel
  obtain ⟨t, hexec, ht⟩ := Option.map_eq_some_iff.mp hsaved
  obtain ⟨x, hx, hnames⟩ : ∃ x ∈ t.saved, x.2.map Game.name = ["chess", "chess"] := by
    have hmem : ["chess", "chess"] ∈ t.saved.map fun x => x.2.map Game.name := by
      rw [ht]
      exact List.mem_singleton.mpr rfl
    exact List.mem_map.mp hmem
  have hchosen := hall chessOnly storedChess _ t (run_of_exec (fun _ _ _ => trivial) hexec) x hx
  have hdistinct := hchosen.1
  rw [hnames] at hdistinct
  exact absurd hdistinct (by decide)

end AddGames

end TeamUp
