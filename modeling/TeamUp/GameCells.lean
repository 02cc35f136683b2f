import TeamUp.SearchScreens

/-!
# The cells of the games

The collection view of `LFGViewController` asks for cells below the number of games it obtained
last, and selects below it.  The list behind it changes from the catalogue to the results as
soon as a text is typed, and later with every search and every fetch of the catalogue; the
reload comes after that.  All items are in the list exactly as long as no step leaves fewer
games than the view obtained.
-/

namespace TeamUp

namespace LFGScreen

variable {Character : Type} [DecidableEq Character] (T : Texts Character)

/-- Every item below the number obtained last is in `gamesDataSource`. -/
def CellsCovered (s : LFGScreen) : Prop := s.view.Covered s.gamesDataSource

/-- A search for the text finds at least as many games as the view obtained. -/
def SearchKeeps (s : LFGScreen) : Prop :=
  s.text.isEmpty = false → s.view.itemCount ≤ (T.searchGames s.games s.text).length

/-- There are as many games as the view obtained, in the results when a text is typed, in the
    catalogue when it is removed, and in what replaces the list that is shown. -/
def Keeps (s : LFGScreen) : LFGEvent → Prop
  | .textDidChange searchText =>
      s.view.itemCount ≤ (if searchText.isEmpty then s.games else s.resultGames).length
  | .performSearch => s.SearchKeeps T
  | .searchButtonClicked barText => barText ≠ s.searchText → s.SearchKeeps T
  | .gamesFetched snapshot _ =>
      s.text.isEmpty = true → s.view.itemCount ≤ (fetchedAllGames s.games snapshot).length
  | _ => True

instance (s : LFGScreen) (e : LFGEvent) : Decidable (s.Keeps T e) := by
  rcases e with _ | _ <;> dsimp only [Keeps, SearchKeeps] <;> infer_instance

variable {T} {s t : LFGScreen} {e : LFGEvent}

theorem cellsCovered_iff : s.CellsCovered ↔ s.view.itemCount ≤ s.gamesDataSource.length :=
  CollectionView.covered_iff

@[simp] theorem itemCount_search : (s.search T).view.itemCount = s.view.itemCount := by
  unfold search
  split_ifs <;> rfl

theorem cellsCovered_reloadData : s.reloadData.CellsCovered ↔ s.CellsCovered := by
  unfold reloadData
  split <;> exact Iff.rfl

theorem gamesDataSource_search :
    (s.search T).gamesDataSource =
      if s.text.isEmpty then s.games else T.searchGames s.games s.text := by
  unfold gamesDataSource
  rw [text_search, games_search, resultGames_search, searchedGames]
  split_ifs <;> rfl

theorem cellsCovered_search (h : s.CellsCovered) :
    (s.search T).CellsCovered ↔ s.SearchKeeps T := by
  rw [cellsCovered_iff, itemCount_search, gamesDataSource_search, SearchKeeps]
  by_cases hempty : s.text.isEmpty
  · -- without a text the catalogue is shown before and after
    have hcatalogue : s.gamesDataSource = s.games := if_pos hempty
    rw [cellsCovered_iff, hcatalogue] at h
    simp [hempty, h]
  · simp [hempty]

/-- **A step keeps all items in the list exactly if it leaves as many games as the view
    obtained.** -/
theorem CellsCovered.step_iff (h : s.CellsCovered) (hst : s.step T e = some t) :
    t.CellsCovered ↔ s.Keeps T e := by
  cases e with
  | textDidChange searchText =>
    obtain rfl := Option.some.inj hst
    exact cellsCovered_iff
  | performSearch =>
    simp only [LFGScreen.step] at hst
    split at hst
    · obtain rfl := Option.some.inj hst
      exact cellsCovered_search h
    · cases hst
  | searchButtonClicked barText =>
    simp only [LFGScreen.step] at hst
    split at hst
    · rename_i hother
      obtain rfl := Option.some.inj hst
      exact (cellsCovered_search h).trans ⟨fun hkeeps _ => hkeeps, fun hkeeps => hkeeps hother⟩
    · rename_i hsame
      obtain rfl := Option.some.inj hst
      exact ⟨fun _ hother => (hsame hother).elim, fun _ => h⟩
  | usersFound index snapshot =>
    obtain ⟨found, -, rfl⟩ := Option.map_eq_some_iff.mp hst
    exact ⟨fun _ => trivial, fun _ => h⟩
  | gamesFetched snapshot own =>
    obtain rfl := Option.some.inj hst
    have hfetched : CellsCovered { s with games := fetchedAllGames s.games snapshot } ↔
        s.Keeps T (.gamesFetched snapshot own) := by
      by_cases hempty : s.text.isEmpty
      · have hcatalogue : gamesDataSource { s with games := fetchedAllGames s.games snapshot } =
            fetchedAllGames s.games snapshot := if_pos hempty
        rw [cellsCovered_iff, hcatalogue]
        exact ⟨fun hle _ => hle, fun hkeeps => hkeeps hempty⟩
      · -- with a text the results stay
        have hresults : gamesDataSource { s with games := fetchedAllGames s.games snapshot } =
            s.gamesDataSource := (if_neg hempty).trans (if_neg hempty).symm
        rw [cellsCovered_iff, hresults]
        exact ⟨fun _ htext => (hempty htext).elim, fun _ => cellsCovered_iff.mp h⟩
    cases own with
    | true => exact cellsCovered_reloadData.trans hfetched
    | false => exact hfetched
  | currentGameUpdated fetched =>
    obtain rfl := Option.some.inj hst
    exact ⟨fun _ => trivial, fun _ => cellsCovered_reloadData.mpr h⟩
  | reload =>
    obtain ⟨view, hreload, rfl⟩ := Option.map_eq_some_iff.mp hst
    exact ⟨fun _ => trivial, fun _ => (CollectionView.covered_reload hreload).mpr h⟩
  | layout =>
    obtain ⟨view, hlayout, rfl⟩ := Option.map_eq_some_iff.mp hst
    exact ⟨fun _ => trivial, fun _ => CollectionView.covered_layout hlayout⟩

/-- **In every state of a run all items are in the list exactly if every step leaves as many
    games as the view obtained.** -/
theorem games_covered (games : List Game) (complete : Bool) (events : List LFGEvent)
    (t : LFGScreen) (run : Run (step T) (fun _ _ => True) (opened games complete) events t) :
    Always (step T) (opened games complete) CellsCovered events ↔
      Run (step T) (Keeps T) (opened games complete) events t :=
  run.always_iff (CollectionView.covered_created _) fun _ _ _ h => h.step_iff

/-- The catalogue is laid out, then a text is typed. -/
def typesEarly : List LFGEvent := [.currentGameUpdated true, .reload, .layout, .textDidChange "z"]

theorem games_covered_chess :
    ∃ t, Run (step .plain) (fun _ _ => True) (opened [chess] false) (typesEarly.take 3) t ∧
      Always (step .plain) (opened [chess] false) CellsCovered (typesEarly.take 3) := by
  have hend : (exec (step .plain) (fun s e => decide (s.Keeps .plain e)) (opened [chess] false)
      (typesEarly.take 3)).isSome := by
    decide +kernel
  obtain ⟨t, hexec⟩ := Option.isSome_iff_exists.mp hend
  have hkeeps : Run (step .plain) (Keeps .plain) (opened [chess] false) (typesEarly.take 3) t :=
    run_of_exec (fun _ _ h => of_decide_eq_true h) hexec
  have run : Run (step .plain) (fun _ _ => True) (opened [chess] false) (typesEarly.take 3) t :=
    hkeeps.mono fun _ _ _ => trivial
  exact ⟨t, run, (games_covered [chess] false _ t run).mpr hkeeps⟩

theorem not_always_games_covered :
    ¬ ∀ (games : List Game) (complete : Bool) (events : List LFGEvent) (t : LFGScreen),
      Run (step .plain) (fun _ _ => True) (opened games complete) events t → t.CellsCovered := by
  intro hall
  have hend : (exec (step .plain) (fun _ _ => true) (opened [chess] false) typesEarly).map (fun t =>
      (t.view.itemCount, t.gamesDataSource.length)) = some (1, 0) := by
    decide +kernel
  obtain ⟨t, hexec, hend⟩ := Option.map_eq_some_iff.mp hend
  obtain ⟨hcount, hlength⟩ := Prod.mk.inj hend
  have hcovered := hall [chess] false typesEarly t (run_of_exec (fun _ _ _ => trivial) hexec)
  rw [cellsCovered_iff, hcount, hlength] at hcovered
  exact absurd hcovered (by decide)

end LFGScreen

end TeamUp
