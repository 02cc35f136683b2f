import TeamUp.AddGames

/-!
# Leaving without Finish

A choice changes a `Game` object of the catalogue, which the rest of the app shows too.  Each
time the screen disappears without Finish the platform of the games in the list is set to `nil`,
so an object is as it was only if it had no platform before, and is still in the list.  This
holds of every time the screen is left, also when it is shown again in between.
-/

namespace TeamUp

namespace AddGames

/-- No game of the catalogue is dropped from the list with another platform than on entry when
    the stored games arrive; and a game of the catalogue is only chosen, or removed, if it had no
    platform on entry, and is itself the one that is removed from the list. -/
def Restorable (s : AddGames) : AddGamesEvent → Prop
  | .fetchedUsersGames =>
      ∀ game ∈ s.addedGames, game ∈ s.games → (s.heap game).playerPlatform = s.entered game
  | .selectPlatform _ => ∀ menu ∈ s.menu, menu.game ∈ s.games → s.entered menu.game = none
  | .selectRemove =>
      ∀ menu ∈ s.menu, ∀ first ∈ s.addedGames.find? fun added => s.sameGame added menu.game,
        (menu.game ∈ s.games → s.entered menu.game = none) ∧
          (first ∈ s.games → first = menu.game)
  | _ => True

instance (s : AddGames) (e : AddGamesEvent) : Decidable (s.Restorable e) := by
  rcases e with _ | _ <;> dsimp only [Restorable] <;> infer_instance

/-- The games of the catalogue have the platforms they had on entry. -/
def AsEntered (s : AddGames) : Prop :=
  ∀ game ∈ s.games, (s.heap game).playerPlatform = s.entered game

/-- Leaving now would restore the catalogue. -/
structure Restoring (s : AddGames) : Prop where
  allocated : s.Allocated
  inList : ∀ game ∈ s.games, game ∈ s.addedGames → s.entered game = none
  outside : ∀ game ∈ s.games, game ∉ s.addedGames →
    (s.heap game).playerPlatform = s.entered game

variable {Character : Type} [DecidableEq Character] {T : Texts Character}
variable {s t : AddGames} {e : AddGamesEvent} {game : GameRef}

theorem Restoring.opened (catalogue : Catalogue) (stored : StoredGames) :
    (opened catalogue stored).Restoring :=
  ⟨.opened catalogue stored, fun _ _ h => (by cases h), fun _ _ _ => rfl⟩

/-- A step that changes neither the objects nor the lists. -/
theorem Restoring.keep (h : s.Restoring) (hallocated : t.Allocated) (hheap : t.heap = s.heap)
    (hgames : t.games = s.games) (hadded : t.addedGames = s.addedGames)
    (hentered : t.entered = s.entered) : t.Restoring := by
  refine ⟨hallocated, ?_, ?_⟩
  · rw [hgames, hadded, hentered]
    exact h.inList
  · rw [hgames, hadded, hheap, hentered]
    exact h.outside

theorem entered_allocate_old {new : List Game} (h : game < s.allocated) :
    (s.allocate new).entered game = s.entered game :=
  if_pos h

/-- A new catalogue has objects of its own. -/
theorem Restoring.reloadCatalogue (h : s.Restoring) (games : List Game)
    (ht : (s.reloadCatalogue games).Allocated) : (s.reloadCatalogue games).Restoring := by
  refine ⟨ht, fun game hgame hadded => ?_, fun game hgame _ => ?_⟩
  · have hold := h.allocated.addedGames game hadded
    exact absurd hold (Nat.not_lt.mpr (mem_newRefs hgame).1)
  · exact (entered_newRefs hgame).symm

/-- The stored games have objects of their own; what they replace is as it was. -/
theorem Restoring.gamesFetched (h : s.Restoring) {games : List Game}
    (hrestorable : s.Restorable .fetchedUsersGames) (ht : (s.gamesFetched games).Allocated) :
    (s.gamesFetched games).Restoring := by
  refine ⟨ht, fun game hgame hadded => ?_, fun game hgame _ => ?_⟩
  · have hold := h.allocated.games game hgame
    exact absurd hold (Nat.not_lt.mpr (mem_newRefs hadded).1)
  · have hold := h.allocated.games game hgame
    have hplatform : (s.heap game).playerPlatform = s.entered game := by
      by_cases hadded : game ∈ s.addedGames
      · exact hrestorable game hadded hgame
      · exact h.outside game hgame hadded
    change ((s.allocate games).heap game).playerPlatform = (s.allocate games).entered game
    rw [heap_allocate_old hold, entered_allocate_old hold]
    exact hplatform

theorem Restoring.addGame (h : s.Restoring) {platform : String}
    (hentered : game ∈ s.games → s.entered game = none) (ht : (s.addGame game platform).Allocated) :
    (s.addGame game platform).Restoring := by
  refine ⟨ht, fun other hother hadded => ?_, fun other hother hadded => ?_⟩
  · rcases List.mem_append.mp hadded with hold | hnew
    · exact h.inList other hother hold
    · rw [List.mem_singleton.mp hnew] at hother ⊢
      exact hentered hother
  · have hne : other ≠ game := by
      rintro rfl
      exact hadded (List.mem_append_right _ (List.mem_singleton.mpr rfl))
    have hold : other ∉ s.addedGames := fun hin => hadded (List.mem_append_left _ hin)
    have hheap : (s.addGame game platform).heap other = s.heap other :=
      heap_setPlatform_of_ne hne
    rw [hheap]
    exact h.outside other hother hold

theorem Restoring.removeGame (h : s.Restoring)
    (hrestorable : ∀ first ∈ s.addedGames.find? fun added => s.sameGame added game,
      (game ∈ s.games → s.entered game = none) ∧ (first ∈ s.games → first = game))
    (ht : (s.removeGame game).Allocated) : (s.removeGame game).Restoring := by
  rcases s.removeGame_cases game with ⟨before, first, after, hsplit, hfind, hremove⟩ |
      ⟨-, hremove⟩
  · obtain ⟨hentered, hfirst⟩ := hrestorable first hfind
    rw [hremove] at ht ⊢
    refine ⟨ht, fun other hother hadded => ?_, fun other hother hadded => ?_⟩
    · refine h.inList other hother ?_
      exact rest_of_split hsplit hadded
    · by_cases heq : other = game
      · subst heq
        change (((s.noteRemoval other).setPlatform other none).heap other).playerPlatform =
          s.entered other
        rw [hentered hother]
        simp [setPlatform]
      · have hold : other ∉ s.addedGames := by
          intro hin
          rw [hsplit] at hin
          rcases List.mem_append.mp hin with hbefore | hrest
          · exact hadded (List.mem_append_left _ hbefore)
          · rcases List.mem_cons.mp hrest with rfl | hafter
            · exact heq (hfirst hother)
            · exact hadded (List.mem_append_right _ hafter)
        change (((s.noteRemoval game).setPlatform game none).heap other).playerPlatform =
          s.entered other
        rw [heap_setPlatform_of_ne heq]
        exact h.outside other hother hold
  · rw [hremove] at ht ⊢
    exact h.keep ht rfl rfl rfl rfl

theorem heap_disappear_added (hfinished : s.isFinished = false) (hadded : game ∈ s.addedGames) :
    (s.disappear.heap game).playerPlatform = none := by
  simp [AddGames.disappear, hfinished, hadded]

theorem heap_disappear_outside (hadded : game ∉ s.addedGames) :
    s.disappear.heap game = s.heap game := by
  unfold AddGames.disappear
  split
  · rfl
  · exact if_neg hadded

theorem entered_disappear (s : AddGames) :
    s.disappear.entered = s.entered ∧ s.disappear.isFinished = s.isFinished := by
  unfold AddGames.disappear
  split <;> exact ⟨rfl, rfl⟩

/-- Leaving resets games of the list only. -/
theorem Restoring.disappear (h : s.Restoring) (ht : s.disappear.Allocated) :
    s.disappear.Restoring := by
  obtain ⟨hgames, hlist, -, -, -⟩ := s.list_disappear
  have hentered := s.entered_disappear.1
  refine ⟨ht, ?_, fun game hgame hadded => ?_⟩
  · rw [hgames, hlist, hentered]
    exact h.inList
  · rw [hlist] at hadded
    rw [hgames] at hgame
    rw [heap_disappear_outside hadded, hentered]
    exact h.outside game hgame hadded

/-- Leaving without Finish restores the games in the list, which had no platform before. -/
theorem Restoring.asEntered_disappear (h : s.Restoring) (hfinished : s.isFinished = false) :
    s.disappear.AsEntered := by
  obtain ⟨hgames, -, -, -, -⟩ := s.list_disappear
  intro game hgame
  rw [hgames] at hgame
  rw [s.entered_disappear.1]
  by_cases hadded : game ∈ s.addedGames
  · rw [heap_disappear_added hfinished hadded, h.inList game hgame hadded]
  · rw [heap_disappear_outside hadded]
    exact h.outside game hgame hadded

/-- **A restorable step** keeps the catalogue restorable. -/
theorem Restoring.step (h : s.Restoring) (hrestorable : s.Restorable e)
    (hst : s.step T e = some t) : t.Restoring := by
  have hallocated := h.allocated.step hst
  cases moves_of_step hst with
  | fetchedAllGames games => exact h.reloadCatalogue games hallocated
  | fetchedUsersGames hfetching => exact h.gamesFetched hrestorable hallocated
  | textDidChange searchText => exact h.keep hallocated rfl rfl rfl rfl
  | @didSelectItemAt item game hgame =>
    unfold didSelect at hallocated ⊢
    split at hallocated
    · rename_i hcontains
      rw [if_pos hcontains]
      exact h.keep hallocated rfl rfl rfl rfl
    · rename_i hcontains
      rw [if_neg hcontains]
      exact h.keep hallocated rfl rfl rfl rfl
  | @selectPlatform platform game hmenu => exact h.addGame (hrestorable _ hmenu) hallocated
  | @selectRemove game hmenu => exact h.removeGame (hrestorable _ hmenu) hallocated
  | cancel => exact h.keep hallocated rfl rfl rfl rfl
  | finishTapped =>
    unfold finish at hallocated ⊢
    split at hallocated
    · rename_i hempty
      rw [if_pos hempty]
      exact h
    · rename_i hempty
      rw [if_neg hempty]
      exact h.keep hallocated rfl rfl rfl rfl
  | viewWillDisappear => exact h.disappear hallocated
  | viewWillAppear => exact h.keep hallocated rfl rfl rfl rfl

/-- What arrives while the screen is not shown leaves the catalogue as it was on entry. -/
theorem AsEntered.step (h : s.AsEntered) (hallocated : s.Allocated) (hleft : s.disappeared = true)
    (hst : s.step T e = some t) (ht : t.disappeared = true) : t.AsEntered := by
  have hunseen : e.unseen = true := by
    by_contra hseen
    simp [AddGames.step, hleft, hseen] at hst
  cases moves_of_step hst with
  | fetchedAllGames games => exact fun game hgame => (entered_newRefs hgame).symm
  | @fetchedUsersGames games hfetching =>
    intro game hgame
    have hold := hallocated.games game hgame
    change ((s.allocate games).heap game).playerPlatform = (s.allocate games).entered game
    rw [heap_allocate_old hold, entered_allocate_old hold]
    exact h game hgame
  | viewWillAppear => cases ht
  | _ => cases hunseen

/-- Only leaving the screen hides it. -/
theorem Moves.disappeared (h : s.Moves T e t) (hshown : s.disappeared = false) :
    t.disappeared = false ∨ t = s.disappear := by
  cases h with
  | didSelectItemAt hgame =>
    left
    unfold didSelect
    split <;> exact hshown
  | @selectRemove game hmenu =>
    left
    unfold removeGame
    split <;> exact hshown
  | finishTapped =>
    left
    unfold finish
    split <;> exact hshown
  | viewWillDisappear => exact Or.inr rfl
  | viewWillAppear => exact Or.inl rfl
  | _ => exact Or.inl hshown

/-- Finish is not taken back. -/
theorem Moves.isFinished (h : s.Moves T e t) (ht : t.isFinished = false) :
    s.isFinished = false := by
  cases h with
  | didSelectItemAt hgame =>
    unfold didSelect at ht
    split at ht <;> exact ht
  | @selectRemove game hmenu =>
    unfold removeGame at ht
    split at ht <;> exact ht
  | finishTapped =>
    unfold finish at ht
    split at ht
    · exact ht
    · cases ht
  | viewWillDisappear => rwa [s.entered_disappear.2] at ht
  | _ => exact ht

/-- **An abandoned edit has no effect** on the catalogue in a run all of whose steps are
    restorable, whenever the screen is left. -/
theorem abandon_restores {catalogue : Catalogue} {stored : StoredGames}
    {events : List AddGamesEvent} (run : Run (step T) Restorable (opened catalogue stored) events t)
    (hleft : t.disappeared = true) (hfinished : t.isFinished = false) : t.AsEntered := by
  have hend := run.invariant
    (fun v => v.Restoring ∧ (v.disappeared = true → v.isFinished = false → v.AsEntered))
    (fun u e v hu hrestorable hst => ?_) ⟨.opened catalogue stored, fun hgone => (by cases hgone)⟩
  · exact hend.2 hleft hfinished
  · refine ⟨hu.1.step hrestorable hst, fun hgone hunfinished => ?_⟩
    have hmoves := moves_of_step hst
    have hbefore := hmoves.isFinished hunfinished
    cases hshown : u.disappeared with
    | true => exact (hu.2 hshown hbefore).step hu.1.allocated hshown hst hgone
    | false =>
      rcases hmoves.disappeared hshown with hstill | rfl
      · rw [hstill] at hgone
        cases hgone
      · exact hu.1.asEntered_disappear hbefore

/-- Chess is chosen, the screen is left and comes back, chess is removed and chosen once more, and
    the screen is left again. -/
def leavesTwice : List AddGamesEvent :=
  [.fetchedUsersGames, .didSelectItemAt 0, .selectRemove, .didSelectItemAt 0,
    .selectPlatform "Mobile", .viewWillDisappear, .viewWillAppear, .didSelectItemAt 0,
    .selectRemove, .didSelectItemAt 0, .selectPlatform "PC", .viewWillDisappear]

theorem abandon_restores_chess : ∃ t,
    Run (step .plain) Restorable (opened chessOnly storedChess) leavesTwice t ∧ t.AsEntered := by
  have hend : ((exec (step .plain) (fun s e => decide (s.Restorable e))
      (opened chessOnly storedChess) leavesTwice).map fun t => (t.disappeared, t.isFinished)) =
        some (true, false) := by
    decide +kernel
  obtain ⟨t, hexec, ht⟩ := Option.map_eq_some_iff.mp hend
  obtain ⟨hleft, hfinished⟩ := Prod.mk.inj ht
  have run : Run (step .plain) Restorable (opened chessOnly storedChess) _ t :=
    run_of_exec (fun _ _ h => of_decide_eq_true h) hexec
  exact ⟨t, run, abandon_restores run hleft hfinished⟩

/-- Nothing is stored.  Chess is chosen, the stored games arrive, and the screen is left: chess
    keeps the platform. -/
theorem not_always_asEntered : ¬ ∀ (catalogue : Catalogue) (stored : StoredGames)
    (events : List AddGamesEvent) (t : AddGames),
    Run (step .plain) (fun _ _ => True) (opened catalogue stored) events t →
      t.disappeared = true → t.isFinished = false → t.AsEntered := by
  intro hall
  have hend : ((exec (step .plain) (fun _ _ => true) (opened chessOnly ⟨[], List.nodup_nil⟩)
      [.didSelectItemAt 0, .selectPlatform "PC", .fetchedUsersGames, .viewWillDisappear]).map
        fun t => (t.disappeared, t.isFinished, t.games, (t.heap 0).playerPlatform, t.entered 0)) =
      some (true, false, [0], some "PC", none) := by
    decide +kernel
  obtain ⟨t, hexec, ht⟩ := Option.map_eq_some_iff.mp hend
  simp only [Prod.mk.injEq] at ht
  obtain ⟨hleft, hfinished, hgames, hplatform, hentered⟩ := ht
  have hasEntered := hall chessOnly ⟨[], List.nodup_nil⟩ _ t
    (run_of_exec (fun _ _ _ => trivial) hexec) hleft hfinished 0 (by simp [hgames])
  rw [hplatform, hentered] at hasEntered
  cases hasEntered

end AddGames

end TeamUp
