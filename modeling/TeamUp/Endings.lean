import TeamUp.Draining
import TeamUp.Cleanup
import TeamUp.Players

/-!
# Operations of the app come to an end

Renewing the lists is the longest chain of callbacks: the games of the user are fetched,
then the user, then the entries in the list of every game of the catalogue.  No callback
leads back to an earlier one, so every operation comes to an end, among whatever others.
-/

namespace TeamUp

open Protocol

variable {catalogue : List Game}

/-- The steps a callback causes at most, its own run included. -/
def callbackCost (catalogue : List Game) : Callback → Nat
  | .requestPlayerToTeamUp _ _ => 2
  | .goOnlineForGame _ _ _ => 3
  | .goOfflineForGame _ => 2
  | .editUserLFGInfo _ => 3 * catalogue.length + 3
  | .updateUserLFG _ _ => 3 * catalogue.length + 1
  | .updateGameLFG _ _ _ => 2

abbrev commandsCost (catalogue : List Game) (commands : Commands) : Nat :=
  (commands.map (Command.cost (callbackCost catalogue))).sum

theorem cost_updateUserLFGRead (username : String) (games : List Game) (snapshot : Tree) :
    commandsCost catalogue (updateUserLFGRead catalogue username games snapshot) ≤
      3 * catalogue.length := by
  unfold updateUserLFGRead commandsCost
  split
  · simp [Function.comp_def, Command.cost, callbackCost, Nat.mul_comm]
  · simp

theorem cost_updateGameLFGRead (game : Game) (games : List Game)
    (lfgDictionary : Option Dictionary) (snapshot : Tree) (freshId : String) :
    commandsCost catalogue (updateGameLFGRead game games lfgDictionary snapshot freshId) ≤ 1 := by
  unfold updateGameLFGRead commandsCost
  split <;> split <;> simp [Command.cost]

/-- **Renewing the lists costs most**: two fetches, and for each game of the catalogue an answer,
    its callback and a write. -/
theorem costs (catalogue : List Game) :
    (app catalogue).Costs (callbackCost catalogue) (3 * catalogue.length + 5) where
  begin := fun client op id => by
    change commandsCost catalogue (begin client op id) ≤ _
    cases op with
    | markDirectChatMessagesAsRead chat =>
      simp only [begin, markDirectChatMessagesAsRead]
      split <;> simp [commandsCost, Command.cost]
    | _ =>
      simp [begin, commandsCost, Command.cost, callbackCost, requestPlayerToTeamUp,
        acceptTeammateRequest, declineTeammateRequest, removeTeammate, sendDirectMessage,
        deleteDirectChat, goOnlineForGame, goOfflineForGame, updateBio, editRegion, editMicStatus,
        setProfilePicture, editProfile, editUserLFGInfo, updateUserGames, updateUserLFG,
        storeFCMToken]
      try omega
  resume := fun client k response id => by
    change commandsCost catalogue (resume catalogue k response id) < _
    cases k with
    | requestPlayerToTeamUp currentUserName username =>
      simp only [resume, requestPlayerToTeamUpRead]
      split <;> simp [commandsCost, Command.cost, callbackCost]
    | goOnlineForGame currentUser game now =>
      simp only [resume, goOnlineForGameRead]
      split <;> simp [commandsCost, Command.cost, callbackCost]
    | goOfflineForGame game =>
      simp only [resume, goOfflineForGameRead]
      split <;> simp [commandsCost, Command.cost, callbackCost]
    | editUserLFGInfo currentUser =>
      simp only [resume, editUserLFGInfoRead]
      split <;> simp [commandsCost, Command.cost, callbackCost, updateUserLFG]
    | updateUserLFG username games =>
      exact Nat.lt_succ_of_le (cost_updateUserLFGRead username games response)
    | updateGameLFG game games lfgDictionary =>
      exact Nat.lt_succ_of_le (cost_updateGameLFGRead game games lfgDictionary response id)

theorem exists_answer (query : Query) (db : Tree) : ∃ snapshot, query.answers db snapshot = true :=
  ⟨query.snapshot db, decide_eq_true (PathTree.Same.refl _)⟩

/-- **Every operation comes to an end, whatever else is under way**: from rest, the deliveries,
    answers and callbacks of a run are at most `3 n + 5` for each operation started, where `n`
    is the number of games; and wherever such steps lead, further ones lead to rest, with the
    writes of each session delivered in order. -/
theorem operations_end {ok : State → Event → Prop} {db : Tree} {ids : List String}
    {events later : List Event} {t u : State}
    (run : (app catalogue).Run ok (State.initial db ids) events t)
    (hlater : (app catalogue).Run (fun _ e => e.internal = true) t later u) :
    events.countP Action.internal + later.length ≤
        (3 * catalogue.length + 5) * events.countP Action.starts ∧
      ∃ rest v, (app catalogue).Run (fun s e => e.internal = true ∧ InOrder s e) u rest v ∧
        v.Quiescent := by
  constructor
  · have hinternal : ∀ e ∈ later, e.internal = true := by
      intro e he
      obtain ⟨_, _, _, _, -, -, hok, -⟩ := hlater.step_of_mem he
      exact hok
    have hall : later.countP Action.internal = later.length :=
      List.countP_eq_length.mpr hinternal
    have hnone : later.countP Action.starts = 0 := by
      refine List.countP_eq_zero.mpr fun e he => ?_
      have he' := hinternal e he
      cases e <;> simp_all [Action.internal, Action.starts]
    have hbefore := (costs catalogue).run run
    have hafter := (costs catalogue).run hlater
    have hrest : Protocol.potential (callbackCost catalogue) (State.initial db ids) = 0 := rfl
    rw [hall, hnone, Nat.mul_zero] at hafter
    omega
  · exact (costs catalogue).exists_rest exists_answer (exists_mintable catalogue) u

theorem operations_end_choosesAndPlays :
    ∃ t u, (app [chess]).exec (fun _ _ => true) (State.initial (profiles aliceAndBob) [])
        (choosesAndPlays.take 3) = some t ∧
      (app [chess]).exec (fun _ e => e.internal) t [.resume 0 "-2", .serve 0 .empty] = some u ∧
      2 + 2 ≤ 8 * 1 ∧
      ∃ rest v, (app [chess]).Run (fun s e => e.internal = true ∧ InOrder s e) u rest v ∧
        v.Quiescent := by
  have hend : (((app [chess]).exec (fun _ _ => true) (State.initial (profiles aliceAndBob) [])
      (choosesAndPlays.take 3)).bind fun t =>
        (app [chess]).exec (fun _ e => e.internal) t
          [.resume 0 "-2", .serve 0 .empty]).isSome = true := by
    decide +kernel
  obtain ⟨u, hu⟩ := Option.isSome_iff_exists.mp hend
  obtain ⟨t, ht, hlater⟩ := Option.bind_eq_some_iff.mp hu
  have run : (app [chess]).Run (fun _ _ => True) (State.initial (profiles aliceAndBob) [])
      (choosesAndPlays.take 3) t := run_of_exec (fun _ _ _ => trivial) ht
  exact ⟨t, u, ht, hlater, operations_end run (run_of_exec (fun _ _ h => h) hlater)⟩

end TeamUp
