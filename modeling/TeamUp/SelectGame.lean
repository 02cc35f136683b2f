import TeamUp.ListScreens

/-!
# The screen on which a game is chosen to go online

`SelectGameViewController` lists the games of the user, asks with a prompt for the game of the
cell that is tapped, and goes online for it when the prompt is accepted.  The prompt can be
tapped until its dismissal has been animated, and every acceptance goes online once more; the
chosen game is not forgotten as the teammate to remove is.  With one acceptance for a prompt
the screen goes online once at most, since it is dismissed together with the prompt.
-/

namespace TeamUp

structure SelectGameScreen where
  /-- The games of the user, once they have been fetched. -/
  games : List Game
  fetching : Bool
  rows : Rows Game
  selectedGame : Option Game
  /-- The prompt that is presented, with the game its title names. -/
  prompt : Option (Game × PromptUser)
  promptAccepted : Bool
  dismissed : Bool
  /-- The calls of `gameSelected`, each of which goes online for the game. -/
  gone : List Game
  /-- The games named by the prompts so far, and shown by the cells that were tapped. -/
  prompted : List Game
  tapped : List Game

inductive SelectGameEvent where
  | gamesFetched (games : List Game)
  | reload
  | layout
  | cellForItemAt (row : Nat)
  | didSelectItemAt (row : Nat)
  | prompt (e : PromptEvent)
  | exitPressed

namespace SelectGameScreen

def created : SelectGameScreen :=
  { games := [], fetching := true, rows := .created, selectedGame := none, prompt := none
    promptAccepted := false, dismissed := false, gone := [], prompted := [], tapped := [] }

/-- `didSelectItemAt` with `requiresConfirmation`. -/
def didSelectItemAt (s : SelectGameScreen) (shown game : Game) : SelectGameScreen :=
  { s with
    selectedGame := some game, prompt := some (game, .opened (-1) true)
    prompted := s.prompted ++ [game], tapped := s.tapped ++ [shown] }

def userAcceptedPrompt (s : SelectGameScreen) : SelectGameScreen :=
  match s.selectedGame with
  | some game => { s with promptAccepted := true, gone := s.gone ++ [game] }
  | none => s

def promptDismissed (s : SelectGameScreen) : SelectGameScreen :=
  if s.promptAccepted then { s with dismissed := true } else s

def withPrompt (s : SelectGameScreen) (game : Game) (prompt : PromptUser) : SelectGameScreen :=
  if prompt.presented then { s with prompt := some (game, prompt) }
  else { s with prompt := none }.promptDismissed

/-- The prompt covers the screen, and a screen that is dismissed takes no taps. -/
def step (s : SelectGameScreen) : SelectGameEvent → Option SelectGameScreen
  | .gamesFetched games =>
      if s.fetching then some { s with games, fetching := false, rows := s.rows.post } else none
  | .reload => s.rows.reload.map fun rows => { s with rows }
  | .layout => (s.rows.layout s.games).map fun rows => { s with rows }
  | .cellForItemAt row => (s.rows.cellForItemAt s.games row).map fun rows => { s with rows }
  | .didSelectItemAt row =>
      if s.dismissed || s.prompt.isSome || s.rows.view.needsReload then none
      else (s.rows.shown row).bind fun shown =>
        s.games[row]?.map fun game => s.didSelectItemAt shown game
  | .prompt e => s.prompt.bind fun (game, prompt) => (prompt.step e).map fun prompt =>
      if e = .acceptTapped then (s.withPrompt game prompt).userAcceptedPrompt
      else s.withPrompt game prompt
  | .exitPressed =>
      if s.dismissed || s.prompt.isSome then none else some { s with dismissed := true }

/-- Cells are tapped when no reload is due, and a prompt that was accepted or cancelled is not
    accepted while its dismissal is animated. -/
def Deliberate (s : SelectGameScreen) : SelectGameEvent → Prop
  | .didSelectItemAt _ => s.rows.Idle
  | .prompt .acceptTapped => ∀ p ∈ s.prompt, p.2.dismissing = 0
  | _ => True

instance (s : SelectGameScreen) (e : SelectGameEvent) : Decidable (s.Deliberate e) := by
  rcases e with _ | _ | _ | _ | _ | (_ | _ | _ | _) | _ <;> dsimp only [Deliberate] <;>
    infer_instance

/-- What the next acceptance goes online for. -/
def pending (s : SelectGameScreen) : List Game :=
  if s.promptAccepted then [] else (s.prompt.map Prod.fst).toList

structure Meant (s : SelectGameScreen) : Prop where
  current : s.rows.Current s.games
  named : ∀ p ∈ s.prompt, s.selectedGame = some p.1
  live : ∀ p ∈ s.prompt, p.2.presented = true ∧ s.dismissed = false
  gone : (s.gone ++ s.pending).Sublist s.prompted
  prompted : s.prompted.Sublist s.tapped
  once : s.gone.length = if s.promptAccepted then 1 else 0
  accepted : s.promptAccepted = true →
    s.dismissed = true ∨ ∃ p ∈ s.prompt, 0 < p.2.dismissing

variable {s t : SelectGameScreen} {e : SelectGameEvent}

theorem meant_created : created.Meant where
  current := Rows.current_created _
  named := fun p hp => by cases hp
  live := fun p hp => by cases hp
  gone := List.Sublist.slnil
  prompted := List.Sublist.slnil
  once := rfl
  accepted := fun haccepted => by cases haccepted

theorem Meant.didSelectItemAt (h : s.Meant) (hdismissed : s.dismissed = false)
    (hprompt : s.prompt = none) (game : Game) : (s.didSelectItemAt game game).Meant := by
  have hnot : s.promptAccepted = false := by
    by_contra haccepted
    rcases h.accepted (eq_true_of_ne_false haccepted) with hgone | ⟨p, hp, -⟩
    · exact absurd hgone (by simp [hdismissed])
    · rw [hprompt] at hp
      cases hp
  have hgone := (List.sublist_append_left s.gone s.pending).trans h.gone
  constructor
  case current => exact h.current
  case named =>
    intro p hp
    cases hp
    rfl
  case live =>
    intro p hp
    cases hp
    exact ⟨rfl, hdismissed⟩
  case gone => simpa [pending, SelectGameScreen.didSelectItemAt, hnot] using hgone
  case prompted => exact h.prompted.append (List.Sublist.refl [game])
  case once => exact h.once
  case accepted =>
    intro (haccepted : s.promptAccepted = true)
    rw [hnot] at haccepted
    cases haccepted

/-- A prompt that stays has as many dismissals under way as before, or more. -/
theorem dismissing_le_of_presented {p q : PromptUser} {e : PromptEvent}
    (hst : p.step e = some q) (hp : p.presented = true) (hq : q.presented = true) :
    p.dismissing ≤ q.dismissing ∧ (e = .acceptTapped → q.dismissing = p.dismissing + 1) := by
  rcases PromptUser.step_cases hst with ⟨rfl, -, rfl⟩ | ⟨rfl, -, rfl⟩ | ⟨rfl, -, -, rfl⟩ |
    ⟨rfl, -, rfl⟩
  · refine ⟨?_, fun h => by cases h⟩
    unfold PromptUser.timerFired
    split_ifs <;> simp [PromptUser.handleDismiss]
  · exact ⟨Nat.le_succ _, fun h => by cases h⟩
  · exact ⟨Nat.le_succ _, fun _ => rfl⟩
  · simp [PromptUser.animationCompleted, hp] at hq

theorem Meant.withPrompt (h : s.Meant) {game : Game} {p q : PromptUser} {e : PromptEvent}
    (hprompt : s.prompt = some (game, p)) (hst : p.step e = some q) :
    (s.withPrompt game q).Meant := by
  obtain ⟨hpresented, hdismissed⟩ := h.live (game, p) hprompt
  have hpending : s.pending = if s.promptAccepted then [] else [game] := by
    simp [pending, hprompt]
  unfold SelectGameScreen.withPrompt
  split_ifs with hq
  · constructor
    case current => exact h.current
    case named =>
      intro p' hp'
      cases hp'
      exact h.named (game, p) hprompt
    case live =>
      intro p' hp'
      cases hp'
      exact ⟨hq, hdismissed⟩
    case gone =>
      have hgone := h.gone
      rw [hpending] at hgone
      simpa [pending] using hgone
    case prompted => exact h.prompted
    case once => exact h.once
    case accepted =>
      intro haccepted
      rcases h.accepted haccepted with hgone | ⟨p', hp', hdismissing⟩
      · exact Or.inl hgone
      · rw [hprompt] at hp'
        cases hp'
        have hle := (dismissing_le_of_presented hst hpresented hq).1
        exact Or.inr ⟨(game, q), rfl, Nat.lt_of_lt_of_le hdismissing hle⟩
  · have hgone := (List.sublist_append_left s.gone s.pending).trans h.gone
    unfold SelectGameScreen.promptDismissed
    split_ifs with haccepted
    · refine ⟨h.current, fun p hp => (by cases hp), fun p hp => (by cases hp), ?_, h.prompted,
        h.once, fun _ => Or.inl rfl⟩
      simpa [pending] using hgone
    · refine ⟨h.current, fun p hp => (by cases hp), fun p hp => (by cases hp), ?_, h.prompted,
        h.once, fun hyes => (haccepted hyes).elim⟩
      simpa [pending] using hgone

/-- The first acceptance of a prompt goes online for the game it names. -/
theorem Meant.userAcceptedPrompt (h : s.Meant) {game : Game} {p : PromptUser}
    (hprompt : s.prompt = some (game, p)) (hdismissing : 0 < p.dismissing)
    (hnot : s.promptAccepted = false) : s.userAcceptedPrompt.Meant := by
  have hselected : s.selectedGame = some game := h.named (game, p) hprompt
  have hgone := h.gone
  have honce := h.once
  have hpending : s.pending = [game] := by simp [pending, hnot, hprompt]
  rw [hpending] at hgone
  rw [hnot] at honce
  simp only [SelectGameScreen.userAcceptedPrompt, hselected]
  constructor
  case current => exact h.current
  case named => exact fun p' hp' => hselected ▸ h.named p' hp'
  case live => exact h.live
  case gone => simpa [pending] using hgone
  case prompted => exact h.prompted
  case once => simpa using honce
  case accepted => exact fun _ => Or.inr ⟨(game, p), hprompt, hdismissing⟩

theorem Meant.step (h : s.Meant) (hidle : s.Deliberate e) (hst : s.step e = some t) :
    t.Meant := by
  cases e with
  | gamesFetched games =>
    obtain ⟨-, rfl⟩ := of_guarded hst
    exact ⟨Rows.current_post _ _, h.named, h.live, h.gone, h.prompted, h.once, h.accepted⟩
  | reload =>
    obtain ⟨rows, hrows, rfl⟩ := Option.map_eq_some_iff.mp hst
    exact ⟨Rows.current_reload hrows, h.named, h.live, h.gone, h.prompted, h.once, h.accepted⟩
  | layout =>
    obtain ⟨rows, hrows, rfl⟩ := Option.map_eq_some_iff.mp hst
    exact ⟨Rows.current_layout hrows, h.named, h.live, h.gone, h.prompted, h.once, h.accepted⟩
  | cellForItemAt row =>
    obtain ⟨rows, hrows, rfl⟩ := Option.map_eq_some_iff.mp hst
    exact ⟨h.current.cellForItemAt hrows, h.named, h.live, h.gone, h.prompted, h.once, h.accepted⟩
  | didSelectItemAt row =>
    simp only [SelectGameScreen.step] at hst
    split at hst
    · cases hst
    · rename_i hfree
      simp only [Bool.or_eq_true, not_or, Bool.not_eq_true, Option.isSome_eq_false_iff,
        Option.isNone_iff_eq_none] at hfree
      obtain ⟨shown, hshown, hgame⟩ := Option.bind_eq_some_iff.mp hst
      obtain ⟨game, hget, rfl⟩ := Option.map_eq_some_iff.mp hgame
      obtain rfl : shown = game :=
        Option.some.inj ((h.current.shown hidle hshown).symm.trans hget)
      exact h.didSelectItemAt hfree.1.1 hfree.1.2 shown
  | prompt e =>
    obtain ⟨⟨game, p⟩, hprompt, hstep⟩ := Option.bind_eq_some_iff.mp hst
    obtain ⟨q, hq, rfl⟩ := Option.map_eq_some_iff.mp hstep
    have hkept := h.withPrompt hprompt hq
    by_cases haccept : e = .acceptTapped
    · subst haccept
      have hpresented := PromptUser.presented_of_accepted hq
      obtain ⟨hbefore, hdismissed⟩ := h.live (game, p) hprompt
      have hdismissing := (dismissing_le_of_presented hq hbefore hpresented).2 rfl
      have hnot : s.promptAccepted = false := by
        by_contra haccepted
        rcases h.accepted (eq_true_of_ne_false haccepted) with hgone | ⟨p', hp', hunder⟩
        · exact absurd hgone (by simp [hdismissed])
        · exact absurd (hidle p' hp') (Nat.ne_of_gt hunder)
      have hwith : s.withPrompt game q = { s with prompt := some (game, q) } := if_pos hpresented
      rw [if_pos rfl]
      rw [hwith] at hkept ⊢
      exact hkept.userAcceptedPrompt rfl (by omega) hnot
    · rw [if_neg haccept]
      exact hkept
  | exitPressed =>
    simp only [SelectGameScreen.step] at hst
    split at hst
    · cases hst
    · rename_i hfree
      simp only [Bool.or_eq_true, not_or, Bool.not_eq_true, Option.isSome_eq_false_iff,
        Option.isNone_iff_eq_none] at hfree
      obtain rfl := Option.some.inj hst
      refine ⟨h.current, h.named, fun p hp => ?_, h.gone, h.prompted, h.once, fun _ => Or.inl rfl⟩
      have hnone : s.prompt = some p := hp
      rw [hfree.2] at hnone
      cases hnone

/-- **The screen goes online once at most, for a game that its prompt named and whose cell was
    tapped**, and if it has been accepted it goes away with the prompt. -/
theorem online_once {events : List SelectGameEvent}
    (run : Run step Deliberate created events t) :
    t.gone.length ≤ 1 ∧ t.gone.Sublist t.prompted ∧ t.prompted.Sublist t.tapped ∧
      (t.gone ≠ [] → t.prompt = none → t.dismissed = true) := by
  have hmeant := run.invariant Meant (fun u e v hu hidle hst => hu.step hidle hst) meant_created
  have honce := hmeant.once
  refine ⟨?_, (List.sublist_append_left _ _).trans hmeant.gone, hmeant.prompted, ?_⟩
  · split at honce <;> omega
  · intro hgone hprompt
    split at honce
    · rename_i haccepted
      refine (hmeant.accepted haccepted).resolve_right ?_
      rintro ⟨p, hp, -⟩
      rw [hprompt] at hp
      cases hp
    · exact (hgone (List.eq_nil_of_length_eq_zero honce)).elim

def choosesChess : List SelectGameEvent :=
  [.gamesFetched [chess], .reload, .layout, .cellForItemAt 0, .didSelectItemAt 0,
    .prompt .dismissTapped, .prompt .animationCompleted, .didSelectItemAt 0,
    .prompt .acceptTapped, .prompt .dismissTapped, .prompt .animationCompleted]

theorem online_once_choosesChess :
    ∃ t, exec step (fun s e => decide (s.Deliberate e)) created choosesChess = some t ∧
      t.gone = [chess] ∧ t.dismissed = true := by
  have hend : (exec step (fun s e => decide (s.Deliberate e)) created choosesChess).map
      (fun t => (t.gone, t.prompt.isNone)) = some ([chess], true) := by
    decide +kernel
  obtain ⟨t, ht, hrest⟩ := Option.map_eq_some_iff.mp hend
  obtain ⟨hgone, hprompt⟩ := Prod.mk.inj hrest
  obtain ⟨-, -, -, hdismissed⟩ := online_once (run_of_exec (fun s e h => of_decide_eq_true h) ht)
  exact ⟨t, ht, hgone, hdismissed (by simp [hgone]) (Option.isNone_iff_eq_none.mp hprompt)⟩

end SelectGameScreen

end TeamUp
