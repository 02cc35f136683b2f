import Mathlib.Algebra.Order.Archimedean.Basic
import Mathlib.Algebra.Order.Ring.Rat
import Mathlib.Tactic.Linarith
import TeamUp.Runs

/-!
# The prompt with a countdown

A `PromptUserViewController` counts its `timerLength` down, one a second, and dismisses
itself at the first tick that finds nothing left.  A dismissal, by a tap or by the
countdown, is animated, and only when the animation is over does the prompt tell its
delegate; it tells it `timerEnded` if `timerLength` is 0 then.  That is right exactly when
the length is a whole number of seconds or the user dismisses the prompt, and the user
neither dismisses it in the last second nor so late that the tick leading there comes
during the animation.
-/

namespace TeamUp

/-- The calls to the delegate of a prompt. -/
inductive PromptCall where
  | userAcceptedPrompt
  | timerUpdated (currentTime : Rat)
  | timerEnded
  | promptDismissed
deriving DecidableEq

inductive Dismisser where
  | user
  | countdown
deriving DecidableEq

/-- A `PromptUserViewController` that has been presented. -/
structure PromptUser where
  /-- A `Double`: what is below 2 ^ 53 and at least 1 loses 1 exactly, and what is below 1
      becomes negative. -/
  timerLength : Rat
  /-- The repeating timer is scheduled and has not been invalidated. -/
  timer : Bool
  acceptButtonEnabled : Bool
  /-- It is on the screen, which is what keeps it alive. -/
  presented : Bool
  /-- The dismissal animations whose completion has not run. -/
  dismissing : Nat
  calls : List PromptCall
  /-- Who called `handleDismiss` first, which the code does not record. -/
  dismissedBy : Option Dismisser
deriving DecidableEq

inductive PromptEvent where
  | tick
  /-- A tap on the cross, on the cancel button or on the background. -/
  | dismissTapped
  | acceptTapped
  /-- The completion of a dismissal animation. -/
  | animationCompleted
deriving DecidableEq

namespace PromptUser

/-- `viewDidLoad`, with `setTimer`. -/
def opened (timerLength : Rat) (acceptButtonEnabled : Bool) : PromptUser :=
  { timerLength, acceptButtonEnabled, timer := decide (0 < timerLength)
    presented := true, dismissing := 0, calls := [], dismissedBy := none }

def handleDismiss (s : PromptUser) (dismisser : Dismisser) : PromptUser :=
  { s with dismissing := s.dismissing + 1, dismissedBy := s.dismissedBy.or (some dismisser) }

/-- The completion of the animation, with that of the dismissal: the prompt is no longer alive
    in the completion of another animation. -/
def animationCompleted (s : PromptUser) : PromptUser :=
  let s := { s with dismissing := s.dismissing - 1 }
  if s.presented then
    { s with
      presented := false
      calls := s.calls ++ (if s.timerLength = 0 then [.timerEnded] else []) ++ [.promptDismissed] }
  else s

/-- The timer holds the prompt weakly, and outlives it. -/
def timerFired (s : PromptUser) : PromptUser :=
  if s.presented then
    if 0 < s.timerLength then
      { s with
        calls := s.calls ++ [.timerUpdated s.timerLength], timerLength := s.timerLength - 1 }
    else { s with timer := false }.handleDismiss .countdown
  else s

def handleAccept (s : PromptUser) : PromptUser :=
  { s with calls := s.calls ++ [PromptCall.userAcceptedPrompt] }.handleDismiss .user

def step (s : PromptUser) : PromptEvent → Option PromptUser
  | .tick => if s.timer then some s.timerFired else none
  | .dismissTapped => if s.presented then some (s.handleDismiss .user) else none
  | .acceptTapped => if s.presented && s.acceptButtonEnabled then some s.handleAccept else none
  | .animationCompleted => if 0 < s.dismissing then some s.animationCompleted else none

/-! ### What is wanted -/

/-- The delegate hears `promptDismissed` once the prompt is dismissed, and `timerEnded` if the
    countdown dismissed it. -/
def Honest (s : PromptUser) : Prop :=
  s.calls.count .timerEnded =
      (if s.presented = false ∧ s.dismissedBy = some .countdown then 1 else 0) ∧
    s.calls.count .promptDismissed = if s.presented then 0 else 1

instance (s : PromptUser) : Decidable s.Honest := inferInstanceAs (Decidable (_ ∧ _))

/-- The user does not dismiss the prompt when nothing is left of the countdown, no tick uses it
    up while a dismissal by the user is animated, and a countdown that dismisses the prompt
    has left exactly nothing. -/
def Timely (s : PromptUser) : PromptEvent → Prop
  | .tick => s.presented = true →
      (s.dismissedBy = some .user → s.timerLength ≠ 1) ∧
      (s.dismissedBy = none → s.timerLength ≤ 0 → s.timerLength = 0)
  | .dismissTapped | .acceptTapped => s.dismissedBy = none → s.timerLength ≠ 0
  | .animationCompleted => True

instance (s : PromptUser) (e : PromptEvent) : Decidable (s.Timely e) := by
  unfold Timely
  split <;> infer_instance

/-! ### The invariants -/

/-- What the prompt has told its delegate, and what it goes by. -/
structure Consistent (s : PromptUser) : Prop where
  idle : s.dismissedBy = none ↔ s.dismissing = 0 ∧ s.presented = true
  timer : s.dismissedBy = some .countdown → s.timer = false
  ended : s.calls.count .timerEnded = if s.presented = false ∧ s.timerLength = 0 then 1 else 0
  dismissed : s.calls.count .promptDismissed = if s.presented then 0 else 1

/-- What is left of the countdown tells who dismissed the prompt. -/
def Tells (s : PromptUser) : Prop :=
  ∀ dismisser, s.dismissedBy = some dismisser → (s.timerLength = 0 ↔ dismisser = .countdown)

variable {s t : PromptUser} {e : PromptEvent}

theorem consistent_opened (timerLength : Rat) (acceptButtonEnabled : Bool) :
    (opened timerLength acceptButtonEnabled).Consistent where
  idle := by simp [opened]
  timer := fun h => (by cases h)
  ended := by simp [opened]
  dismissed := by simp [opened]

theorem tells_opened (timerLength : Rat) (acceptButtonEnabled : Bool) :
    (opened timerLength acceptButtonEnabled).Tells := by
  intro dismisser h
  cases h

/-! ### What an event does -/

theorem step_cases (hst : s.step e = some t) :
    (e = .tick ∧ s.timer = true ∧ t = s.timerFired) ∨
    (e = .dismissTapped ∧ s.presented = true ∧ t = s.handleDismiss .user) ∨
    (e = .acceptTapped ∧ s.presented = true ∧ s.acceptButtonEnabled = true ∧
      t = s.handleAccept) ∨
    (e = .animationCompleted ∧ 0 < s.dismissing ∧ t = s.animationCompleted) := by
  cases e with
  | tick =>
    obtain ⟨htimer, rfl⟩ := of_guarded hst
    exact Or.inl ⟨rfl, htimer, rfl⟩
  | dismissTapped =>
    obtain ⟨hpresented, rfl⟩ := of_guarded hst
    exact Or.inr (Or.inl ⟨rfl, hpresented, rfl⟩)
  | acceptTapped =>
    obtain ⟨hboth, rfl⟩ := of_guarded hst
    obtain ⟨hpresented, henabled⟩ := (Bool.and_eq_true _ _).mp hboth
    exact Or.inr (Or.inr (Or.inl ⟨rfl, hpresented, henabled, rfl⟩))
  | animationCompleted =>
    obtain ⟨hdismissing, rfl⟩ := of_guarded hst
    exact Or.inr (Or.inr (Or.inr ⟨rfl, hdismissing, rfl⟩))

theorem timerFired_of_pos (hpresented : s.presented = true) (hpos : 0 < s.timerLength) :
    s.timerFired = { s with
      calls := s.calls ++ [.timerUpdated s.timerLength], timerLength := s.timerLength - 1 } := by
  simp [timerFired, hpresented, hpos]

theorem timerFired_of_le (hpresented : s.presented = true) (hle : s.timerLength ≤ 0) :
    s.timerFired = { s with timer := false }.handleDismiss .countdown := by
  simp [timerFired, hpresented, not_lt.mpr hle]

theorem timerFired_of_not_presented (hpresented : s.presented = false) : s.timerFired = s := by
  simp [timerFired, hpresented]

/-! ### The prompt stays consistent -/

/-- A dismissal tells the delegate nothing yet. -/
theorem Consistent.handleDismiss (h : s.Consistent) (hpresented : s.presented = true)
    {dismisser : Dismisser} (htimer : dismisser = .countdown → s.timer = false) :
    (s.handleDismiss dismisser).Consistent where
  idle := by
    constructor
    · intro hnone
      simp [PromptUser.handleDismiss] at hnone
    · rintro ⟨hzero, -⟩
      simp [PromptUser.handleDismiss] at hzero
  timer := by
    intro hby
    cases hbefore : s.dismissedBy with
    | none =>
      simp only [PromptUser.handleDismiss, hbefore, Option.none_or, Option.some.injEq] at hby
      exact htimer hby
    | some first =>
      simp only [PromptUser.handleDismiss, hbefore, Option.some_or, Option.some.injEq] at hby
      exact h.timer (by rw [hbefore, hby])
  ended := by
    have hended := h.ended
    rw [hpresented] at hended
    simpa [PromptUser.handleDismiss, hpresented] using hended
  dismissed := h.dismissed

theorem Consistent.animationCompleted (h : s.Consistent) (hdismissing : 0 < s.dismissing) :
    s.animationCompleted.Consistent := by
  have hsome : s.dismissedBy ≠ none := by
    intro hnone
    have := (h.idle.mp hnone).1
    omega
  cases hpresented : s.presented with
  | false =>
    have hsame : s.animationCompleted = { s with dismissing := s.dismissing - 1 } := by
      simp [PromptUser.animationCompleted, hpresented]
    rw [hsame]
    refine ⟨⟨fun hnone => (hsome hnone).elim, ?_⟩, h.timer, h.ended, h.dismissed⟩
    rintro ⟨-, hagain⟩
    rw [hpresented] at hagain
    cases hagain
  | true =>
    have hended := h.ended
    have hdismissed := h.dismissed
    rw [hpresented] at hended hdismissed
    have hnow : s.animationCompleted = { s with
        dismissing := s.dismissing - 1, presented := false
        calls := s.calls ++ (if s.timerLength = 0 then [.timerEnded] else []) ++
          [.promptDismissed] } := by
      simp [PromptUser.animationCompleted, hpresented]
    rw [hnow]
    refine ⟨⟨fun hnone => (hsome hnone).elim, ?_⟩, h.timer, ?_, ?_⟩
    · rintro ⟨-, hagain⟩
      cases hagain
    · simp only [Bool.true_eq_false, false_and, if_false] at hended
      split <;> simp_all
    · simp only [if_true] at hdismissed
      split <;> simp_all

theorem Consistent.timerFired (h : s.Consistent) : s.timerFired.Consistent := by
  cases hpresented : s.presented with
  | false =>
    rw [timerFired_of_not_presented hpresented]
    exact h
  | true =>
    have hended := h.ended
    rw [hpresented] at hended
    rcases lt_or_ge 0 s.timerLength with hpos | hle
    · rw [timerFired_of_pos hpresented hpos]
      refine ⟨h.idle, h.timer, ?_, ?_⟩
      · simpa [hpresented] using hended
      · simpa using h.dismissed
    · have hstopped : ({ s with timer := false } : PromptUser).Consistent :=
        ⟨h.idle, fun _ => rfl, h.ended, h.dismissed⟩
      rw [timerFired_of_le hpresented hle]
      exact hstopped.handleDismiss hpresented fun _ => rfl

theorem Consistent.handleAccept (h : s.Consistent) (hpresented : s.presented = true) :
    s.handleAccept.Consistent := by
  have hcalled : ({ s with
      calls := s.calls ++ [PromptCall.userAcceptedPrompt] } : PromptUser).Consistent :=
    ⟨h.idle, h.timer, by simpa using h.ended, by simpa using h.dismissed⟩
  have hnever : Dismisser.user = .countdown → s.timer = false := by
    intro hby
    cases hby
  exact hcalled.handleDismiss hpresented hnever

theorem Consistent.step (h : s.Consistent) (hst : s.step e = some t) : t.Consistent := by
  rcases step_cases hst with ⟨-, -, rfl⟩ | ⟨-, hpresented, rfl⟩ | ⟨-, hpresented, -, rfl⟩ |
    ⟨-, hdismissing, rfl⟩
  · exact h.timerFired
  · exact h.handleDismiss hpresented (by simp)
  · exact h.handleAccept hpresented
  · exact h.animationCompleted hdismissing

/-! ### The steps that keep the time left telling -/

theorem tells_handleDismiss_iff (s : PromptUser) (dismisser : Dismisser) :
    (s.handleDismiss dismisser).Tells ↔
      s.Tells ∧ (s.dismissedBy = none → (s.timerLength = 0 ↔ dismisser = .countdown)) := by
  cases hby : s.dismissedBy with
  | none => simp [Tells, PromptUser.handleDismiss, hby]
  | some first => simp [Tells, PromptUser.handleDismiss, hby]

theorem tells_animationCompleted_iff : s.animationCompleted.Tells ↔ s.Tells := by
  cases hpresented : s.presented <;>
    simp [PromptUser.animationCompleted, hpresented, Tells]

theorem tells_timerFired_iff (h : s.Consistent) (htimer : s.timer = true) :
    s.timerFired.Tells ↔ s.Tells ∧ s.Timely .tick := by
  -- a countdown that dismissed the prompt has stopped
  have hrunning : s.dismissedBy ≠ some .countdown := by
    intro hby
    rw [h.timer hby] at htimer
    cases htimer
  cases hpresented : s.presented with
  | false => simp [timerFired_of_not_presented hpresented, Timely, hpresented]
  | true =>
    rcases lt_or_ge 0 s.timerLength with hpos | hle
    · have hne : s.timerLength ≠ 0 := ne_of_gt hpos
      rw [timerFired_of_pos hpresented hpos]
      rcases hby : s.dismissedBy with _ | _ | _
      · simp [Tells, Timely, hby, hpos]
      · simp [Tells, Timely, hby, hne, hpresented, sub_eq_zero]
      · exact (hrunning hby).elim
    · have hone : s.timerLength ≠ 1 := ne_of_lt (hle.trans_lt zero_lt_one)
      rw [timerFired_of_le hpresented hle, tells_handleDismiss_iff]
      simp [Tells, Timely, hpresented, hle, hone]

theorem tells_step_iff (h : s.Consistent) (hst : s.step e = some t) :
    t.Tells ↔ s.Tells ∧ s.Timely e := by
  rcases step_cases hst with ⟨rfl, htimer, rfl⟩ | ⟨rfl, -, rfl⟩ | ⟨rfl, -, -, rfl⟩ | ⟨rfl, -, rfl⟩
  · exact tells_timerFired_iff h htimer
  · simpa [Timely] using tells_handleDismiss_iff s .user
  · unfold PromptUser.handleAccept
    rw [tells_handleDismiss_iff]
    simp [Tells, Timely]
  · simp [tells_animationCompleted_iff, Timely]

/-- Once the prompt is dismissed, its delegate has heard the truth if what was left told it. -/
theorem Consistent.honest_iff (h : s.Consistent) (hdismissed : s.presented = false) :
    s.Honest ↔ s.Tells := by
  have hby : s.dismissedBy ≠ none := by
    intro hnone
    rw [(h.idle.mp hnone).2] at hdismissed
    cases hdismissed
  obtain ⟨dismisser, hsome⟩ := Option.ne_none_iff_exists'.mp hby
  have hended := h.ended
  have hcount := h.dismissed
  rw [hdismissed] at hended hcount
  simp only [true_and] at hended
  simp only [Honest, hended, hcount, hdismissed, Tells, hsome, true_and, Option.some.injEq,
    forall_eq', and_true]
  by_cases hzero : s.timerLength = 0 <;> cases dismisser <;> simp [hzero]

/-- While it is on the screen the delegate has heard of no end. -/
theorem Consistent.honest_of_presented (h : s.Consistent) (hpresented : s.presented = true) :
    s.Honest := by
  have hended := h.ended
  have hcount := h.dismissed
  rw [hpresented] at hended hcount
  simpa [Honest, hpresented] using And.intro hended hcount

/-! ### The prompt is dismissed in the end -/

/-- The timer of a prompt nobody has dismissed is running. -/
def Running (s : PromptUser) : Prop := s.dismissedBy = none → s.timer = true

theorem Running.step (h : s.Running) (hst : s.step e = some t) : t.Running := by
  intro hnone
  rcases step_cases hst with ⟨-, htimer, rfl⟩ | ⟨-, -, rfl⟩ | ⟨-, -, -, rfl⟩ | ⟨-, -, rfl⟩
  · cases hpresented : s.presented with
    | false =>
      rw [timerFired_of_not_presented hpresented]
      exact htimer
    | true =>
      rcases lt_or_ge 0 s.timerLength with hpos | hle
      · rw [timerFired_of_pos hpresented hpos]
        exact htimer
      · simp [timerFired_of_le hpresented hle, PromptUser.handleDismiss] at hnone
  · simp [PromptUser.handleDismiss] at hnone
  · simp [PromptUser.handleAccept, PromptUser.handleDismiss] at hnone
  · cases hpresented : s.presented <;>
      simp_all [PromptUser.animationCompleted, Running]

/-- A dismissal under way ends. -/
theorem dismissed_of_dismissing (hpresented : s.presented = true) (hdismissing : 0 < s.dismissing) :
    ∃ t, s.step .animationCompleted = some t ∧ t.presented = false := by
  refine ⟨s.animationCompleted, if_pos hdismissing, ?_⟩
  simp [PromptUser.animationCompleted, hpresented]

theorem Consistent.dismissed_within (h : s.Consistent) (hrunning : s.Running)
    (hpresented : s.presented = true) {seconds : Nat} (hle : s.timerLength ≤ seconds) :
    ∃ events t, Run PromptUser.step (fun _ _ => True) s events t ∧ t.presented = false := by
  induction seconds generalizing s with
  | zero =>
    by_cases hdismissing : 0 < s.dismissing
    · obtain ⟨t, hst, hdismissed⟩ := dismissed_of_dismissing hpresented hdismissing
      exact ⟨_, t, .snoc .nil trivial hst, hdismissed⟩
    · -- the tick that finds nothing left starts the dismissal
      have hnone := h.idle.mpr ⟨by omega, hpresented⟩
      have hst : s.step .tick = some ({ s with timer := false }.handleDismiss .countdown) := by
        rw [← timerFired_of_le hpresented (by simpa using hle)]
        simp [PromptUser.step, hrunning hnone]
      obtain ⟨t, hst', hdismissed⟩ := dismissed_of_dismissing
        (s := { s with timer := false }.handleDismiss .countdown) hpresented (Nat.succ_pos _)
      exact ⟨_, t, .snoc (.snoc .nil trivial hst) trivial hst', hdismissed⟩
  | succ seconds ih =>
    by_cases hdismissing : 0 < s.dismissing
    · obtain ⟨t, hst, hdismissed⟩ := dismissed_of_dismissing hpresented hdismissing
      exact ⟨_, t, .snoc .nil trivial hst, hdismissed⟩
    · have hnone := h.idle.mpr ⟨by omega, hpresented⟩
      have hst : s.step .tick = some s.timerFired := by
        simp [PromptUser.step, hrunning hnone]
      rcases lt_or_ge 0 s.timerLength with hpos | hover
      · have hticked := timerFired_of_pos hpresented hpos
        have hless : s.timerFired.timerLength ≤ seconds := by
          rw [hticked]
          push_cast at hle
          exact sub_le_iff_le_add.mpr hle
        have hstill : s.timerFired.presented = true := by
          rw [hticked]
          exact hpresented
        obtain ⟨events, t, run, hdismissed⟩ :=
          ih (h.step hst) (hrunning.step hst) hstill hless
        exact ⟨_, t, run.cons trivial hst, hdismissed⟩
      · exact ih h hrunning hpresented (hover.trans (Nat.cast_nonneg seconds))

end PromptUser

open PromptUser

variable {timerLength : Rat} {acceptButtonEnabled : Bool} {events : List PromptEvent}
  {s : PromptUser}

theorem consistent_of_run {ok : PromptUser → PromptEvent → Prop}
    (run : Run PromptUser.step ok (opened timerLength acceptButtonEnabled) events s) :
    s.Consistent :=
  run.invariant Consistent (fun _ _ _ hu _ hst => hu.step hst)
    (consistent_opened timerLength acceptButtonEnabled)

/-- Whatever has happened to a prompt with a countdown, it can be dismissed. -/
theorem prompt_dismissed (hpositive : 0 < timerLength)
    (run : Run PromptUser.step (fun _ _ => True) (opened timerLength acceptButtonEnabled)
      events s) :
    ∃ later t, Run PromptUser.step (fun _ _ => True) s later t ∧ t.presented = false := by
  cases hpresented : s.presented with
  | false => exact ⟨[], s, .nil, hpresented⟩
  | true =>
    have hrunning : s.Running :=
      run.invariant Running (fun _ _ _ hu _ hst => hu.step hst)
        fun _ => decide_eq_true hpositive
    obtain ⟨seconds, hle⟩ := exists_nat_ge s.timerLength
    exact (consistent_of_run run).dismissed_within hrunning hpresented hle

/-- **The delegate hears `promptDismissed` once, and `timerEnded` once if the countdown
    dismissed the prompt and never if the user did**, in every state of the runs of timely
    steps, and in no other run once the prompt is dismissed. -/
theorem prompt_honest_iff_timely
    (run : Run PromptUser.step (fun _ _ => True) (opened timerLength acceptButtonEnabled)
      events s) :
    (Run PromptUser.step Timely (opened timerLength acceptButtonEnabled) events s → s.Honest) ∧
      (s.presented = false → s.Honest →
        Run PromptUser.step Timely (opened timerLength acceptButtonEnabled) events s) := by
  have hconsistent := consistent_of_run run
  have htells : s.Tells ↔
      Run PromptUser.step Timely (opened timerLength acceptButtonEnabled) events s :=
    run.allowed_iff (J := Consistent) (I := Tells) (fun _ _ _ hu hst => hu.step hst)
      (consistent_opened timerLength acceptButtonEnabled)
      (tells_opened timerLength acceptButtonEnabled) fun _ _ _ hu hst => tells_step_iff hu hst
  constructor
  · intro htimely
    cases hpresented : s.presented with
    | true => exact hconsistent.honest_of_presented hpresented
    | false => exact (hconsistent.honest_iff hpresented).mpr (htells.mpr htimely)
  · intro hdismissed hhonest
    exact htells.mp ((hconsistent.honest_iff hdismissed).mp hhonest)

/-- The countdown of the prompt for an ad, which nobody interrupts. -/
def adCountdown : List PromptEvent := [.tick, .tick, .tick, .tick, .animationCompleted]

theorem prompt_honest_iff_timely_adCountdown :
    ∃ s, exec PromptUser.step (fun s e => decide (s.Timely e)) (opened 3 false) adCountdown =
      some s ∧ s.Honest ∧ .timerEnded ∈ s.calls := by
  have hend : (exec PromptUser.step (fun s e => decide (s.Timely e)) (opened 3 false)
      adCountdown).map (fun s => decide (.timerEnded ∈ s.calls)) = some true := by
    decide +kernel
  obtain ⟨s, hexec, hended⟩ := Option.map_eq_some_iff.mp hend
  have htimely : Run PromptUser.step Timely (opened 3 false) adCountdown s :=
    run_of_exec (fun _ _ h => of_decide_eq_true h) hexec
  exact ⟨s, hexec, (prompt_honest_iff_timely (htimely.mono fun _ _ _ => trivial)).1 htimely,
    of_decide_eq_true hended⟩

/-- The ad is declined a moment before the third tick. -/
theorem not_always_honest :
    ¬ ∀ (timerLength : Rat) (acceptButtonEnabled : Bool) (events : List PromptEvent)
      (s : PromptUser), 0 < timerLength →
      Run PromptUser.step (fun _ _ => True) (opened timerLength acceptButtonEnabled) events s →
      s.Honest := by
  intro hall
  have hend : (exec PromptUser.step (fun _ _ => true) (opened 3 false)
      [.tick, .tick, .dismissTapped, .tick, .animationCompleted]).map
      (fun s => decide s.Honest) = some false := by
    decide +kernel
  obtain ⟨s, hexec, hhonest⟩ := Option.map_eq_some_iff.mp hend
  exact of_decide_eq_false hhonest
    (hall 3 false _ s (by decide +kernel) (run_of_exec (fun _ _ _ => trivial) hexec))

/-- A countdown of two seconds and a half that nobody interrupts ends unheard. -/
example : (exec PromptUser.step (fun _ _ => true) (opened (5 / 2) true)
    [.tick, .tick, .tick, .tick, .animationCompleted]).map (fun s =>
      (decide (.timerEnded ∈ s.calls), s.dismissedBy)) = some (false, some .countdown) := by
  decide +kernel

end TeamUp
