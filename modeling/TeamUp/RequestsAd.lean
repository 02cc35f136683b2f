import TeamUp.Runs

/-!
# The ad before the fourth request

After three requests a tap is diverted to a prompt whose countdown ends with a rewarded
ad; the reward resets the count and loads the next ad.  The stored ad is replaced only
by a load that succeeds, and it is presented from the tab bar controller the scene
delegate was given at launch.  Requests are never blocked for good as long as the gate
closes only while that controller is in the window and the stored ad is new, or its
successor loading; nobody logs out behind a closed gate; and no ad is dismissed before
its reward.
-/

namespace TeamUp

/-- `sceneDelegate.tabBarController`: never set, the root of the window, or replaced as the
    root by a log-out. -/
inductive TabBar where
  | missing
  | inWindow
  | replaced
deriving DecidableEq

/-- An ad on the screen, and whether its reward callback was called. -/
structure Showing where
  ad : Nat
  rewarded : Bool
deriving DecidableEq

/-- What a `PromptUserViewController` of the players screen is for, with its countdown. -/
inductive Prompt where
  | ad (timerLength : Nat)
  | notifications
deriving DecidableEq

inductive UserActionPrompt where
  | ad
  | notifications
deriving DecidableEq

/-- The process from its launch on: the ad controller, with the loads and ads of the SDK,
    and the players screen. -/
structure AdSession where
  signedIn : Bool
  tabBarController : TabBar
  requestsCount : Nat
  rewardedInterstitialAd : Option Nat
  /-- The loads under way. -/
  loading : Nat
  /-- The ads loaded so far, numbered in this order. -/
  loaded : Nat
  presented : List Nat
  showing : Option Showing
  prompt : Option Prompt
  actionPrompt : Option UserActionPrompt
  alreadyPromptedForNotifications : Bool
  /-- The requests of the screen whose completion has not run. -/
  requesting : Nat
deriving DecidableEq

inductive AdEvent where
  | openPlayers
  | requestTapped
  | requestCompleted (success isRegisteredForNotifications : Bool)
  /-- The timer of the prompt fires. -/
  | tick
  | dismissPrompt
  | loadFinished (success : Bool)
  | rewarded
  | adDidDismiss
  | logIn
  | logOut
deriving DecidableEq

namespace AdSession

/-- The launch, which loads the first ad. -/
def launch (signedIn : Bool) : AdSession :=
  { signedIn
    tabBarController := if signedIn then .inWindow else .missing
    requestsCount := 0, rewardedInterstitialAd := none, loading := 1, loaded := 0
    presented := [], showing := none, prompt := none, actionPrompt := none
    alreadyPromptedForNotifications := false, requesting := 0 }

def loadRewardedInterstitialAd (s : AdSession) : AdSession := { s with loading := s.loading + 1 }

/-- The SDK presents an ad once, from a controller in the window. -/
def present (s : AdSession) (ad : Nat) : AdSession :=
  if s.tabBarController = .inWindow ∧ ad ∉ s.presented ∧ s.showing = none then
    { s with showing := some ⟨ad, false⟩, presented := ad :: s.presented }
  else s

def showRequestsRewardAd (s : AdSession) : AdSession :=
  if s.tabBarController = .missing then s
  else
    match s.rewardedInterstitialAd with
    | some rewardAd => s.present rewardAd
    | none => s

def promptForAd (s : AdSession) : AdSession :=
  { s with
    prompt := some (.ad 3)
    actionPrompt := some .ad
    alreadyPromptedForNotifications := true }

def promptForNotifications (s : AdSession) : AdSession :=
  { s with
    prompt := some .notifications
    actionPrompt := some .notifications
    alreadyPromptedForNotifications := true }

/-- A tap is diverted to the ad. -/
def gated (s : AdSession) : Bool :=
  decide (3 ≤ s.requestsCount) && s.rewardedInterstitialAd.isSome

def requestTapped (s : AdSession) : AdSession :=
  if s.gated then s.promptForAd
  else { s with requestsCount := s.requestsCount + 1, requesting := s.requesting + 1 }

def requestCompleted (s : AdSession) (success isRegisteredForNotifications : Bool) : AdSession :=
  let s := { s with requesting := s.requesting - 1 }
  if success && !isRegisteredForNotifications && !s.alreadyPromptedForNotifications then
    s.promptForNotifications
  else s

def timerEnded (s : AdSession) : AdSession :=
  let s :=
    if s.rewardedInterstitialAd.isSome then
      if s.actionPrompt = some .ad then s.showRequestsRewardAd else s
    else s.loadRewardedInterstitialAd
  { s with actionPrompt := none }

/-- `handleDismiss` of a prompt: one whose countdown is over ends its timer. -/
def handleDismiss (s : AdSession) (prompt : Prompt) : AdSession :=
  let s := { s with prompt := none }
  if prompt = .ad 0 then s.timerEnded else s

/-- Nothing covers the screens of the account signed in. -/
def Free (s : AdSession) : Prop := s.signedIn = true ∧ s.prompt = none ∧ s.showing = none

instance (s : AdSession) : Decidable s.Free := inferInstanceAs (Decidable (_ ∧ _ ∧ _))

def step (s : AdSession) : AdEvent → Option AdSession
  | .openPlayers =>
      if s.Free then
        some { s with
          actionPrompt := none, alreadyPromptedForNotifications := false, requesting := 0 }
      else none
  | .requestTapped => if s.Free then some s.requestTapped else none
  | .requestCompleted success isRegisteredForNotifications =>
      if 0 < s.requesting then some (s.requestCompleted success isRegisteredForNotifications)
      else none
  | .tick =>
      match s.prompt with
      | some (.ad (timerLength + 1)) => some { s with prompt := some (.ad timerLength) }
      | some (.ad 0) => some (s.handleDismiss (.ad 0))
      | _ => none
  | .dismissPrompt => s.prompt.map s.handleDismiss
  | .loadFinished success =>
      if 0 < s.loading then
        if success then
          some { s with
            rewardedInterstitialAd := some s.loaded
            loaded := s.loaded + 1
            loading := s.loading - 1 }
        else some { s with loading := s.loading - 1 }
      else none
  | .rewarded =>
      match s.showing with
      | some ⟨ad, false⟩ =>
          some { s with
            showing := some ⟨ad, true⟩, requestsCount := 0 }.loadRewardedInterstitialAd
      | _ => none
  | .adDidDismiss => if s.showing.isSome then some { s with showing := none } else none
  -- The tab bar controller pushed after a log-in, or a registration, is not handed to the
  -- scene delegate.
  | .logIn => some { s with signedIn := true }
  | .logOut =>
      if s.Free then
        some { s with
          signedIn := false
          tabBarController := if s.tabBarController = .inWindow then .replaced
            else s.tabBarController
          actionPrompt := none, alreadyPromptedForNotifications := false, requesting := 0 }
      else none

/-! ### What is wanted -/

/-- A tap sends a request. -/
def Sends (s : AdSession) : Prop := s.Free ∧ s.gated = false

/-- Letting the countdown of a prompt run to its end presents an ad not presented before. -/
def CountdownPays (s : AdSession) : Prop :=
  ∀ timerLength, s.prompt = some (.ad timerLength) →
    ∃ t ad, exec step (fun _ _ => true) s (List.replicate (timerLength + 1) .tick) = some t ∧
      t.showing = some ⟨ad, false⟩ ∧ ad ∉ s.presented

/-- Something can still happen after which requests are sent. -/
def Unblocked (s : AdSession) : Prop :=
  ∃ events t, Run step (fun _ _ => True) s events t ∧ t.Sends

/-- The stored ad has been presented. -/
def Stale (s : AdSession) : Prop := ∃ ad ∈ s.rewardedInterstitialAd, ad ∈ s.presented

instance (s : AdSession) : Decidable s.Stale := by
  unfold Stale
  infer_instance

/-- The gate closes only while the tab bar controller is in the window and the stored ad is new
    or its successor loading; while it is closed nobody logs out, and a stored ad that has
    been presented lets no request be tapped and no load fail; and an ad is dismissed only
    after its reward. -/
def Fair (s : AdSession) : AdEvent → Prop
  | .requestTapped =>
      (s.requestsCount = 2 → s.rewardedInterstitialAd = none ∨
        s.tabBarController = .inWindow ∧ (s.Stale → s.loading ≠ 0)) ∧
      (3 ≤ s.requestsCount → ¬ s.Stale)
  | .loadFinished true => 3 ≤ s.requestsCount → s.tabBarController = .inWindow
  | .loadFinished false => 3 ≤ s.requestsCount → ¬ s.Stale
  | .adDidDismiss => ∀ shown ∈ s.showing, shown.rewarded = true
  | .logOut => s.gated = false
  | _ => True

instance (s : AdSession) (e : AdEvent) : Decidable (s.Fair e) := by
  unfold Fair
  split <;> infer_instance

/-! ### The invariant -/

/-- The screens cover each other as they do, ads are numbered in the order they are loaded, a
    prompt for an ad has a new one to show, and a closed gate can be opened. -/
structure Open (s : AdSession) : Prop where
  window : s.tabBarController = .inWindow → s.signedIn = true
  idle : s.signedIn = false → s.prompt = none ∧ s.showing = none ∧ s.requesting = 0
  stored : ∀ ad ∈ s.rewardedInterstitialAd, ad < s.loaded
  presented : ∀ ad ∈ s.presented, ad < s.loaded
  covered : s.prompt ≠ none → s.showing = none
  prompted : ∀ timerLength, s.prompt = some (.ad timerLength) →
    s.actionPrompt = some .ad ∧ s.alreadyPromptedForNotifications = true ∧ s.gated = true ∧
      ¬ s.Stale
  shown : s.showing ≠ none → s.alreadyPromptedForNotifications = true
  earned : ∀ ad, s.showing = some ⟨ad, true⟩ → s.requestsCount = 0
  gate : s.gated = true → s.tabBarController = .inWindow ∧
    (s.Stale → s.loading ≠ 0 ∨ ∃ ad, s.showing = some ⟨ad, false⟩)

theorem open_launch (signedIn : Bool) : (launch signedIn).Open where
  window := by cases signedIn <;> simp [launch]
  idle := fun _ => ⟨rfl, rfl, rfl⟩
  stored := fun ad h => (by cases h)
  presented := fun ad h => (by cases h)
  covered := fun _ => rfl
  prompted := fun n h => (by cases h)
  shown := fun h => (h rfl).elim
  earned := fun ad h => (by cases h)
  gate := fun h => (by cases h)

variable {s t : AdSession}

theorem gated_iff : s.gated = true ↔ 3 ≤ s.requestsCount ∧ s.rewardedInterstitialAd.isSome := by
  simp [gated]

/-- A prompt for an ad ends with a new ad on the screen. -/
theorem Open.timerEnded (h : s.Open) {timerLength : Nat}
    (hprompt : s.prompt = some (.ad timerLength)) :
    ∃ ad, s.rewardedInterstitialAd = some ad ∧ ad ∉ s.presented ∧
      ({ s with prompt := none } : AdSession).timerEnded = { s with
        prompt := none, actionPrompt := none, showing := some ⟨ad, false⟩
        presented := ad :: s.presented } := by
  obtain ⟨haction, -, hgated, hnew⟩ := h.prompted timerLength hprompt
  obtain ⟨-, hsome⟩ := gated_iff.mp hgated
  obtain ⟨ad, had⟩ := Option.isSome_iff_exists.mp hsome
  have hfresh : ad ∉ s.presented := fun hmem => hnew ⟨ad, had, hmem⟩
  have hwindow : s.tabBarController = .inWindow := (h.gate hgated).1
  have hshowing : s.showing = none := h.covered (by rw [hprompt]; simp)
  refine ⟨ad, had, hfresh, ?_⟩
  simp [AdSession.timerEnded, showRequestsRewardAd, present, had, haction, hwindow, hfresh,
    hshowing]

theorem Open.signedIn_of_prompt (h : s.Open) (hprompt : s.prompt ≠ none) : s.signedIn = true := by
  by_contra hout
  exact hprompt (h.idle (Bool.eq_false_iff.mpr hout)).1

theorem Open.ended (h : s.Open) {timerLength : Nat} (hprompt : s.prompt = some (.ad timerLength)) :
    ({ s with prompt := none } : AdSession).timerEnded.Open := by
  have hsigned := h.signedIn_of_prompt (by rw [hprompt]; simp)
  obtain ⟨ad, had, hfresh, hended⟩ := h.timerEnded hprompt
  obtain ⟨-, halready, hgated, -⟩ := h.prompted timerLength hprompt
  rw [hended]
  refine ⟨h.window, fun hout => ?_, h.stored, fun a ha => ?_,
    fun hp => (hp rfl).elim, fun n hn => (by cases hn), fun _ => halready,
    fun a ha => (by cases ha), fun _ => ⟨(h.gate hgated).1, fun _ => Or.inr ⟨ad, rfl⟩⟩⟩
  · rw [hsigned] at hout
    cases hout
  · rcases List.mem_cons.mp ha with rfl | hold
    · exact h.stored a had
    · exact h.presented a hold

theorem Open.handleDismiss (h : s.Open) {prompt : Prompt} (hprompt : s.prompt = some prompt) :
    (s.handleDismiss prompt).Open := by
  unfold AdSession.handleDismiss
  split
  · rename_i hover
    subst hover
    exact h.ended hprompt
  · have hsigned := h.signedIn_of_prompt (by rw [hprompt]; simp)
    refine ⟨h.window, fun hout => ?_, h.stored, h.presented, fun hp => (hp rfl).elim,
      fun n hn => (by cases hn), h.shown, h.earned, h.gate⟩
    rw [hsigned] at hout
    cases hout

theorem Open.requestTapped (h : s.Open) (hfree : s.Free) (hfair : s.Fair .requestTapped) :
    s.requestTapped.Open := by
  obtain ⟨hsigned, hprompt, hshowing⟩ := hfree
  have hnobody : ∀ {P : Prop}, s.signedIn = false → P := by
    intro P hout
    rw [hsigned] at hout
    cases hout
  unfold AdSession.requestTapped
  split
  · rename_i hgated
    have hnew : ¬ s.Stale := hfair.2 (gated_iff.mp hgated).1
    exact ⟨h.window, hnobody, h.stored, h.presented, fun _ => hshowing,
      fun n hn => ⟨rfl, rfl, hgated, hnew⟩, fun _ => rfl, h.earned, h.gate⟩
  · rename_i hopen
    refine ⟨h.window, hnobody, h.stored, h.presented, fun _ => hshowing, fun n hn => ?_, h.shown,
      fun ad had => ?_, fun hgated => ?_⟩
    · rw [hprompt] at hn
      cases hn
    · rw [hshowing] at had
      cases had
    · -- the third request closes the gate
      obtain ⟨hthird, hsome⟩ := gated_iff.mp hgated
      have hcount : s.requestsCount = 2 := by
        by_contra hne
        refine hopen (gated_iff.mpr ⟨?_, hsome⟩)
        simp only at hthird
        omega
      rcases hfair.1 hcount with hnone | ⟨hwindow, hloading⟩
      · simp only [hnone, Option.isSome_none, Bool.false_eq_true] at hsome
      · exact ⟨hwindow, fun hstale => Or.inl (hloading hstale)⟩

theorem Open.requestCompleted (h : s.Open) (hrequesting : 0 < s.requesting)
    (success isRegisteredForNotifications : Bool) :
    (s.requestCompleted success isRegisteredForNotifications).Open := by
  have hnobody : ∀ {P : Prop}, s.signedIn = false → P := by
    intro P hout
    have hnone := (h.idle hout).2.2
    omega
  simp only [AdSession.requestCompleted]
  split
  · rename_i hcond
    have hfirst : s.alreadyPromptedForNotifications = false := by
      simp only [Bool.and_eq_true, Bool.not_eq_true'] at hcond
      exact hcond.2
    -- an ad on the screen, and a prompt for one, keep it from being asked
    have hshowing : s.showing = none := by
      by_contra hsome
      rw [h.shown hsome] at hfirst
      cases hfirst
    exact ⟨h.window, hnobody, h.stored, h.presented, fun _ => hshowing, fun n hn => (by cases hn),
      fun _ => rfl, h.earned, h.gate⟩
  · exact ⟨h.window, hnobody, h.stored, h.presented, h.covered, h.prompted, h.shown, h.earned,
      h.gate⟩

theorem Open.loadFinished (h : s.Open) (hfair : s.Fair (.loadFinished true)) :
    Open { s with
      rewardedInterstitialAd := some s.loaded
      loaded := s.loaded + 1
      loading := s.loading - 1 } := by
  have hfresh : s.loaded ∉ s.presented := fun hmem => Nat.lt_irrefl _ (h.presented _ hmem)
  refine ⟨h.window, h.idle, fun ad had => ?_, fun ad had => ?_, h.covered, fun n hn => ?_, h.shown,
    h.earned, fun hgated => ⟨hfair (gated_iff.mp hgated).1, ?_⟩⟩
  · rw [← Option.some.inj had]
    exact Nat.lt_succ_self _
  · exact Nat.lt_succ_of_lt (h.presented ad had)
  · obtain ⟨haction, halready, hgated, -⟩ := h.prompted n hn
    refine ⟨haction, halready, gated_iff.mpr ⟨(gated_iff.mp hgated).1, rfl⟩, ?_⟩
    rintro ⟨ad, had, hmem⟩
    exact hfresh (Option.some.inj had ▸ hmem)
  · rintro ⟨ad, had, hmem⟩
    exact (hfresh (Option.some.inj had ▸ hmem)).elim

theorem Open.loadFailed (h : s.Open) (hfair : s.Fair (.loadFinished false)) :
    Open { s with loading := s.loading - 1 } :=
  ⟨h.window, h.idle, h.stored, h.presented, h.covered, h.prompted, h.shown, h.earned,
    fun hgated => ⟨(h.gate hgated).1, fun hstale =>
      (hfair (gated_iff.mp hgated).1 hstale).elim⟩⟩

theorem Open.rewarded (h : s.Open) {ad : Nat} (hshowing : s.showing = some ⟨ad, false⟩) :
    (loadRewardedInterstitialAd { s with
      showing := some ⟨ad, true⟩
      requestsCount := 0 }).Open := by
  have hprompt : s.prompt = none := by
    by_contra hsome
    rw [h.covered hsome] at hshowing
    cases hshowing
  refine ⟨h.window, fun hout => ?_, h.stored, h.presented, fun hsome => (hsome hprompt).elim,
    fun n hn => ?_, fun _ => h.shown (by rw [hshowing]; simp), fun _ _ => rfl, fun hgated => ?_⟩
  · rw [(h.idle hout).2.1] at hshowing
    cases hshowing
  · rw [hprompt] at hn
    cases hn
  · exact absurd (gated_iff.mp hgated).1 (by simp [loadRewardedInterstitialAd])

/-- A reward has reset the count before its ad is dismissed. -/
theorem Open.dismissed (h : s.Open) {ad : Nat} (hshowing : s.showing = some ⟨ad, true⟩) :
    Open { s with showing := none } := by
  have hcount : s.requestsCount = 0 := h.earned ad hshowing
  have hopen : ∀ {P : Prop}, s.gated = true → P := by
    intro P hgated
    have hthree := (gated_iff.mp hgated).1
    omega
  exact ⟨h.window, fun hout => ⟨(h.idle hout).1, rfl, (h.idle hout).2.2⟩, h.stored, h.presented,
    fun _ => rfl, h.prompted, fun hn => (hn rfl).elim, fun _ ha => (by cases ha), hopen⟩

/-- Nobody logs out behind a closed gate. -/
theorem Open.loggedOut (h : s.Open) (hfree : s.Free) (hopen : s.gated = false)
    {tabBarController : TabBar} (hleft : tabBarController ≠ .inWindow) :
    Open { s with
      signedIn := false, tabBarController
      actionPrompt := none, alreadyPromptedForNotifications := false, requesting := 0 } := by
  obtain ⟨-, hprompt, hshowing⟩ := hfree
  refine ⟨fun hwindow => (hleft hwindow).elim, fun _ => ⟨hprompt, hshowing, rfl⟩, h.stored,
    h.presented, h.covered, fun n hn => ?_, fun hsome => (hsome hshowing).elim, h.earned,
    fun hgated => ?_⟩
  · rw [hprompt] at hn
    cases hn
  · rw [show s.gated = true from hgated] at hopen
    cases hopen

/-- **One fair step** keeps a closed gate openable. -/
theorem Open.step (h : s.Open) {e : AdEvent} (hfair : s.Fair e) (hst : s.step e = some t) :
    t.Open := by
  cases e with
  | openPlayers =>
    simp only [AdSession.step, Option.ite_none_right_eq_some, Option.some.injEq] at hst
    obtain ⟨⟨hsigned, hprompt, hshowing⟩, rfl⟩ := hst
    refine ⟨h.window, fun _ => ⟨hprompt, hshowing, rfl⟩, h.stored, h.presented, h.covered,
      fun n hn => ?_, fun hsome => (hsome hshowing).elim, h.earned, h.gate⟩
    rw [hprompt] at hn
    cases hn
  | requestTapped =>
    simp only [AdSession.step, Option.ite_none_right_eq_some, Option.some.injEq] at hst
    obtain ⟨hfree, rfl⟩ := hst
    exact h.requestTapped hfree hfair
  | requestCompleted success isRegisteredForNotifications =>
    simp only [AdSession.step, Option.ite_none_right_eq_some, Option.some.injEq] at hst
    obtain ⟨hrequesting, rfl⟩ := hst
    exact h.requestCompleted hrequesting _ _
  | tick =>
    simp only [AdSession.step] at hst
    split at hst
    · rename_i n hprompt
      obtain rfl := Option.some.inj hst
      obtain ⟨haction, halready, hgated, hnew⟩ := h.prompted _ hprompt
      exact ⟨h.window, fun hout => (by rw [(h.idle hout).1] at hprompt; cases hprompt), h.stored,
        h.presented, fun _ => h.covered (by rw [hprompt]; simp),
        fun _ _ => ⟨haction, halready, hgated, hnew⟩, h.shown, h.earned, h.gate⟩
    · rename_i hprompt
      obtain rfl := Option.some.inj hst
      exact h.handleDismiss hprompt
    · cases hst
  | dismissPrompt =>
    obtain ⟨prompt, hprompt, rfl⟩ := Option.map_eq_some_iff.mp hst
    exact h.handleDismiss hprompt
  | loadFinished success =>
    simp only [AdSession.step, Option.ite_none_right_eq_some] at hst
    obtain ⟨-, hst⟩ := hst
    cases success with
    | true =>
      obtain rfl := Option.some.inj hst
      exact h.loadFinished hfair
    | false =>
      obtain rfl := Option.some.inj hst
      exact h.loadFailed hfair
  | rewarded =>
    simp only [AdSession.step] at hst
    split at hst
    · rename_i ad hshowing
      obtain rfl := Option.some.inj hst
      exact h.rewarded hshowing
    · cases hst
  | adDidDismiss =>
    simp only [AdSession.step, Option.ite_none_right_eq_some, Option.some.injEq] at hst
    obtain ⟨hsome, rfl⟩ := hst
    obtain ⟨⟨ad, rewarded⟩, hshowing⟩ := Option.isSome_iff_exists.mp hsome
    obtain rfl : rewarded = true := hfair _ hshowing
    exact h.dismissed hshowing
  | logIn =>
    obtain rfl := Option.some.inj hst
    exact ⟨fun _ => rfl, fun hin => (by cases hin), h.stored, h.presented, h.covered, h.prompted,
      h.shown, h.earned, h.gate⟩
  | logOut =>
    simp only [AdSession.step, Option.ite_none_right_eq_some, Option.some.injEq] at hst
    obtain ⟨hfree, rfl⟩ := hst
    refine h.loggedOut hfree hfair ?_
    split
    · simp
    · assumption

/-! ### Requests are never blocked -/

/-- The countdown of a prompt. -/
theorem exec_ticks {timerLength : Nat} (hprompt : s.prompt = some (.ad timerLength)) :
    exec step (fun _ _ => true) s (List.replicate (timerLength + 1) .tick) =
      some ({ s with prompt := none } : AdSession).timerEnded := by
  induction timerLength generalizing s with
  | zero => simp [exec, step, hprompt, handleDismiss]
  | succ n ih =>
    have hnext : exec step (fun _ _ => true) { s with prompt := some (.ad n) }
        (List.replicate (n + 1) .tick) = some ({ s with prompt := none } : AdSession).timerEnded :=
      ih rfl
    rw [List.replicate_succ]
    simpa [exec, step, hprompt] using hnext

theorem Open.countdownPays (h : s.Open) : s.CountdownPays := by
  intro timerLength hprompt
  obtain ⟨ad, -, hfresh, hended⟩ := h.timerEnded hprompt
  exact ⟨_, ad, exec_ticks hprompt, by rw [hended], hfresh⟩

theorem Unblocked.of_step {e : AdEvent} (hst : s.step e = some t) (h : t.Unblocked) :
    s.Unblocked := by
  obtain ⟨events, u, run, hsends⟩ := h
  exact ⟨e :: events, u, .cons trivial hst run, hsends⟩

theorem Unblocked.of_exec {events : List AdEvent}
    (hexec : exec step (fun _ _ => true) s events = some t) (h : t.Unblocked) : s.Unblocked := by
  induction events generalizing s with
  | nil => exact Option.some.inj hexec ▸ h
  | cons e rest ih =>
    simp only [exec, if_true] at hexec
    split at hexec
    · rename_i u hu
      exact .of_step hu (ih hexec)
    · cases hexec

/-- The reward of an ad on the screen resets the count. -/
theorem Open.unblocked_showing (h : s.Open) {shown : Showing} (hshowing : s.showing = some shown) :
    s.Unblocked := by
  have hprompt : s.prompt = none := by
    by_contra hsome
    rw [h.covered hsome] at hshowing
    cases hshowing
  have hsigned : s.signedIn = true := by
    by_contra hout
    rw [(h.idle (Bool.eq_false_iff.mpr hout)).2.1] at hshowing
    cases hshowing
  obtain ⟨ad, rewarded⟩ := shown
  cases rewarded with
  | true =>
    have hst : s.step .adDidDismiss = some { s with showing := none } := by
      simp [AdSession.step, hshowing]
    refine .of_step hst ⟨[], _, .nil, ⟨hsigned, hprompt, rfl⟩, ?_⟩
    simp [gated, h.earned ad hshowing]
  | false =>
    have hreward : s.step .rewarded = some (loadRewardedInterstitialAd
        { s with showing := some ⟨ad, true⟩, requestsCount := 0 }) := by
      simp [AdSession.step, hshowing]
    refine .of_step hreward ?_
    have hst : AdSession.step (({ s with
        showing := some ⟨ad, true⟩, requestsCount := 0 } : AdSession).loadRewardedInterstitialAd)
          .adDidDismiss = some { s with
            showing := none, requestsCount := 0, loading := s.loading + 1 } := rfl
    exact .of_step hst ⟨[], _, .nil, ⟨hsigned, hprompt, rfl⟩, by simp [gated]⟩

theorem Open.unblocked_prompt (h : s.Open) {timerLength : Nat}
    (hprompt : s.prompt = some (.ad timerLength)) : s.Unblocked := by
  obtain ⟨ad, -, -, hended⟩ := h.timerEnded hprompt
  exact .of_exec (exec_ticks hprompt) ((h.ended hprompt).unblocked_showing (by rw [hended]))

/-- With a new ad stored a tap leads to it. -/
theorem Open.unblocked_new (h : s.Open) (hfree : s.Free) (hgated : s.gated = true)
    (hnew : ¬ s.Stale) : s.Unblocked := by
  have hfair : s.Fair .requestTapped := by
    refine ⟨fun htwo => ?_, fun _ => hnew⟩
    have hthree := (gated_iff.mp hgated).1
    omega
  have hst : s.step .requestTapped = some s.requestTapped := by simp [AdSession.step, hfree]
  have hprompt : s.requestTapped.prompt = some (.ad 3) := by
    simp [AdSession.requestTapped, hgated, promptForAd]
  exact .of_step hst ((h.requestTapped hfree hfair).unblocked_prompt hprompt)

theorem Open.unblocked_free (h : s.Open) (hfree : s.Free) : s.Unblocked := by
  cases hgated : s.gated with
  | false => exact ⟨[], s, .nil, hfree, hgated⟩
  | true =>
    obtain ⟨hwindow, hstale⟩ := h.gate hgated
    by_cases hold : s.Stale
    · -- the load that is under way brings a new ad
      have hloading : s.loading ≠ 0 := by
        refine (hstale hold).resolve_right ?_
        rintro ⟨ad, hshowing⟩
        rw [hfree.2.2] at hshowing
        cases hshowing
      have hst : s.step (.loadFinished true) = some { s with
          rewardedInterstitialAd := some s.loaded
          loaded := s.loaded + 1
          loading := s.loading - 1 } := by
        simp [AdSession.step, Nat.pos_of_ne_zero hloading]
      refine .of_step hst (Open.unblocked_new (h.loadFinished fun _ => hwindow) hfree ?_ ?_)
      · exact gated_iff.mpr ⟨(gated_iff.mp hgated).1, rfl⟩
      · rintro ⟨ad, had, hmem⟩
        have hlt := h.presented ad hmem
        rw [← Option.some.inj had] at hlt
        exact Nat.lt_irrefl _ hlt
    · exact h.unblocked_new hfree hgated hold

theorem Open.unblocked (h : s.Open) : s.Unblocked := by
  cases hshowing : s.showing with
  | some shown => exact h.unblocked_showing hshowing
  | none =>
    cases hprompt : s.prompt with
    | some prompt =>
      cases prompt with
      | ad timerLength => exact h.unblocked_prompt hprompt
      | notifications =>
        have hst : s.step .dismissPrompt = some { s with prompt := none } := by
          simp [AdSession.step, hprompt, AdSession.handleDismiss]
        have hfair : s.Fair .dismissPrompt := trivial
        have hsigned := h.signedIn_of_prompt (by rw [hprompt]; simp)
        exact .of_step hst (Open.unblocked_free (h.step hfair hst) ⟨hsigned, rfl, hshowing⟩)
    | none =>
      cases hsigned : s.signedIn with
      | true => exact h.unblocked_free ⟨hsigned, hprompt, hshowing⟩
      | false =>
        have hst : s.step .logIn = some { s with signedIn := true } := rfl
        have hfair : s.Fair .logIn := trivial
        exact .of_step hst (Open.unblocked_free (h.step hfair hst) ⟨rfl, hprompt, hshowing⟩)

end AdSession

open AdSession

/-- **Requests are never blocked**: in every state of every fair run, however it was launched,
    the countdown of a prompt ends with an ad not presented before, and requests can be sent
    again. -/
theorem requests_never_blocked {signedIn : Bool} {events : List AdEvent} {s : AdSession}
    (run : Run AdSession.step AdSession.Fair (launch signedIn) events s) :
    s.CountdownPays ∧ s.Unblocked := by
  have hopen : s.Open :=
    run.invariant Open (fun _ _ _ hu hok hst => hu.step hok hst) (open_launch signedIn)
  exact ⟨hopen.countdownPays, hopen.unblocked⟩

/-- Three requests, and a fourth tap that leads to the ad. -/
def fourTaps : List AdEvent :=
  [.loadFinished true, .openPlayers, .requestTapped, .requestTapped, .requestTapped, .requestTapped]

theorem requests_never_blocked_fourTaps :
    ∃ s, exec AdSession.step (fun s e => decide (s.Fair e)) (launch true) fourTaps = some s ∧
      s.prompt = some (.ad 3) ∧ s.CountdownPays ∧ s.Unblocked := by
  have hend : (exec AdSession.step (fun s e => decide (s.Fair e)) (launch true) fourTaps).map
      AdSession.prompt = some (some (.ad 3)) := by
    decide +kernel
  obtain ⟨s, hs, hprompt⟩ := Option.map_eq_some_iff.mp hend
  have run := run_of_exec (fun _ _ h => of_decide_eq_true h) hs
  exact ⟨s, hs, hprompt, requests_never_blocked run⟩

/-- The scene delegate has no tab bar controller if the session began with a log-in. -/
theorem not_always_unblocked :
    ¬ ∀ (signedIn : Bool) (events : List AdEvent) (s : AdSession),
      Run AdSession.step (fun _ _ => True) (launch signedIn) events s →
      s.CountdownPays ∧ s.Unblocked := by
  intro hall
  have hend : ((exec AdSession.step (fun _ _ => true) (launch false) (.logIn :: fourTaps)).map
      fun s => (s.prompt, (exec AdSession.step (fun _ _ => true) s
        (List.replicate 4 .tick)).map AdSession.showing)) = some (some (.ad 3), some none) := by
    decide +kernel
  obtain ⟨s, hs, hfacts⟩ := Option.map_eq_some_iff.mp hend
  obtain ⟨hprompt, hnothing⟩ := Prod.mk.inj hfacts
  have run : Run AdSession.step (fun _ _ => True) (launch false) (.logIn :: fourTaps) s :=
    run_of_exec (fun _ _ _ => trivial) hs
  obtain ⟨t, ad, hticks, hshowing, -⟩ := (hall false _ s run).1 3 hprompt
  rw [hticks, Option.map_some, hshowing] at hnothing
  cases hnothing

/-- An ad that is dismissed before its reward is stored for good. -/
example : (exec AdSession.step (fun _ _ => true) (launch true)
    (fourTaps ++ List.replicate 4 .tick ++ [.adDidDismiss])).map (fun s =>
      (s.gated, decide s.Stale, s.loading)) = some (true, true, 0) := by
  decide +kernel

end TeamUp
