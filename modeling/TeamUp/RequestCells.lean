import TeamUp.CollectionView
import TeamUp.Mirrors

/-!
# The cells of the teammate requests

`RequestsViewController` shows the requests of `RequestController`.  Its collection view asks
for cells below the number of requests it obtained last, and selects below it.  A request that
is accepted or declined is removed at once, without a reload; that comes with the next
publication, after a snapshot and one read for each request that is left.  All items are in the
list exactly as long as no step leaves fewer requests than the view obtained.
-/

namespace TeamUp

/-- `RequestController` and the screen that shows its requests. -/
structure RequestsScreen where
  /-- `teammateRequests`, with the groups of reads under way. -/
  requests : Board Tree String User (List User)
  isAcceptingRequest : Bool
  isDecliningRequest : Bool
  requestingUser : Option User
  view : CollectionView

inductive RequestsEvent where
  /-- A snapshot is observed, a read of a user returns, or a group of them is joined. -/
  | board (e : BoardEvent Tree Tree)
  | fetchTeammateRequests (currentUser : Option String)
  | clearDataAndObservers
  | acceptRequest (requestingUser : User)
  | declineRequest (requestingUser : User)
  | userAcceptedPrompt (currentUser : Option String)
  | promptDismissed
  /-- A reload on the main queue runs. -/
  | reload
  /-- The collection view is laid out. -/
  | layout

namespace RequestsScreen

def opened (requests : Board Tree String User (List User)) : RequestsScreen :=
  { requests, isAcceptingRequest := false, isDecliningRequest := false, requestingUser := none
    view := .created }

def teammateRequests (s : RequestsScreen) : List User := s.requests.mirror

/-- The notification whose observer posts a reload. -/
def teammateRequestNotification (s : RequestsScreen) : RequestsScreen :=
  { s with view := s.view.post }

/-- `teammateRequests` is set, and the notification is posted. -/
def publish (s : RequestsScreen) (users : List User) : RequestsScreen :=
  { s with requests := { s.requests with mirror := users } }.teammateRequestNotification

/-- A step of the observer posts the notification if it publishes. -/
def posts : BoardEvent Tree Tree → Bool
  | .observed snapshot => snapshot.asDictionary.isNone
  | .returned .. => false
  | .joined _ => true

/-- The screen after a step of the observer. -/
def observed (s : RequestsScreen) (e : BoardEvent Tree Tree)
    (requests : Board Tree String User (List User)) : RequestsScreen :=
  if posts e then { s with requests }.teammateRequestNotification else { s with requests }

def observe (s : RequestsScreen) (e : BoardEvent Tree Tree) : Option RequestsScreen :=
  (TeamUp.fetchTeammateRequests.step s.requests e).map (s.observed e)

def fetchTeammateRequests (s : RequestsScreen) (currentUser : Option String) : RequestsScreen :=
  match currentUser with
  | some _ => s
  | none => s.publish []

def removeRequest (s : RequestsScreen) (requestingUser : User) : RequestsScreen :=
  match s.teammateRequests.findIdx? fun u => u.isEqual requestingUser with
  | some index =>
      { s with requests := { s.requests with mirror := s.teammateRequests.eraseIdx index } }
  | none => s

/-- What `acceptTeammateRequest` and `declineTeammateRequest` do beside their writes. -/
def answerRequest (s : RequestsScreen) (currentUser : Option String) (requestingUser : User) :
    RequestsScreen :=
  match currentUser with
  | some _ => s.removeRequest requestingUser
  | none => s

def acceptTeammateRequest : RequestsScreen → Option String → User → RequestsScreen :=
  answerRequest

def declineTeammateRequest : RequestsScreen → Option String → User → RequestsScreen :=
  answerRequest

def userAcceptedPrompt (s : RequestsScreen) (currentUser : Option String) : RequestsScreen :=
  match s.requestingUser with
  | some requestingUser =>
      if s.isAcceptingRequest then s.acceptTeammateRequest currentUser requestingUser
      else if s.isDecliningRequest then s.declineTeammateRequest currentUser requestingUser
      else s
  | none => s

def step (s : RequestsScreen) : RequestsEvent → Option RequestsScreen
  | .board e => s.observe e
  | .fetchTeammateRequests currentUser => some (s.fetchTeammateRequests currentUser)
  | .clearDataAndObservers => some (s.publish [])
  | .acceptRequest requestingUser =>
      some { s with
        isAcceptingRequest := true, isDecliningRequest := false
        requestingUser := some requestingUser }
  | .declineRequest requestingUser =>
      some { s with
        isAcceptingRequest := false, isDecliningRequest := true
        requestingUser := some requestingUser }
  | .userAcceptedPrompt currentUser => some (s.userAcceptedPrompt currentUser)
  | .promptDismissed =>
      some { s with
        isAcceptingRequest := false, isDecliningRequest := false, requestingUser := none }
  | .reload => s.view.reload.map fun view => { s with view }
  | .layout => (s.view.layout s.teammateRequests.length).map fun view => { s with view }

/-! ### The items in the list -/

/-- Every item below the number obtained last is in `teammateRequests`. -/
def CellsCovered (s : RequestsScreen) : Prop := s.view.Covered s.teammateRequests

/-- An accepted prompt removes a request of the list. -/
def Removes (s : RequestsScreen) (currentUser : Option String) : Prop :=
  currentUser.isSome ∧ (s.isAcceptingRequest || s.isDecliningRequest) ∧
    ∃ requestingUser ∈ s.requestingUser, s.teammateRequests.any fun u => u.isEqual requestingUser

/-- The requests published are as many as the view obtained, and a request is removed only if
    there are more. -/
def Keeps (s : RequestsScreen) : RequestsEvent → Prop
  | .board (.observed snapshot) => snapshot.asDictionary = none → s.view.itemCount = 0
  | .board (.joined fork) =>
      ∀ f ∈ s.requests.forks[fork]?, s.view.itemCount ≤ f.group.gathered.length
  | .fetchTeammateRequests currentUser => currentUser = none → s.view.itemCount = 0
  | .clearDataAndObservers => s.view.itemCount = 0
  | .userAcceptedPrompt currentUser =>
      s.Removes currentUser → s.view.itemCount < s.teammateRequests.length
  | _ => True

instance (s : RequestsScreen) (e : RequestsEvent) : Decidable (s.Keeps e) := by
  unfold Keeps Removes
  split <;> infer_instance

variable {s t : RequestsScreen} {e : RequestsEvent}

theorem cellsCovered_iff : s.CellsCovered ↔ s.view.itemCount ≤ s.teammateRequests.length :=
  CollectionView.covered_iff

theorem cellsCovered_publish (users : List User) :
    (s.publish users).CellsCovered ↔ s.view.itemCount ≤ users.length :=
  cellsCovered_iff

/-- A request that is in the list is removed from it. -/
theorem cellsCovered_removeRequest (h : s.CellsCovered) (requestingUser : User) :
    (s.removeRequest requestingUser).CellsCovered ↔
      (s.teammateRequests.any (fun u => u.isEqual requestingUser) →
        s.view.itemCount < s.teammateRequests.length) := by
  unfold removeRequest
  split
  · rename_i index hindex
    obtain ⟨hlt, hequal, -⟩ := List.findIdx?_eq_some_iff_getElem.mp hindex
    have hany : s.teammateRequests.any fun u => u.isEqual requestingUser :=
      List.any_eq_true.mpr ⟨_, List.getElem_mem hlt, hequal⟩
    rw [cellsCovered_iff]
    change s.view.itemCount ≤ (s.teammateRequests.eraseIdx index).length ↔ _
    rw [List.length_eraseIdx_of_lt hlt]
    constructor
    · intro hle _
      omega
    · intro hkeeps
      have hmore := hkeeps hany
      omega
  · rename_i hnone
    have hnone : ¬ s.teammateRequests.any fun u => u.isEqual requestingUser := by
      simpa using hnone
    exact ⟨fun _ hany => (hnone hany).elim, fun _ => h⟩

theorem cellsCovered_answerRequest (h : s.CellsCovered) (currentUser : Option String)
    (requestingUser : User) :
    (s.answerRequest currentUser requestingUser).CellsCovered ↔
      (currentUser.isSome → s.teammateRequests.any (fun u => u.isEqual requestingUser) →
        s.view.itemCount < s.teammateRequests.length) := by
  cases currentUser with
  | none => exact ⟨fun _ hsome => (by cases hsome), fun _ => h⟩
  | some name =>
    refine (cellsCovered_removeRequest h requestingUser).trans ?_
    exact ⟨fun hkeeps _ => hkeeps, fun hkeeps => hkeeps rfl⟩

theorem cellsCovered_userAcceptedPrompt (h : s.CellsCovered) (currentUser : Option String) :
    (s.userAcceptedPrompt currentUser).CellsCovered ↔
      (s.Removes currentUser → s.view.itemCount < s.teammateRequests.length) := by
  unfold userAcceptedPrompt
  cases huser : s.requestingUser with
  | none =>
    refine ⟨fun _ => ?_, fun _ => h⟩
    rintro ⟨-, -, requestingUser, hmem, -⟩
    rw [huser] at hmem
    cases hmem
  | some requestingUser =>
    have hremoves : s.Removes currentUser ↔ currentUser.isSome ∧
        (s.isAcceptingRequest || s.isDecliningRequest) ∧
          s.teammateRequests.any fun u => u.isEqual requestingUser := by
      simp [Removes, huser]
    rw [hremoves]
    dsimp only
    split_ifs with haccepting hdeclining
    · refine (cellsCovered_answerRequest h currentUser requestingUser).trans ?_
      simp [haccepting]
    · refine (cellsCovered_answerRequest h currentUser requestingUser).trans ?_
      simp [hdeclining]
    · simp [haccepting, hdeclining, h]

theorem cellsCovered_observed (e : BoardEvent Tree Tree)
    (requests : Board Tree String User (List User)) :
    (s.observed e requests).CellsCovered ↔ s.view.itemCount ≤ requests.mirror.length := by
  unfold observed
  split <;> exact cellsCovered_iff

/-- A step of the observer leaves a list that is not shorter than the view obtained, if it
    publishes one. -/
theorem cellsCovered_observe (h : s.CellsCovered) {e : BoardEvent Tree Tree}
    (hst : s.observe e = some t) : t.CellsCovered ↔ s.Keeps (.board e) := by
  obtain ⟨requests, hboard, rfl⟩ := Option.map_eq_some_iff.mp hst
  rw [cellsCovered_observed]
  cases e with
  | observed snapshot =>
    obtain rfl := Option.some.inj hboard
    cases hdictionary : snapshot.asDictionary with
    | none =>
      -- nothing is requested: the empty list is published at once
      have hreact : TeamUp.fetchTeammateRequests.react snapshot = .inl [] := by
        simp [TeamUp.fetchTeammateRequests, fetchUsers, hdictionary]
      simp [Observer.observe, hreact, Keeps, hdictionary]
    | some dictionary =>
      have hreact : TeamUp.fetchTeammateRequests.react snapshot = .inr dictionary.keys := by
        simp [TeamUp.fetchTeammateRequests, fetchUsers, hdictionary]
      have hkept : (Observer.observe TeamUp.fetchTeammateRequests s.requests snapshot).mirror =
          s.teammateRequests := by
        simp [Observer.observe, hreact, teammateRequests]
      rw [hkept]
      refine ⟨fun _ hnone => ?_, fun _ => cellsCovered_iff.mp h⟩
      rw [hdictionary] at hnone
      cases hnone
  | returned fork index response =>
    obtain ⟨before, f, after, earlier, item, later, -, -, -, -, rfl⟩ :=
      Observer.step_returned hboard
    exact ⟨fun _ => trivial, fun _ => cellsCovered_iff.mp h⟩
  | joined fork =>
    obtain ⟨before, f, after, hforks, hfork, -, rfl⟩ := Observer.step_joined hboard
    have hget : s.requests.forks[fork]? = some f := by
      rw [hforks, ← hfork]
      simp
    simp only [Keeps, hget, Option.mem_def, Option.some.injEq, forall_eq']
    exact Iff.rfl

/-- **A step keeps all items in the list exactly if it leaves as many requests as the view
    obtained.** -/
theorem CellsCovered.step_iff (h : s.CellsCovered) (hst : s.step e = some t) :
    t.CellsCovered ↔ s.Keeps e := by
  cases e with
  | board e => exact cellsCovered_observe h hst
  | fetchTeammateRequests currentUser =>
    obtain rfl := Option.some.inj hst
    cases currentUser with
    | none =>
      have hkeeps : s.Keeps (.fetchTeammateRequests none) ↔ s.view.itemCount = 0 :=
        ⟨fun hnone => hnone rfl, fun hzero _ => hzero⟩
      exact (cellsCovered_publish []).trans (Nat.le_zero.trans hkeeps.symm)
    | some name => exact ⟨fun _ hnone => (by cases hnone), fun _ => h⟩
  | clearDataAndObservers =>
    obtain rfl := Option.some.inj hst
    exact (cellsCovered_publish []).trans Nat.le_zero
  | acceptRequest | declineRequest | promptDismissed =>
    obtain rfl := Option.some.inj hst
    exact ⟨fun _ => trivial, fun _ => h⟩
  | userAcceptedPrompt currentUser =>
    obtain rfl := Option.some.inj hst
    exact cellsCovered_userAcceptedPrompt h currentUser
  | reload =>
    obtain ⟨view, hreload, rfl⟩ := Option.map_eq_some_iff.mp hst
    exact ⟨fun _ => trivial, fun _ => (CollectionView.covered_reload hreload).mpr h⟩
  | layout =>
    obtain ⟨view, hlayout, rfl⟩ := Option.map_eq_some_iff.mp hst
    exact ⟨fun _ => trivial, fun _ => CollectionView.covered_layout hlayout⟩

/-- **In every state of a run all items are in the list exactly if every step leaves as many
    requests as the view obtained.** -/
theorem requests_covered (requests : Board Tree String User (List User))
    (events : List RequestsEvent) (t : RequestsScreen)
    (run : Run step (fun _ _ => True) (opened requests) events t) :
    Always step (opened requests) CellsCovered events ↔ Run step Keeps (opened requests) events t :=
  run.always_iff (CollectionView.covered_created _) fun _ _ _ h => h.step_iff

/-- The user whose request arrives. -/
def requester : User :=
  { username := "bobbob", profilePicUrl := "", mic := .mic, bio := "", region := .europe
    games := [], platform := none, currentlyPlaying := none }

/-- A request arrives and is shown, then it is accepted. -/
def acceptsRequest : List RequestsEvent :=
  [.board (.observed (teammatesSnapshot ["bobbob"])), .board (.returned 0 0 (record "bobbob")),
    .board (.joined 0), .reload, .layout, .acceptRequest requester,
    .userAcceptedPrompt (some "alice1")]

theorem requests_covered_accepted :
    ∃ t, Run step (fun _ _ => True) (opened (.initial [])) (acceptsRequest.take 6) t ∧
      Always step (opened (.initial [])) CellsCovered (acceptsRequest.take 6) := by
  have hend : (exec step (fun s e => decide (s.Keeps e)) (opened (.initial []))
      (acceptsRequest.take 6)).isSome := by
    decide +kernel
  obtain ⟨t, hexec⟩ := Option.isSome_iff_exists.mp hend
  have hkeeps : Run step Keeps (opened (.initial [])) (acceptsRequest.take 6) t :=
    run_of_exec (fun _ _ h => of_decide_eq_true h) hexec
  have run : Run step (fun _ _ => True) (opened (.initial [])) (acceptsRequest.take 6) t :=
    hkeeps.mono fun _ _ _ => trivial
  exact ⟨t, run, (requests_covered (.initial []) _ t run).mpr hkeeps⟩

theorem not_always_requests_covered :
    ¬ ∀ (requests : Board Tree String User (List User)) (events : List RequestsEvent)
      (t : RequestsScreen),
      Run step (fun _ _ => True) (opened requests) events t → t.CellsCovered := by
  intro hall
  have hend : (exec step (fun _ _ => true) (opened (.initial [])) acceptsRequest).map (fun t =>
      (t.view.itemCount, t.teammateRequests.length)) = some (1, 0) := by
    decide +kernel
  obtain ⟨t, hexec, hend⟩ := Option.map_eq_some_iff.mp hend
  obtain ⟨hcount, hlength⟩ := Prod.mk.inj hend
  have hcovered := hall (.initial []) acceptsRequest t (run_of_exec (fun _ _ _ => trivial) hexec)
  rw [cellsCovered_iff, hcount, hlength] at hcovered
  exact absurd hcovered (by decide)

end RequestsScreen

end TeamUp
