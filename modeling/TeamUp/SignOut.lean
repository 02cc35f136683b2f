import TeamUp.FCMToken
import TeamUp.SignedIn

/-!
# A log-out that fails

`signOutUser` clears the chats, the teammates and the requests, removes their observers and
erases the messaging token before it asks to be signed out, and restores none of it where
that throws.  Whoever is still signed in then has lost everything there was to lose, and
hears nothing more until the data is fetched again.
-/

namespace TeamUp

/-- What a log-out touches. -/
structure Account where
  device : Device
  database : Tree
  /-- Writes not yet applied, in the order they were issued. -/
  outstanding : List Write

/-- The three `clearDataAndObservers`. -/
def Device.clearDataAndObservers (d : Device) : Device :=
  { d with
    chats := d.chats.clearDataAndObservers d.currentUser
    teammates := d.teammates.clearDataAndObservers d.currentUser
    teammateRequests := d.teammateRequests.clearDataAndObservers d.currentUser }

/-- Nothing of the current user is observed. -/
def Device.Deaf (d : Device) : Prop :=
  ∀ currentUser ∈ d.currentUser, currentUser ∉ d.chats.observers ∧
    currentUser ∉ d.teammates.observers ∧ currentUser ∉ d.teammateRequests.observers

namespace Account

/-- The database with the outstanding writes applied, as the device sees it. -/
def view (s : Account) : Tree := s.outstanding.foldl (fun db w => w.apply db) s.database

def removeFCMToken (s : Account) : Account :=
  match s.device.currentUser with
  | some currentUser => { s with outstanding := s.outstanding ++ [Phone.removeToken currentUser] }
  | none => s

/-- What is cleared stays cleared if `Auth.signOut` throws. -/
def signOutUser (s : Account) (throws : Bool) : Account :=
  let s := { s with device := s.device.clearDataAndObservers }
  let s := s.removeFCMToken
  if throws then s else { s with device := { s.device with signedIn := none } }

theorem device_signOutUser (s : Account) (throws : Bool) : (s.signOutUser throws).device =
    if throws then s.device.clearDataAndObservers else s.device.signOutUser := by
  have hdevice : ({ s with
      device := s.device.clearDataAndObservers } : Account).removeFCMToken.device =
        s.device.clearDataAndObservers := by
    unfold removeFCMToken
    split <;> rfl
  cases throws with
  | true => exact hdevice
  | false =>
    simp only [signOutUser, hdevice, Bool.false_eq_true, if_false]
    rfl

theorem view_signOutUser (s : Account) (throws : Bool) : (s.signOutUser throws).view =
    match s.device.currentUser with
    | some currentUser => (Phone.removeToken currentUser).apply s.view
    | none => s.view := by
  have hsame : ({ s with device := s.device.clearDataAndObservers } : Account).device.currentUser =
      s.device.currentUser := rfl
  cases huser : s.device.currentUser <;> cases throws <;>
    simp [signOutUser, removeFCMToken, hsame, huser, view, List.foldl_append]

/-! ### What a failure changes -/

/-- The second state has what the first holds, observes and stores of the current user. -/
structure AsBefore (s t : Account) : Prop where
  chats : t.device.chats.board.mirror = s.device.chats.board.mirror
  teammates : t.device.teammates.board.mirror = s.device.teammates.board.mirror
  teammateRequests :
    t.device.teammateRequests.board.mirror = s.device.teammateRequests.board.mirror
  chatsObservers : t.device.chats.observers = s.device.chats.observers
  teammatesObservers : t.device.teammates.observers = s.device.teammates.observers
  requestsObservers : t.device.teammateRequests.observers = s.device.teammateRequests.observers
  fcmToken : ∀ currentUser ∈ s.device.currentUser,
    Unchanged (userRef currentUser ++ ["fcmToken"]) s.view t.view

/-- Nothing is held or observed, and the token is erased already. -/
structure NothingToLose (s : Account) : Prop where
  empty : s.device.FeedsEmpty
  deaf : s.device.Deaf
  erased : ∀ currentUser ∈ s.device.currentUser,
    PathTree.Same (s.view.sub (userRef currentUser ++ ["fcmToken"])) (Tree.str " ")

end Account

/-! ### The observers -/

section Feeds

variable {Element Item Entry Held : Type} {f g : Feed Item Entry Held} {n : String}

theorem Feed.observers_clear_eq_iff :
    (f.clearDataAndObservers (some n)).observers = f.observers ↔ n ∉ f.observers := by
  simp only [Feed.clearDataAndObservers, List.filter_eq_self, decide_eq_true_eq, ne_eq,
    Option.some.injEq]
  constructor
  · intro hothers hmem
    exact hothers n hmem rfl
  · intro habsent account hmem heq
    exact habsent (heq ▸ hmem)

theorem Feed.observers_clear_none : (f.clearDataAndObservers none).observers = f.observers := by
  simp [Feed.clearDataAndObservers]

theorem Feed.not_observed_clear : n ∉ (f.clearDataAndObservers (some n)).observers := by
  simp [Feed.clearDataAndObservers]

theorem Feed.observers_step {O : Observer Tree Element Item Tree Entry (List Held)}
    {e : FeedEvent} (hst : f.step O e = some g) : g.observers = f.observers := by
  cases e with
  | observed account snapshot =>
    obtain ⟨-, rfl⟩ := of_guarded hst
    rfl
  | returned i index response =>
    obtain ⟨b, -, rfl⟩ := Option.map_eq_some_iff.mp hst
    rfl
  | joined i =>
    obtain ⟨b, -, rfl⟩ := Option.map_eq_some_iff.mp hst
    rfl

end Feeds

namespace Device

variable {d d' : Device}

theorem deaf_clear (d : Device) : d.clearDataAndObservers.Deaf := by
  intro currentUser huser
  have hsame : d.clearDataAndObservers.currentUser = d.currentUser := rfl
  rw [hsame, Option.mem_def] at huser
  simp only [clearDataAndObservers, huser]
  exact ⟨Feed.not_observed_clear, Feed.not_observed_clear, Feed.not_observed_clear⟩

/-- The events that fetch nothing. -/
def FetchesNothing : DeviceEvent → Prop
  | .loginUser _ | .fetchUserData => False
  | _ => True

/-- Who observes nothing hears nothing until the data is fetched. -/
theorem Deaf.step (h : d.Deaf) {e : DeviceEvent} (hnothing : FetchesNothing e)
    (hst : d.step e = some d') : d'.Deaf := by
  intro currentUser huser
  cases e with
  | loginUser displayName => exact hnothing.elim
  | fetchUserData => exact hnothing.elim
  | signOutUser =>
    obtain rfl := Option.some.inj hst
    cases huser
  | chats e =>
    obtain ⟨f, hf, rfl⟩ := Option.map_eq_some_iff.mp hst
    simp only [Feed.observers_step hf]
    exact h currentUser huser
  | teammates e =>
    obtain ⟨f, hf, rfl⟩ := Option.map_eq_some_iff.mp hst
    simp only [Feed.observers_step hf]
    exact h currentUser huser
  | teammateRequests e =>
    obtain ⟨f, hf, rfl⟩ := Option.map_eq_some_iff.mp hst
    simp only [Feed.observers_step hf]
    exact h currentUser huser
  | currentGame e =>
    obtain ⟨f, -, rfl⟩ := Option.map_eq_some_iff.mp hst
    exact h currentUser huser

end Device

namespace Account

variable {s : Account}

/-- After a failed log-out nothing of the user is observed until the data is fetched again. -/
theorem deaf_after_failure {events : List DeviceEvent} {d : Device}
    (run : Run Device.step (fun _ e => Device.FetchesNothing e) (s.signOutUser true).device
      events d) : d.Deaf := by
  refine run.invariant Device.Deaf (fun _ _ _ hu hok hst => hu.step hok hst) ?_
  rw [device_signOutUser]
  exact s.device.deaf_clear

/-- The token is unchanged if it was erased before. -/
theorem unchanged_removeToken_iff {db : Tree} {username : String} :
    Unchanged (userRef username ++ ["fcmToken"]) db ((Phone.removeToken username).apply db) ↔
      PathTree.Same (db.sub (userRef username ++ ["fcmToken"])) (Tree.str " ") := by
  have hstored : ∀ q, ((Phone.removeToken username).apply db).leafAt
      (userRef username ++ ["fcmToken"] ++ q) = (Tree.str " ").leafAt q := by
    intro q
    rw [List.append_assoc, List.singleton_append]
    exact leafAt_storeField "fcmToken" (Tree.str " ") q
  constructor
  · intro hunchanged
    refine PathTree.same_of_leafAt fun q => ?_
    rw [PathTree.leafAt_sub, ← hunchanged q, hstored q]
  · intro hsame q
    rw [hstored q, ← hsame.leafAt q, PathTree.leafAt_sub]

theorem observers_unchanged_iff : (s.device.clearDataAndObservers.chats.observers =
      s.device.chats.observers ∧
    s.device.clearDataAndObservers.teammates.observers = s.device.teammates.observers ∧
    s.device.clearDataAndObservers.teammateRequests.observers =
      s.device.teammateRequests.observers) ↔ s.device.Deaf := by
  unfold Device.Deaf
  simp only [Device.clearDataAndObservers]
  cases huser : s.device.currentUser with
  | none => simp [Feed.observers_clear_none]
  | some currentUser => simp [Feed.observers_clear_eq_iff]

end Account

open Account

/-- **A log-out that fails changes nothing of what the user holds, observes and has stored
    exactly if there was nothing to lose.** -/
theorem signOut_failed_asBefore_iff (s : Account) :
    s.AsBefore (s.signOutUser true) ↔ s.NothingToLose := by
  have hdevice : (s.signOutUser true).device = s.device.clearDataAndObservers :=
    device_signOutUser s true
  have htoken : (∀ currentUser ∈ s.device.currentUser,
      Unchanged (userRef currentUser ++ ["fcmToken"]) s.view (s.signOutUser true).view) ↔
      ∀ currentUser ∈ s.device.currentUser,
        PathTree.Same (s.view.sub (userRef currentUser ++ ["fcmToken"])) (Tree.str " ") := by
    refine forall₂_congr fun currentUser huser => ?_
    rw [view_signOutUser, Option.mem_def.mp huser]
    exact unchanged_removeToken_iff
  constructor
  · intro h
    refine ⟨⟨?_, ?_, ?_⟩, ?_, htoken.mp h.fcmToken⟩
    · exact (hdevice ▸ h.chats).symm
    · exact (hdevice ▸ h.teammates).symm
    · exact (hdevice ▸ h.teammateRequests).symm
    · exact observers_unchanged_iff.mp
        ⟨hdevice ▸ h.chatsObservers, hdevice ▸ h.teammatesObservers, hdevice ▸ h.requestsObservers⟩
  · rintro ⟨⟨hchats, hteammates, hrequests⟩, hdeaf, herased⟩
    obtain ⟨hchatsObs, hteammatesObs, hrequestsObs⟩ := observers_unchanged_iff.mpr hdeaf
    refine ⟨?_, ?_, ?_, ?_, ?_, ?_, htoken.mpr herased⟩
    · rw [hdevice, hchats]
      rfl
    · rw [hdevice, hteammates]
      rfl
    · rw [hdevice, hrequests]
      rfl
    · rw [hdevice, hchatsObs]
    · rw [hdevice, hteammatesObs]
    · rw [hdevice, hrequestsObs]

/-- Alice, who has just logged in. -/
def aliceLoggedIn : Account :=
  { device := { Device.initial [] with signedIn := some (some "alice1") }.fetchUserData
    database := PathTree.empty.put ["users", "alice1", "fcmToken"] (Tree.str "token")
    outstanding := [] }

theorem not_always_asBefore :
    ¬ ∀ s : Account, s.device.signedIn.isSome → s.AsBefore (s.signOutUser true) := by
  intro hall
  have hobservers := (hall aliceLoggedIn rfl).chatsObservers
  have hlost : (aliceLoggedIn.signOutUser true).device.chats.observers = [] ∧
      aliceLoggedIn.device.chats.observers = ["alice1"] := by
    decide +kernel
  rw [hlost.1, hlost.2] at hobservers
  cases hobservers

end TeamUp
