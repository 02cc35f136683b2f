import TeamUp.Players

/-!
# Operations that call back

Signing in, creating an account, setting up a profile and fetching users, games and players
end in a completion, on whose call their callers enable a button again or leave a group.
Each closure either calls the completion, makes the next call or leaves the group whose join
calls it; the two that look at the current user do nothing when there is none.  So an
operation completes exactly once unless the user is gone when an account was created or a
name was found free.
-/

namespace TeamUp

inductive AuthError where
  | incorrectUsernameOrPassword
  | passwordsDontMatch
  | invalidPasswordLength
  /-- An error, by its code. -/
  | thrownError (code : Int)
deriving DecidableEq

inductive BannerStyle where
  | danger | success
deriving DecidableEq

structure Banner where
  title : String
  subtitle : String
  style : BannerStyle
deriving DecidableEq

/-- An operation with its arguments, and the time `setupProfile` reads. -/
inductive Operation where
  | loginUser (email password : String)
  | createNewUser (email password passwordConfirmation : String)
  | setupProfile (attempt : Attempt)
  | fetchUser (username : String)
  | fetchUsersGames (username : String)
  | fetchUsers (usernames : List String)
  | fetchPlayers (game : Game) (platform : Option String) (region : Option Region)

/-- What a completion is called with. -/
inductive Outcome where
  | auth (result : Except AuthError Bool)
  | success (success : Bool)
  | games (games : List Game)
  | user (user : Option User)
  | users (users : List User)
  | players (users onlineUsers : List User)

inductive ServiceCall where
  | signIn (email password : String)
  | createUser (email password : String)
  | commitChanges (displayName : String)
  | observeSingleEvent (query : Query)
  | observeLimited (query : Query) (limit : Nat)
deriving DecidableEq

/-- The completion of a `fetchUser`: that of the caller, or the one in `fetchUsers`. -/
inductive UserCompletion where
  | caller | fetchUsers
deriving DecidableEq

/-- The closures handed to the service calls. -/
inductive ServiceClosure where
  | signedIn
  | created
  | looked (attempt : Attempt)
  | committed (attempt : Attempt)
  | gamesRead
  | userRead (completion : UserCompletion)
  | playersRead
  | onlinePlayersRead
deriving DecidableEq

inductive ServiceAnswer where
  /-- An error, by its code, or none. -/
  | finished (error : Option Int)
  | snapshot (content : Tree)
deriving DecidableEq

/-- What a closure finds when it runs. -/
structure Surroundings where
  /-- `Auth.auth().currentUser`, with the display name -/
  currentUser : Option (Option String)
  teammates : List User
deriving DecidableEq

/-- An operation under way. -/
structure Invocation where
  calls : List (ServiceCall × ServiceClosure)
  /-- How many more times the group was entered than left. -/
  group : Nat
  /-- The completion is to be called at the join, with what was gathered by then. -/
  notify : Option (List User → List User → Outcome)
  users : List User
  onlineUsers : List User
  completions : List Outcome
  banners : List Banner
  writes : List Write

inductive InvocationEvent where
  | answered (index : Nat) (answer : ServiceAnswer) (around : Surroundings)
  | joined
deriving DecidableEq

namespace Invocation

def new : Invocation :=
  { calls := [], group := 0, notify := none, users := [], onlineUsers := [], completions := []
    banners := [], writes := [] }

def call (i : Invocation) (service : ServiceCall) (closure : ServiceClosure) : Invocation :=
  { i with calls := i.calls ++ [(service, closure)] }

def complete (i : Invocation) (outcome : Outcome) : Invocation :=
  { i with completions := i.completions ++ [outcome] }

def showNotificationBanner (i : Invocation) (title subtitle : String) (style : BannerStyle) :
    Invocation :=
  { i with banners := i.banners ++ [{ title, subtitle, style }] }

def write (i : Invocation) (w : Write) : Invocation := { i with writes := i.writes ++ [w] }

def enter (i : Invocation) : Invocation := { i with group := i.group + 1 }

def leave (i : Invocation) : Invocation := { i with group := i.group - 1 }

/-- The completion is called with a thrown error, under a banner. -/
def fail (i : Invocation) (code : Int) (title subtitle : String) : Invocation :=
  (i.showNotificationBanner title subtitle .danger).complete (.auth (.error (.thrownError code)))

/-! ### Signing in and registering -/

def loginUser (i : Invocation) (email password : String) : Invocation :=
  i.call (.signIn email password) .signedIn

def signedIn (i : Invocation) (error : Option Int) : Invocation :=
  match error with
  | some errorCode =>
      if errorCode = 17008 then
        i.fail errorCode "Invalid email address"
          "Please check that the email address is correct and try again."
      else if errorCode = 17011 then
        i.fail errorCode "No user with that email exists"
          "This email address is currently not in use by Team Up."
      else if errorCode = 17009 then
        i.fail errorCode "Incorrect password" "Please double check the password and try again."
      else i.fail errorCode "Something went wrong" "Please try again later."
  | none => (i.showNotificationBanner "Welcome back" "" .success).complete (.auth (.ok true))

/-- `count` is `String.count`, which counts grapheme clusters. -/
def createNewUser (count : String → Nat) (i : Invocation)
    (email password passwordConfirmation : String) : Invocation :=
  if count password < 8 ∨ 30 < count password then
    (i.showNotificationBanner "Invalid password length"
      "Passwords have to be 8 to 30 characters long." .danger).complete
      (.auth (.error .invalidPasswordLength))
  else if password ≠ passwordConfirmation then
    (i.complete (.auth (.error .passwordsDontMatch))).showNotificationBanner
      "Passwords don't match." "" .danger
  else i.call (.createUser email password) .created

def created (i : Invocation) (error : Option Int) (around : Surroundings) : Invocation :=
  match error with
  | some errorCode =>
      if errorCode = 17008 then
        i.fail errorCode "Invalid email address"
          "Please check that the email address is correct and try again."
      else if errorCode = 17007 then
        i.fail errorCode "Email already in use"
          "Sign in with the email address or use a new email."
      else
        i.fail errorCode "Could not create account"
          "An error has occurred. Please try again later."
  | none => if around.currentUser.isSome then i.complete (.auth (.ok true)) else i

/-! ### Setting up the profile -/

def setupProfile (i : Invocation) (attempt : Attempt) : Invocation :=
  if ¬ attempt.username.toList.all fun c => c.isAlphanum then
    (i.showNotificationBanner "Invalid username"
      "Usernames can only contain alphanumeric characters." .danger).complete (.success false)
  else if attempt.username.length < 6 ∨ 15 < attempt.username.length then
    (i.showNotificationBanner "Invalid username"
      "Usernames have to be between 6 and 15 characters." .danger).complete (.success false)
  else i.call (.observeSingleEvent (.value (userRef attempt.username))) (.looked attempt)

/-- Without a current user there is no change request to commit. -/
def looked (i : Invocation) (attempt : Attempt) (snapshot : Tree) (around : Surroundings) :
    Invocation :=
  if ¬ snapshot.isEmpty then
    (i.showNotificationBanner "Username is already in use"
      "Choose a different username to continue." .danger).complete (.success false)
  else if around.currentUser.isSome then
    i.call (.commitChanges attempt.username) (.committed attempt)
  else i

def committed (i : Invocation) (attempt : Attempt) (error : Option Int) : Invocation :=
  match error with
  | some _ =>
      (i.showNotificationBanner "An error has occured"
        "Something went wrong when setting your username. Please try again later."
        .danger).complete (.success false)
  | none => (i.write (SetupProfile.storeProfile attempt)).complete (.success true)

/-! ### Fetching -/

def fetchUsersGames (i : Invocation) (username : String) : Invocation :=
  i.call (.observeSingleEvent (.value (userRef username ++ ["games"]))) .gamesRead

def gamesRead (i : Invocation) (snapshot : Tree) : Invocation :=
  i.complete (.games (fetchedGames snapshot))

def fetchUser (i : Invocation) (username : String) (completion : UserCompletion) : Invocation :=
  i.call (.observeSingleEvent (.value (userRef username))) (.userRead completion)

def userRead (i : Invocation) (completion : UserCompletion) (snapshot : Tree) : Invocation :=
  let user := fetchedUser snapshot
  match completion with
  | .caller => i.complete (.user user)
  | .fetchUsers => { i with users := i.users ++ user.toList }.leave

def fetchUsers (i : Invocation) (usernames : List String) : Invocation :=
  { usernames.foldl (fun i username => i.enter.fetchUser username .fetchUsers) i with
    notify := some fun users _ => .users users }

def fetchPlayers (i : Invocation) (game : Game) (platform : Option String)
    (region : Option Region) : Invocation :=
  let query := LFGController.query (lfgRef game.name) platform region
  let onlineQuery := LFGController.query (onlineRef game.name) platform region
  { ((i.enter.call (.observeLimited query LFGController.limit) .playersRead).enter.call
      (.observeLimited onlineQuery LFGController.limit) .onlinePlayersRead) with
    notify := some fun users onlineUsers => .players users onlineUsers }

def playersRead (i : Invocation) (snapshot : Tree) (around : Surroundings) : Invocation :=
  match snapshot.asDictionary with
  | some dictionary =>
      let users := LFGController.getLFGUsersFromDictionary around.currentUser.join
        around.teammates dictionary
      { i with users }.leave
  | none => i.leave

def onlinePlayersRead (i : Invocation) (snapshot : Tree) (around : Surroundings) : Invocation :=
  match snapshot.asDictionary with
  | some dictionary =>
      let onlineUsers := LFGController.getLFGUsersFromDictionary around.currentUser.join
        around.teammates dictionary
      { i with onlineUsers }.leave
  | none => i.leave

/-! ### Steps -/

def start (count : String → Nat) : Operation → Invocation
  | .loginUser email password => new.loginUser email password
  | .createNewUser email password passwordConfirmation =>
      new.createNewUser count email password passwordConfirmation
  | .setupProfile attempt => new.setupProfile attempt
  | .fetchUser username => new.fetchUser username .caller
  | .fetchUsersGames username => new.fetchUsersGames username
  | .fetchUsers usernames => new.fetchUsers usernames
  | .fetchPlayers game platform region => new.fetchPlayers game platform region

def resume (i : Invocation) (around : Surroundings) :
    ServiceClosure → ServiceAnswer → Option Invocation
  | .signedIn, .finished error => some (i.signedIn error)
  | .created, .finished error => some (i.created error around)
  | .looked attempt, .snapshot content => some (i.looked attempt content around)
  | .committed attempt, .finished error => some (i.committed attempt error)
  | .gamesRead, .snapshot content => some (i.gamesRead content)
  | .userRead completion, .snapshot content => some (i.userRead completion content)
  | .playersRead, .snapshot content => some (i.playersRead content around)
  | .onlinePlayersRead, .snapshot content => some (i.onlinePlayersRead content around)
  | _, _ => none

/-- A service call answers once, in any order; a group that was left as often as entered is
    joined. -/
def step (i : Invocation) : InvocationEvent → Option Invocation
  | .answered index answer around =>
      match i.calls[index]? with
      | some (_, closure) =>
          { i with calls := i.calls.eraseIdx index }.resume around closure answer
      | none => none
  | .joined =>
      match i.notify with
      | some block =>
          if i.group = 0 then
            some ({ i with notify := none }.complete (block i.users i.onlineUsers))
          else none
      | none => none

/-! ### What is owed -/

/-- The closures that leave the group, instead of completing. -/
def leaves : ServiceClosure → Bool
  | .userRead .fetchUsers | .playersRead | .onlinePlayersRead => true
  | _ => false

/-- How often the completion is still to be called. -/
def owed (i : Invocation) : Nat :=
  i.calls.countP (fun c => !leaves c.2) + i.notify.isSome.toNat

/-- The calls of the completion, made and owed. -/
def due (i : Invocation) : Nat := i.completions.length + i.owed

/-- The calls that are to leave the group. -/
def waiting (i : Invocation) : Nat := i.calls.countP fun c => leaves c.2

/-- All service calls have answered, and no block waits for the main queue. -/
def Settled (i : Invocation) : Prop := i.calls = [] ∧ ¬ (i.notify.isSome ∧ i.group = 0)

/-- The closure does nothing without a current user. -/
def needsUser : ServiceClosure → ServiceAnswer → Bool
  | .created, .finished none => true
  | .looked _, .snapshot content => content.isEmpty
  | _, _ => false

/-- The closures that look at the current user before they go on. -/
def asksUser : ServiceClosure → Bool
  | .created | .looked _ => true
  | _ => false

/-- There is a current user when an account was created, or a name was found free. -/
def UserPresent (i : Invocation) : InvocationEvent → Prop
  | .answered index answer around =>
      ∀ c ∈ i.calls[index]?, needsUser c.2 answer = true → around.currentUser.isSome
  | .joined => True

instance (i : Invocation) (e : InvocationEvent) : Decidable (i.UserPresent e) := by
  unfold UserPresent
  split <;> infer_instance

variable {count : String → Nat} {i j : Invocation} {closure : ServiceClosure}
variable {answer : ServiceAnswer} {around : Surroundings} {e : InvocationEvent}

theorem due_call (service : ServiceCall) :
    (i.call service closure).due = i.due + if leaves closure then 0 else 1 := by
  have howed : (i.call service closure).owed = i.owed + if leaves closure then 0 else 1 := by
    simp only [owed, call, List.countP_append, List.countP_singleton]
    cases leaves closure
    · exact Nat.add_right_comm _ _ _
    · rfl
  unfold due
  rw [howed, ← Nat.add_assoc]
  rfl

theorem waiting_call (service : ServiceCall) :
    (i.call service closure).waiting = i.waiting + if leaves closure then 1 else 0 := by
  simp only [waiting, call, List.countP_append, List.countP_singleton]

theorem due_complete (outcome : Outcome) : (i.complete outcome).due = i.due + 1 := by
  have hlength : (i.complete outcome).completions.length = i.completions.length + 1 :=
    List.length_append
  unfold due
  rw [hlength]
  exact Nat.add_right_comm _ _ _

/-- A closure makes completions or calls that owe one, and leaves the group. -/
structure Makes (i j : Invocation) (made left : Nat) : Prop where
  due : j.due = i.due + made
  waiting : j.waiting = i.waiting
  group : j.group = i.group - left
  calls : ∀ c ∈ j.calls, c ∈ i.calls ∨ asksUser c.2 = false

theorem makes_complete (outcome : Outcome) : Makes i (i.complete outcome) 1 0 :=
  ⟨due_complete outcome, rfl, rfl, fun _ => Or.inl⟩

theorem calls_call (service : ServiceCall) (hasks : asksUser closure = false) :
    ∀ c ∈ (i.call service closure).calls, c ∈ i.calls ∨ asksUser c.2 = false := fun _ hc =>
  (List.mem_append.mp hc).imp_right fun hnew =>
    (congrArg (fun c => asksUser c.2) (List.mem_singleton.mp hnew)).trans hasks

theorem makes_call (service : ServiceCall) (h : leaves closure = false)
    (hasks : asksUser closure = false) : Makes i (i.call service closure) 1 0 where
  due := (due_call service).trans (by rw [h]; rfl)
  waiting := (waiting_call service).trans (by rw [h]; rfl)
  group := rfl
  calls := calls_call service hasks

theorem makes_fail (code : Int) (title subtitle : String) :
    Makes i (i.fail code title subtitle) 1 0 :=
  ⟨due_complete _, rfl, rfl, fun _ => Or.inl⟩

theorem makes_signedIn (error : Option Int) : Makes i (i.signedIn error) 1 0 := by
  cases error with
  | none => exact ⟨due_complete _, rfl, rfl, fun _ => Or.inl⟩
  | some errorCode =>
    simp only [signedIn]
    split_ifs <;> exact makes_fail ..

theorem makes_created (error : Option Int) :
    Makes i (i.created error around)
      (if error.isNone ∧ around.currentUser = none then 0 else 1) 0 := by
  cases error with
  | none =>
    cases hcurrent : around.currentUser
    · simp only [created, hcurrent]
      exact ⟨rfl, rfl, rfl, fun _ => Or.inl⟩
    · simp only [created, hcurrent]
      exact makes_complete _
  | some errorCode =>
    simp only [created, Option.isNone_some, Bool.false_eq_true, false_and, if_false]
    split_ifs <;> exact makes_fail ..

theorem makes_looked (attempt : Attempt) (snapshot : Tree) :
    Makes i (i.looked attempt snapshot around)
      (if snapshot.isEmpty ∧ around.currentUser = none then 0 else 1) 0 := by
  unfold looked
  cases hexists : snapshot.isEmpty
  · exact ⟨due_complete _, rfl, rfl, fun _ => Or.inl⟩
  · cases hcurrent : around.currentUser
    · exact ⟨rfl, rfl, rfl, fun _ => Or.inl⟩
    · exact makes_call _ rfl rfl

theorem makes_committed (attempt : Attempt) (error : Option Int) :
    Makes i (i.committed attempt error) 1 0 := by
  cases error with
  | none => exact ⟨due_complete _, rfl, rfl, fun _ => Or.inl⟩
  | some errorCode => exact ⟨due_complete _, rfl, rfl, fun _ => Or.inl⟩

theorem makes_userRead (completion : UserCompletion) (snapshot : Tree) :
    Makes i (i.userRead completion snapshot) (if leaves (.userRead completion) then 0 else 1)
      (if leaves (.userRead completion) then 1 else 0) := by
  cases completion with
  | caller => exact makes_complete _
  | fetchUsers => exact ⟨rfl, rfl, rfl, fun _ => Or.inl⟩

theorem makes_playersRead (snapshot : Tree) : Makes i (i.playersRead snapshot around) 0 1 := by
  unfold playersRead
  split <;> exact ⟨rfl, rfl, rfl, fun _ => Or.inl⟩

theorem makes_onlinePlayersRead (snapshot : Tree) :
    Makes i (i.onlinePlayersRead snapshot around) 0 1 := by
  unfold onlinePlayersRead
  split <;> exact ⟨rfl, rfl, rfl, fun _ => Or.inl⟩

/-- **A closure completes or makes one more call**, unless it leaves the group, or needs a current
    user and finds none. -/
theorem makes_resume (hst : i.resume around closure answer = some j) :
    Makes i j
      (if leaves closure ∨ needsUser closure answer ∧ around.currentUser = none then 0 else 1)
      (if leaves closure then 1 else 0) := by
  cases closure with
  | signedIn =>
    cases answer with
    | snapshot content => cases hst
    | finished error =>
      obtain rfl := Option.some.inj hst
      exact makes_signedIn error
  | created =>
    cases answer with
    | snapshot content => cases hst
    | finished error =>
      obtain rfl := Option.some.inj hst
      cases error with
      | none => simpa [leaves, needsUser] using makes_created none
      | some code => exact makes_created (some code)
  | looked attempt =>
    cases answer with
    | finished error => cases hst
    | snapshot content =>
      obtain rfl := Option.some.inj hst
      simpa [leaves, needsUser] using makes_looked attempt content
  | committed attempt =>
    cases answer with
    | snapshot content => cases hst
    | finished error =>
      obtain rfl := Option.some.inj hst
      exact makes_committed attempt error
  | gamesRead =>
    cases answer with
    | finished error => cases hst
    | snapshot content =>
      obtain rfl := Option.some.inj hst
      exact makes_complete _
  | userRead completion =>
    cases answer with
    | finished error => cases hst
    | snapshot content =>
      obtain rfl := Option.some.inj hst
      simpa [needsUser] using makes_userRead completion content
  | playersRead =>
    cases answer with
    | finished error => cases hst
    | snapshot content =>
      obtain rfl := Option.some.inj hst
      exact makes_playersRead content
  | onlinePlayersRead =>
    cases answer with
    | finished error => cases hst
    | snapshot content =>
      obtain rfl := Option.some.inj hst
      exact makes_onlinePlayersRead content

/-- A call that is answered is not owed, or not to leave the group, any longer. -/
theorem due_answered {index : Nat} {service : ServiceCall}
    (h : i.calls[index]? = some (service, closure)) :
    i.due = due { i with calls := i.calls.eraseIdx index } + (if leaves closure then 0 else 1) ∧
      i.waiting =
        waiting { i with calls := i.calls.eraseIdx index } + if leaves closure then 1 else 0 := by
  obtain ⟨before, after, hsplit, hlength⟩ := split_at h
  have herase : i.calls.eraseIdx index = before ++ after := by
    rw [hsplit, ← hlength, eraseIdx_split]
  have hcount : ∀ p : ServiceCall × ServiceClosure → Bool,
      i.calls.countP p =
        (i.calls.eraseIdx index).countP p + if p (service, closure) then 1 else 0 := by
    intro p
    rw [herase, hsplit, List.countP_append, List.countP_append, List.countP_cons, Nat.add_assoc]
  refine ⟨?_, hcount _⟩
  have howed := hcount fun c => !leaves c.2
  simp only [due, owed] at howed ⊢
  cases hleaves : leaves closure
  · simp only [hleaves, Bool.not_false, if_true] at howed
    simp only [Bool.false_eq_true, if_false]
    omega
  · simp only [hleaves, Bool.not_true, Bool.false_eq_true, if_false] at howed
    simp only [if_true]
    omega

/-- **One step** keeps what is due, exactly if a current user is present where one is needed. -/
theorem step_due (hst : i.step e = some j) (h : i.group = i.waiting) :
    j.group = j.waiting ∧ (i.UserPresent e → j.due = i.due) ∧
      (¬ i.UserPresent e → j.due + 1 = i.due) := by
  cases e with
  | answered index answer around =>
    simp only [step] at hst
    split at hst
    · rename_i service closure hcall
      obtain ⟨hdue, hwaiting, hgroup, -⟩ := makes_resume hst
      obtain ⟨hdue', hwaiting'⟩ := due_answered hcall
      have hpresent : i.UserPresent (.answered index answer around) ↔
          (needsUser closure answer = true → around.currentUser.isSome) := by
        simp [UserPresent, hcall]
      -- a closure that leaves the group needs no current user
      have hleaves : leaves closure = true → needsUser closure answer = false := by
        cases closure with
        | userRead completion => exact fun _ => rfl
        | playersRead | onlinePlayersRead => exact fun _ => rfl
        | _ => exact fun h => (by cases h)
      rw [hpresent]
      have hgroups : i.group = i.waiting := h
      refine ⟨?_, fun hhere => ?_, fun hgone => ?_⟩
      · rw [hgroup, hwaiting]
        exact Nat.sub_eq_of_eq_add (hgroups.trans hwaiting')
      · have hlost : ¬ (needsUser closure answer = true ∧ around.currentUser = none) := by
          rintro ⟨hneeds, hnone⟩
          have hsome := hhere hneeds
          rw [hnone] at hsome
          cases hsome
        rw [hdue, hdue']
        simp only [hlost, or_false]
      · obtain ⟨hneeds, hgone⟩ := Classical.not_imp.mp hgone
        have hnone : around.currentUser = none := by simpa using hgone
        have hstays : ¬ leaves closure = true := fun h => by
          rw [hleaves h] at hneeds
          cases hneeds
        rw [hdue, hdue', if_pos (Or.inr ⟨hneeds, hnone⟩), if_neg hstays]
    · cases hst
  | joined =>
    simp only [step] at hst
    split at hst
    · rename_i block hnotify
      obtain ⟨hgroup, rfl⟩ := of_guarded hst
      refine ⟨h, fun _ => ?_, fun habsent => (habsent trivial).elim⟩
      rw [due_complete]
      simp [due, owed, hnotify]
      omega
    · cases hst

/-! ### Starting -/

theorem due_createNewUser (email password passwordConfirmation : String) :
    (i.createNewUser count email password passwordConfirmation).due = i.due + 1 ∧
      (i.createNewUser count email password passwordConfirmation).waiting = i.waiting ∧
      (i.createNewUser count email password passwordConfirmation).group = i.group := by
  unfold createNewUser
  split_ifs
  · exact ⟨due_complete _, rfl, rfl⟩
  · exact ⟨due_complete _, rfl, rfl⟩
  · exact ⟨due_call _, waiting_call _, rfl⟩

theorem due_setupProfile (attempt : Attempt) :
    (i.setupProfile attempt).due = i.due + 1 ∧ (i.setupProfile attempt).waiting = i.waiting ∧
      (i.setupProfile attempt).group = i.group := by
  unfold setupProfile
  split
  · exact ⟨due_complete _, rfl, rfl⟩
  · split
    · exact ⟨due_complete _, rfl, rfl⟩
    · exact ⟨due_call _, waiting_call _, rfl⟩

/-- A user is fetched in a group. -/
structure Enters (i j : Invocation) : Prop where
  due : j.due = i.due
  calls : ∀ c ∈ j.calls, c ∈ i.calls ∨ asksUser c.2 = false
  notify : j.notify = i.notify
  group : i.group = i.waiting → j.group = j.waiting

theorem enters_call (service : ServiceCall) (h : leaves closure = true)
    (hasks : asksUser closure = false) : Enters i (i.enter.call service closure) where
  due := (due_call service).trans (by rw [h]; rfl)
  calls := calls_call service hasks
  notify := rfl
  group := fun hgroup => by
    rw [waiting_call, h]
    exact congrArg (· + 1) hgroup

theorem enters_fetchUsers (usernames : List String) :
    Enters i (usernames.foldl (fun i username => i.enter.fetchUser username .fetchUsers) i) := by
  induction usernames generalizing i with
  | nil => exact ⟨rfl, fun _ => Or.inl, rfl, id⟩
  | cons username rest ih =>
    have hfirst : Enters i (i.enter.fetchUser username .fetchUsers) := enters_call _ rfl rfl
    obtain ⟨hdue, hcalls, hnotify, hgroup⟩ := ih (i := i.enter.fetchUser username .fetchUsers)
    refine ⟨hdue.trans hfirst.due, fun c hc => ?_, hnotify.trans hfirst.notify,
      hgroup ∘ hfirst.group⟩
    exact (hcalls c hc).elim (hfirst.calls c) Or.inr

theorem due_notify (block : List User → List User → Outcome) (h : i.notify = none) :
    due { i with notify := some block } = i.due + 1 := by
  simp [due, owed, h, Nat.add_assoc]

/-- One completion is due for every operation. -/
theorem start_due (count : String → Nat) (op : Operation) :
    (start count op).group = (start count op).waiting ∧ (start count op).due = 1 := by
  cases op with
  | loginUser email password => exact ⟨rfl, rfl⟩
  | createNewUser email password passwordConfirmation =>
    obtain ⟨hdue, hwaiting, hgroup⟩ : _ ∧ _ ∧ _ :=
      due_createNewUser email password passwordConfirmation
    exact ⟨hgroup.trans hwaiting.symm, hdue⟩
  | setupProfile attempt =>
    obtain ⟨hdue, hwaiting, hgroup⟩ := due_setupProfile (i := new) attempt
    exact ⟨hgroup.trans hwaiting.symm, hdue⟩
  | fetchUser username => exact ⟨rfl, rfl⟩
  | fetchUsersGames username => exact ⟨rfl, rfl⟩
  | fetchUsers usernames =>
    obtain ⟨hdue, -, hnotify, hgroup⟩ := enters_fetchUsers (i := new) usernames
    exact ⟨hgroup rfl, (due_notify _ hnotify).trans (congrArg (· + 1) hdue)⟩
  | fetchPlayers game platform region => exact ⟨rfl, rfl⟩

/-! ### Runs -/

/-- The group is left by the calls under way, and at most one completion is due. -/
def Bounded (i : Invocation) : Prop := i.group = i.waiting ∧ i.due ≤ 1

theorem bounded_start (count : String → Nat) (op : Operation) : (start count op).Bounded :=
  (start_due count op).imp id Nat.le_of_eq

theorem Bounded.step (h : i.Bounded) (hst : i.step e = some j) : j.Bounded := by
  obtain ⟨hgroup, hkept, hlost⟩ := step_due hst h.1
  refine ⟨hgroup, ?_⟩
  by_cases hpresent : i.UserPresent e
  · exact (hkept hpresent).le.trans h.2
  · exact (Nat.le_succ _).trans ((hlost hpresent).le.trans h.2)

theorem Bounded.due_step (h : i.Bounded) (hst : i.step e = some j) :
    j.due = 1 ↔ i.due = 1 ∧ i.UserPresent e := by
  obtain ⟨-, hkept, hlost⟩ := step_due hst h.1
  by_cases hpresent : i.UserPresent e
  · rw [hkept hpresent, and_iff_left hpresent]
  · have hless := hlost hpresent
    have hdue := h.2
    refine iff_of_false ?_ fun hone => hpresent hone.2
    omega

theorem due_run_iff {op : Operation} {events : List InvocationEvent}
    (run : Run step (fun _ _ => True) (start count op) events i) :
    i.due = 1 ↔ Run step UserPresent (start count op) events i :=
  run.allowed_iff (fun _ _ _ hu hst => Bounded.step hu hst) (bounded_start count op)
    (start_due count op).2 fun _ _ _ hu hst => hu.due_step hst

/-- Nothing is owed once everything has answered. -/
theorem Settled.owed_eq (h : i.Settled) (hgroup : i.group = i.waiting) : i.owed = 0 := by
  obtain ⟨hcalls, hjoined⟩ := h
  have hleft : i.group = 0 := by
    rw [hgroup, waiting, hcalls]
    rfl
  have hnotify : i.notify.isSome = false := by
    cases hblock : i.notify.isSome
    · rfl
    · exact (hjoined ⟨hblock, hleft⟩).elim
  rw [owed, hcalls, hnotify]
  rfl

/-- **An operation calls its completion exactly once**, when everything has answered, exactly if
    there was a current user when an account was created or a name found free; it never calls it
    twice. -/
theorem completes_once_iff {op : Operation} {events : List InvocationEvent}
    (run : Run step (fun _ _ => True) (start count op) events i) :
    i.completions.length ≤ 1 ∧ (i.Settled →
      (i.completions.length = 1 ↔ Run step UserPresent (start count op) events i)) := by
  obtain ⟨hgroup, hdue⟩ := run.invariant Bounded (fun _ _ _ hu _ hst => hu.step hst)
    (bounded_start count op)
  constructor
  · exact (Nat.le_add_right _ _).trans hdue
  · intro hsettled
    rw [← due_run_iff run, due, hsettled.owed_eq hgroup, Nat.add_zero]

/-- The operations whose closures look at the current user. -/
def asksForUser : Operation → Bool
  | .createNewUser .. | .setupProfile _ => true
  | _ => false

/-- No call under way looks at the current user. -/
def AsksNobody (i : Invocation) : Prop := ∀ c ∈ i.calls, asksUser c.2 = false

theorem asksNobody_start {op : Operation} (h : asksForUser op = false) :
    (start count op).AsksNobody := by
  cases op with
  | createNewUser email password passwordConfirmation => cases h
  | setupProfile attempt => cases h
  | fetchUsers usernames =>
    exact fun c hc => ((enters_fetchUsers (i := new) usernames).calls c hc).resolve_left
      List.not_mem_nil
  | loginUser email password | fetchUser username | fetchUsersGames username =>
    exact fun c hc => (by rw [List.mem_singleton.mp hc]; rfl)
  | fetchPlayers game platform region =>
    intro c hc
    rcases List.mem_append.mp hc with hfirst | hsecond
    · rw [List.mem_singleton.mp hfirst]
      rfl
    · rw [List.mem_singleton.mp hsecond]
      rfl

theorem AsksNobody.step (h : i.AsksNobody) (hst : i.step e = some j) : j.AsksNobody := by
  cases e with
  | answered index answer around =>
    simp only [Invocation.step] at hst
    split at hst
    · intro c hc
      refine ((makes_resume hst).calls c hc).elim (fun hrest => ?_) id
      exact h c (List.mem_of_mem_eraseIdx hrest)
    · cases hst
  | joined =>
    simp only [Invocation.step] at hst
    split at hst
    · obtain ⟨-, rfl⟩ := of_guarded hst
      exact h
    · cases hst

theorem AsksNobody.userPresent (h : i.AsksNobody) (e : InvocationEvent) : i.UserPresent e := by
  cases e with
  | joined => trivial
  | answered index answer around =>
    intro c hc hneeds
    have hasks := h c (List.mem_of_getElem? hc)
    obtain ⟨service, closure⟩ := c
    cases closure with
    | created | looked attempt => cases hasks
    | _ => cases hneeds

/-- Signing in and fetching call their completions exactly once, whatever answers. -/
theorem completes_once {op : Operation} {events : List InvocationEvent}
    (hop : asksForUser op = false) (run : Run step (fun _ _ => True) (start count op) events i)
    (hsettled : i.Settled) : i.completions.length = 1 := by
  obtain ⟨hgroup, -⟩ := run.invariant Bounded (fun _ _ _ hu _ hst => hu.step hst)
    (bounded_start count op)
  have hdue : i.due = 1 := by
    refine (run.invariant (fun i => i.AsksNobody ∧ i.Bounded ∧ i.due = 1) ?_
      ⟨asksNobody_start hop, bounded_start count op, (start_due count op).2⟩).2.2
    rintro u e v ⟨hasks, hbounded, hone⟩ - hst
    exact ⟨hasks.step hst, hbounded.step hst,
      (hbounded.due_step hst).mpr ⟨hone, hasks.userPresent e⟩⟩
  rw [due, hsettled.owed_eq hgroup, Nat.add_zero] at hdue
  exact hdue

def twoUsers : Invocation := start String.length (.fetchUsers ["alice", "bob"])

/-- Of two users that are fetched, the second arrives first. -/
def secondFirst : List InvocationEvent :=
  [.answered 1 (.snapshot (record "bob")) ⟨none, []⟩,
    .answered 0 (.snapshot .empty) ⟨none, []⟩, .joined]

theorem completes_once_iff_secondFirst :
    ∃ i, Run step (fun _ _ => True) twoUsers secondFirst i ∧ i.Settled ∧
      (i.completions.length = 1 ↔ Run step UserPresent twoUsers secondFirst i) := by
  have hend : (exec step (fun _ _ => true) twoUsers secondFirst).map
      (fun i => (i.calls, i.notify.isSome)) = some ([], false) := by
    decide +kernel
  obtain ⟨i, hexec, hi⟩ := Option.map_eq_some_iff.mp hend
  have run : Run step (fun _ _ => True) (start String.length (.fetchUsers ["alice", "bob"]))
    secondFirst i := run_of_exec (fun _ _ _ => trivial) hexec
  have hnotify : i.notify.isSome = false := congrArg Prod.snd hi
  have hsettled : i.Settled := ⟨congrArg Prod.fst hi, fun h => (by simp [hnotify] at h)⟩
  exact ⟨i, run, hsettled, (completes_once_iff run).2 hsettled⟩

/-- The account is created, and the current user is gone when the closure runs. -/
def goneAtOnce : List InvocationEvent := [.answered 0 (.finished none) ⟨none, []⟩]

theorem not_always_once :
    ¬ ∀ (count : String → Nat) (op : Operation) (events : List InvocationEvent) (i : Invocation),
      Run step (fun _ _ => True) (start count op) events i → i.Settled →
        i.completions.length = 1 := by
  intro hall
  have hend : (exec step (fun _ _ => true)
      (start String.length (.createNewUser "a@b.c" "password" "password")) goneAtOnce).map
      (fun i => (i.calls, i.notify.isSome, i.completions.length)) = some ([], false, 0) := by
    decide +kernel
  obtain ⟨i, hexec, hi⟩ := Option.map_eq_some_iff.mp hend
  have hnotify : i.notify.isSome = false := congrArg (fun x => x.2.1) hi
  have hnone : i.completions.length = 0 := congrArg (fun x => x.2.2) hi
  have hsettled : i.Settled := ⟨congrArg Prod.fst hi, fun h => (by simp [hnotify] at h)⟩
  have honce := hall _ _ _ i (run_of_exec (fun _ _ _ => trivial) hexec) hsettled
  omega

end Invocation

end TeamUp
