import TeamUp.Listing
import TeamUp.SetupProfile

/-!
# The messaging token

The token of the device is stored with the record of whoever is signed in when a fetch of
it returns, and erased when that account logs out.  It stays with that account alone as
long as the name it is stored under does not change otherwise (by a commit of another
name, or a log-in over the account), and no launch loses the write that erases it.
-/

namespace TeamUp

open SetupProfile

/-- The accounts and the database, with what the device has under way. -/
structure Phone where
  signedIn : Option Nat
  displayName : Nat → Option String
  database : Tree
  /-- Writes not yet applied, in the order they were issued. -/
  outstanding : List Write
  /-- Look-ups of names under way, commits of names with their accounts, and commits that
      succeeded whose callback has not run. -/
  lookups : List Attempt
  commits : List (Nat × Attempt)
  committed : List Attempt
  /-- How many fetches of the token are under way. -/
  tokens : Nat

inductive PhoneEvent where
  /-- A launch; how many of the outstanding writes reached the database before. -/
  | launch (kept : Nat)
  | createNewUser (account : Nat)
  | loginUser (account : Nat)
  | setupProfile (attempt : Attempt)
  | lookedUp (index : Nat) (snapshot : Tree)
  | commitServed (index : Nat) (error : Bool)
  | commitReturned (index : Nat)
  | tokenFetched (error : Bool)
  | signOutUser
  | deliver
deriving DecidableEq

namespace Phone

/-- `Auth.auth().currentUser?.displayName` -/
def currentUser (s : Phone) : Option String := s.signedIn.bind s.displayName

/-- The database with the outstanding writes applied, as the device sees it. -/
def view (s : Phone) : Tree := s.outstanding.foldl (fun db w => w.apply db) s.database

def storeToken (username token : String) : Write := storeField username "fcmToken" (Tree.str token)

def removeToken (username : String) : Write := storeField username "fcmToken" (Tree.str " ")

/-- The write that stores a fetched token. -/
def fetchFCMToken (s : Phone) (token : String) : List Write :=
  match s.currentUser with
  | some currentUser => [storeToken currentUser token]
  | none => []

def removeFCMToken (s : Phone) : List Write :=
  match s.currentUser with
  | some currentUser => [removeToken currentUser]
  | none => []

def step (token : String) (s : Phone) : PhoneEvent → Option Phone
  | .launch kept =>
      some { s with
        outstanding := s.outstanding.take kept
        lookups := [], commits := [], committed := [], tokens := 1 }
  | .createNewUser account =>
      if s.displayName account = none then some { s with signedIn := some account } else none
  | .loginUser account => some { s with signedIn := some account, tokens := s.tokens + 1 }
  | .setupProfile attempt =>
      if acceptable attempt.username then some { s with lookups := s.lookups ++ [attempt] }
      else some s
  | .lookedUp index snapshot =>
      match s.lookups[index]? with
      | some attempt =>
          if (Query.value (userRef attempt.username)).answers s.view snapshot = true then
            some { s with
              lookups := s.lookups.eraseIdx index
              commits := s.commits ++
                if snapshot.isEmpty then (s.signedIn.map fun account => (account, attempt)).toList
                else [] }
          else none
      | none => none
  | .commitServed index error =>
      match s.commits[index]? with
      | some (account, attempt) =>
          let s := { s with commits := s.commits.eraseIdx index }
          if error then some s
          else some { s with
            displayName := Function.update s.displayName account (some attempt.username)
            committed := s.committed ++ [attempt] }
      | none => none
  | .commitReturned index =>
      match s.committed[index]? with
      | some attempt =>
          some { s with
            committed := s.committed.eraseIdx index
            outstanding := s.outstanding ++ [storeProfile attempt]
            tokens := s.tokens + 1 }
      | none => none
  | .tokenFetched error =>
      if 0 < s.tokens then
        some { s with
          outstanding := s.outstanding ++ if error then [] else s.fetchFCMToken token
          tokens := s.tokens - 1 }
      else none
  | .signOutUser =>
      some { s with outstanding := s.outstanding ++ s.removeFCMToken, signedIn := none }
  | .deliver =>
      match s.outstanding with
      | w :: rest => some { s with database := w.apply s.database, outstanding := rest }
      | [] => none

/-! ### Where the token is -/

def HasToken (token : String) (db : Tree) (username : String) : Prop :=
  db.leafAt (userRef username ++ ["fcmToken"]) = some (.str token)

instance (token : String) (db : Tree) (username : String) :
    Decidable (HasToken token db username) :=
  inferInstanceAs (Decidable (_ = _))

/-- At most one record has the token, that of the account signed in. -/
structure TokenPlaced (token : String) (s : Phone) : Prop where
  single : ∀ n n', HasToken token s.database n → HasToken token s.database n' → n = n'
  signedIn : ∀ n, HasToken token s.database n → s.currentUser = some n

/-- The record a write erases the token of. -/
def erasedFrom : Write → Option String
  | .updateChildValues ["users", username] values =>
      if values = [("fcmToken", Tree.str " ")] then some username else none
  | _ => none

/-- The display name of whoever is signed in after an event that erases no token. -/
def nextUser (s : Phone) : PhoneEvent → Option String
  | .createNewUser account | .loginUser account => s.displayName account
  | .commitServed index false =>
      match s.commits[index]? with
      | some (account, attempt) =>
          if s.signedIn = some account then some attempt.username else s.currentUser
      | none => s.currentUser
  | _ => s.currentUser

/-- The name a token is stored under changes only by logging out, and a launch loses no write
    that erases it. -/
def KeepsToken (token : String) (s : Phone) : PhoneEvent → Prop
  | .launch kept => ∀ w ∈ s.outstanding.drop kept, ∀ n ∈ erasedFrom w, s.currentUser = some n ∨
      ¬ HasToken token ((s.outstanding.take kept).foldl (fun db w => w.apply db) s.database) n
  | e => ∀ n ∈ s.currentUser, HasToken token s.view n → s.nextUser e = some n

instance (token : String) (s : Phone) (e : PhoneEvent) : Decidable (s.KeepsToken token e) := by
  unfold KeepsToken
  split <;> infer_instance

/-! ### Writes -/

variable {token : String} {db : Tree} {n : String}

theorem hasToken_storeProfile (attempt : Attempt) :
    HasToken token ((storeProfile attempt).apply db) n ↔ HasToken token db n := by
  unfold HasToken
  by_cases h : n = attempt.username
  · subst h
    have hother : "fcmToken" ∉ (profileValues attempt).map Prod.fst := by simp [profileValues]
    rw [storeProfile, Write.leafAt_update_other hother]
  · rw [Write.leafAt_apply_beside]
    simp [Incomparable, Write.ref, storeProfile, h, Ne.symm h]

theorem hasToken_storeField (username value : String) :
    HasToken token ((storeField username "fcmToken" (Tree.str value)).apply db) n ↔
      if n = username then value = token else HasToken token db n := by
  unfold HasToken
  split
  · rename_i h
    subst h
    rw [leafAt_storeField]
    simp
  · rename_i h
    rw [Write.leafAt_apply_beside]
    simp [Incomparable, Write.ref, storeField, h, Ne.symm h]

/-- What the device writes. -/
inductive PhoneWrite (token : String) : Write → Prop
  | profile (attempt : Attempt) : PhoneWrite token (storeProfile attempt)
  | store (username : String) : PhoneWrite token (storeToken username token)
  | remove (username : String) : PhoneWrite token (removeToken username)

/-- A token stays under writes that do not erase it. -/
theorem hasToken_foldl {ws : List Write} (hws : ∀ w ∈ ws, PhoneWrite token w)
    (hkept : ∀ w ∈ ws, erasedFrom w ≠ some n) (h : HasToken token db n) :
    HasToken token (ws.foldl (fun db w => w.apply db) db) n := by
  induction ws generalizing db with
  | nil => exact h
  | cons w rest ih =>
    refine ih (fun w' hw' => hws w' (by simp [hw'])) (fun w' hw' => hkept w' (by simp [hw'])) ?_
    cases hws w (by simp) with
    | profile attempt => exact (hasToken_storeProfile attempt).mpr h
    | store username =>
      rw [storeToken, hasToken_storeField]
      split
      · rfl
      · exact h
    | remove username =>
      have hother : n ≠ username := by
        rintro rfl
        exact hkept (removeToken n) (by simp) rfl
      rw [removeToken, hasToken_storeField, if_neg hother]
      exact h

/-! ### The invariant -/

/-- With the outstanding writes applied, only the record of the account signed in has the
    token. -/
structure Placed (token : String) (s : Phone) : Prop where
  writes : ∀ w ∈ s.outstanding, PhoneWrite token w
  owned : ∀ n, HasToken token s.view n → s.currentUser = some n

variable {s t : Phone}

/-- An event that writes nothing, after which the token is still the current user's. -/
theorem Placed.of_user (h : Placed token s) (hout : t.outstanding = s.outstanding)
    (hview : t.view = s.view)
    (huser : ∀ n ∈ s.currentUser, HasToken token s.view n → t.currentUser = some n) :
    Placed token t where
  writes := hout ▸ h.writes
  owned := by
    intro n hn
    rw [hview] at hn
    exact huser n (h.owned n hn) hn

/-- One more write, which leaves the token with the current user. -/
theorem Placed.write (h : Placed token s) {w : Write} (hw : PhoneWrite token w)
    (hout : t.outstanding = s.outstanding ++ [w]) (hdatabase : t.database = s.database)
    (howned : ∀ n, HasToken token (w.apply s.view) n → t.currentUser = some n) :
    Placed token t where
  writes := by
    intro w' hw'
    rw [hout] at hw'
    rcases List.mem_append.mp hw' with hold | hnew
    · exact h.writes w' hold
    · rw [List.mem_singleton.mp hnew]
      exact hw
  owned := by
    intro n hn
    refine howned n ?_
    rwa [view, hout, hdatabase, List.foldl_append] at hn

theorem Placed.launch (h : Placed token s) {kept : Nat} (hkeeps : s.KeepsToken token (.launch kept))
    (hst : s.step token (.launch kept) = some t) : Placed token t := by
  obtain rfl := Option.some.inj hst
  have hsplit := List.take_append_drop kept s.outstanding
  refine ⟨fun w hw => h.writes w (List.mem_of_mem_take hw), fun n hn => ?_⟩
  by_cases hlost : ∃ w ∈ s.outstanding.drop kept, erasedFrom w = some n
  · obtain ⟨w, hw, herased⟩ := hlost
    exact (hkeeps w hw n herased).resolve_right fun hnone => hnone hn
  · -- the lost writes would have left the token
    refine h.owned n ?_
    rw [view, ← hsplit, List.foldl_append]
    refine hasToken_foldl (fun w hw => h.writes w (List.mem_of_mem_drop hw)) (fun w hw => ?_) hn
    exact fun herased => hlost ⟨w, hw, herased⟩

theorem Placed.tokenFetched (h : Placed token s) {error : Bool}
    (hst : s.step token (.tokenFetched error) = some t) : Placed token t := by
  simp only [step, Option.ite_none_right_eq_some, Option.some.injEq] at hst
  obtain ⟨-, rfl⟩ := hst
  cases error with
  | true => exact h.of_user (by simp) (by simp [view]) fun n hn _ => hn
  | false =>
    unfold fetchFCMToken
    cases huser : s.currentUser with
    | none => exact h.of_user (by simp) (by simp [view]) fun n hn _ => hn
    | some currentUser =>
      refine h.write (.store currentUser) rfl rfl fun n hn => ?_
      rw [storeToken, hasToken_storeField] at hn
      split at hn
      · rename_i hthis
        rw [hthis]
        exact huser
      · exact h.owned n hn

theorem Placed.signOutUser (h : Placed token s) (htoken : token ≠ " ")
    (hst : s.step token .signOutUser = some t) : Placed token t := by
  obtain rfl := Option.some.inj hst
  unfold removeFCMToken
  cases huser : s.currentUser with
  | none =>
    refine ⟨by simpa using h.writes, fun n hn => ?_⟩
    have hnobody := h.owned n (by simpa [view] using hn)
    rw [huser] at hnobody
    cases hnobody
  | some currentUser =>
    refine h.write (.remove currentUser) rfl rfl fun n hn => ?_
    rw [removeToken, hasToken_storeField] at hn
    split at hn
    · exact (htoken hn.symm).elim
    · rename_i hother
      have hcurrent := h.owned n hn
      rw [huser] at hcurrent
      exact (hother (Option.some.inj hcurrent).symm).elim

/-- A commit gives a name to the account it was asked for. -/
theorem bind_update (signedIn : Option Nat) (displayName : Nat → Option String) (account : Nat)
    (username : String) :
    signedIn.bind (Function.update displayName account (some username)) =
      if signedIn = some account then some username else signedIn.bind displayName := by
  cases signedIn with
  | none => rfl
  | some other =>
    by_cases h : other = account
    · subst h
      simp
    · simp [h]

theorem Placed.commitServed (h : Placed token s) {index : Nat} {error : Bool}
    (hkeeps : s.KeepsToken token (.commitServed index error))
    (hst : s.step token (.commitServed index error) = some t) : Placed token t := by
  simp only [step] at hst
  split at hst
  · rename_i account attempt hcommit
    cases error with
    | true =>
      obtain rfl := Option.some.inj hst
      exact h.of_user rfl rfl fun n hn _ => hn
    | false =>
      obtain rfl := Option.some.inj hst
      refine h.of_user rfl rfl fun n hn hhas => ?_
      have hnext : s.nextUser (.commitServed index false) = some n := hkeeps n hn hhas
      rw [nextUser, hcommit] at hnext
      rw [currentUser, bind_update]
      exact hnext
  · cases hst

/-- **One step** keeps the token with the account signed in. -/
theorem Placed.step (h : Placed token s) (htoken : token ≠ " ") {e : PhoneEvent}
    (hkeeps : s.KeepsToken token e) (hst : s.step token e = some t) : Placed token t := by
  cases e with
  | launch kept => exact h.launch hkeeps hst
  | createNewUser account =>
    simp only [Phone.step, Option.ite_none_right_eq_some, Option.some.injEq] at hst
    obtain ⟨-, rfl⟩ := hst
    exact h.of_user rfl rfl hkeeps
  | loginUser account =>
    obtain rfl := Option.some.inj hst
    exact h.of_user rfl rfl hkeeps
  | setupProfile attempt =>
    simp only [Phone.step] at hst
    split at hst
    · obtain rfl := Option.some.inj hst
      exact h.of_user rfl rfl fun n hn _ => hn
    · obtain rfl := Option.some.inj hst
      exact h
  | lookedUp index snapshot =>
    simp only [Phone.step] at hst
    split at hst
    · split at hst
      · obtain rfl := Option.some.inj hst
        exact h.of_user rfl rfl fun n hn _ => hn
      · cases hst
    · cases hst
  | commitServed index error => exact h.commitServed hkeeps hst
  | commitReturned index =>
    simp only [Phone.step] at hst
    split at hst
    · rename_i attempt hcommitted
      obtain rfl := Option.some.inj hst
      refine h.write (.profile attempt) rfl rfl fun n hn => ?_
      exact h.owned n ((hasToken_storeProfile attempt).mp hn)
    · cases hst
  | tokenFetched error => exact h.tokenFetched hst
  | signOutUser => exact h.signOutUser htoken hst
  | deliver =>
    simp only [Phone.step] at hst
    split at hst
    · rename_i w rest hout
      obtain rfl := Option.some.inj hst
      refine ⟨fun w' hw' => h.writes w' (by simp [hout, hw']), fun n hn => h.owned n ?_⟩
      rw [view, hout]
      exact hn
    · cases hst

/-- **Only the record of the account signed in has the token** whenever no write is outstanding,
    in every run in which the name the token is stored under changes only by logging out and
    no launch loses a write that erases it. -/
theorem token_placed (htoken : token ≠ " ") {events : List PhoneEvent}
    (hout : s.outstanding = []) (hstart : TokenPlaced token s)
    (run : Run (step token) (KeepsToken token) s events t) (hrest : t.outstanding = []) :
    TokenPlaced token t := by
  have hplaced : Placed token s := by
    refine ⟨fun w hw => ?_, fun n hn => hstart.signedIn n ?_⟩
    · rw [hout] at hw
      cases hw
    · rwa [view, hout] at hn
  have hend : Placed token t :=
    run.invariant (Placed token) (fun _ _ _ hu hok hst => hu.step htoken hok hst) hplaced
  have howned : ∀ n, HasToken token t.database n → t.currentUser = some n := by
    intro n hn
    refine hend.owned n ?_
    rwa [view, hrest]
  refine ⟨fun n n' hn hn' => ?_, howned⟩
  exact Option.some.inj ((howned n hn).symm.trans (howned n' hn'))

/-- The first launch, with nobody registered. -/
def firstLaunch : Phone :=
  { signedIn := none, displayName := fun _ => none, database := .empty, outstanding := []
    lookups := [], commits := [], committed := [], tokens := 0 }

theorem tokenPlaced_firstLaunch (token : String) : TokenPlaced token firstLaunch where
  single := fun n n' h => (by cases h)
  signedIn := fun n h => (by cases h)

/-- The signed-in account sets up this name, and its token arrives. -/
def setsUp (attempt : Attempt) : List PhoneEvent :=
  [.setupProfile attempt, .lookedUp 0 .empty, .commitServed 0 false, .commitReturned 0,
    .tokenFetched false, .deliver, .deliver]

/-- An account registers and logs out, and logs in again. -/
def comesBack : List PhoneEvent :=
  .launch 0 :: .createNewUser 0 :: setsUp gamer ++
    [.signOutUser, .deliver, .loginUser 0, .tokenFetched false, .deliver]

theorem token_placed_comesBack :
    ∃ s, exec (step "t") (fun s e => decide (s.KeepsToken "t" e)) firstLaunch comesBack = some s ∧
      HasToken "t" s.database "gamer1" ∧ TokenPlaced "t" s := by
  have hend : (exec (step "t") (fun s e => decide (s.KeepsToken "t" e)) firstLaunch comesBack).map
      (fun s => (decide (HasToken "t" s.database "gamer1"), s.outstanding)) = some (true, []) := by
    decide +kernel
  obtain ⟨s, hs, hfacts⟩ := Option.map_eq_some_iff.mp hend
  obtain ⟨hhas, hrest⟩ := Prod.mk.inj hfacts
  have run := run_of_exec (fun _ _ h => of_decide_eq_true h) hs
  exact ⟨s, hs, of_decide_eq_true hhas,
    token_placed (by decide) rfl (tokenPlaced_firstLaunch "t") run hrest⟩

/-- The account sets up one name, and then another one. -/
def setsUpTwice : List PhoneEvent :=
  .launch 0 :: .createNewUser 0 :: setsUp gamer ++ setsUp { gamer with username := "gamer2" }

theorem not_always_placed :
    ¬ ∀ (token : String) (events : List PhoneEvent) (s : Phone), token ≠ " " →
      Run (step token) (fun _ _ => True) firstLaunch events s → s.outstanding = [] →
      TokenPlaced token s := by
  intro hall
  have hend : (exec (step "t") (fun _ _ => true) firstLaunch setsUpTwice).map
      (fun s => (decide (HasToken "t" s.database "gamer1" ∧ HasToken "t" s.database "gamer2"),
        s.outstanding)) = some (true, []) := by
    decide +kernel
  obtain ⟨s, hs, hfacts⟩ := Option.map_eq_some_iff.mp hend
  obtain ⟨hhas, hrest⟩ := Prod.mk.inj hfacts
  obtain ⟨hone, htwo⟩ := of_decide_eq_true hhas
  have run : Run (step "t") (fun _ _ => True) firstLaunch setsUpTwice s :=
    run_of_exec (fun _ _ _ => trivial) hs
  have hsame := (hall "t" setsUpTwice s (by decide) run hrest).single _ _ hone htwo
  simp at hsame

end Phone

end TeamUp
