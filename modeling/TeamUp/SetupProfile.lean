import TeamUp.Controllers
import TeamUp.Presence

/-!
# Choosing a display name

`setupProfile` looks whether a record exists under the requested name, then commits
the name to the account, then writes the record: three steps, with nothing that
reserves the name in between.  Names stay unique as long as no other account looks
a name up, and finds it free, between these steps.
-/

namespace TeamUp

open Protocol

/-- The arguments of one call of `setupProfile`, and the time it reads. -/
structure Attempt where
  username : String
  mic : MicStatus
  region : String
  profileImageUrl : String
  now : Int
deriving DecidableEq

namespace SetupProfile

/-- The accounts with their display names, beside the database. -/
structure Server where
  database : Tree
  displayName : Nat → Option String

inductive Request where
  | observeSingleEvent (username : String)
  | commitChanges (displayName : String)
deriving DecidableEq

inductive Callback where
  | looked (attempt : Attempt)
  | committed (attempt : Attempt)
deriving DecidableEq

inductive Response where
  | snapshot (content : Tree)
  | completion (error : Bool)
deriving DecidableEq

abbrev Commands := List (Command Write Request Callback)

/-- Only ASCII letters and digits, and 6 to 15 of them. -/
def acceptable (username : String) : Bool :=
  username.toList.all (fun c => c.isAlphanum) &&
    decide (6 ≤ username.length) && decide (username.length ≤ 15)

def setupProfile (attempt : Attempt) : Commands :=
  if acceptable attempt.username then
    [.call (.observeSingleEvent attempt.username) (.looked attempt)]
  else []

def profileValues (attempt : Attempt) : Dictionary :=
  [("dateJoined", Tree.int attempt.now),
    ("lastSeen", Tree.int attempt.now),
    ("username", Tree.str attempt.username),
    ("searchName", Tree.str (lowercased attempt.username)),
    ("biography", Tree.str "No biography"),
    ("profilePicUrl", Tree.str attempt.profileImageUrl),
    ("region", Tree.str attempt.region),
    ("mic", Tree.str attempt.mic.rawValue)]

def storeProfile (attempt : Attempt) : Write :=
  .updateChildValues (userRef attempt.username) (profileValues attempt)

def resume : Callback → Response → Commands
  | .looked attempt, .snapshot content =>
      if content.isEmpty then [.call (.commitChanges attempt.username) (.committed attempt)]
      else []
  | .committed attempt, .completion error => if error then [] else [.write (storeProfile attempt)]
  | _, _ => []

def answers : Request → Server → Response → Bool
  | .observeSingleEvent username, server, .snapshot content =>
      (Query.value (userRef username)).answers server.database content
  | .commitChanges _, _, .completion _ => true
  | _, _, _ => false

/-- A commit without an error gives the account its display name. -/
def effect (account : Nat) : Request → Response → Server → Server
  | .commitChanges displayName, .completion false, server =>
      { server with displayName := Function.update server.displayName account (some displayName) }
  | _, _, server => server

/-- The accounts that set up their profiles, each on one client. -/
def protocol : Protocol Nat Attempt Server Write Request Callback Response Nat where
  begin := fun _ attempt _ => setupProfile attempt
  resume := fun _ callback response _ => resume callback response
  apply := fun w server => { server with database := w.apply server.database }
  answers := answers
  effect := effect
  mintable := fun _ => true

@[simp] theorem apply_displayName (w : Write) (server : Server) :
    (protocol.apply w server).displayName = server.displayName := rfl

abbrev State := Config Nat Server Write Request Callback Response Nat

abbrev Event := Action Nat Attempt Response Nat

/-! ### Names on their way -/

/-- A name a look-up of the account found free. -/
def lookedClaim (a : Answer Nat Request Callback Response) : Option (Nat × String) :=
  match a.callback, a.response with
  | .looked attempt, .snapshot content =>
      if content.isEmpty then some (a.client, attempt.username) else none
  | _, _ => none

def callClaim (c : Call Nat Request Callback) : Option (Nat × String) :=
  match c.request with
  | .commitChanges displayName => some (c.client, displayName)
  | .observeSingleEvent _ => none

/-- A name the account has just been given. -/
def committedClaim (a : Answer Nat Request Callback Response) : Option (Nat × String) :=
  match a.callback, a.response with
  | .committed attempt, .completion false => some (a.client, attempt.username)
  | _, _ => none

def writeClaim (e : Issue Nat Write) : Option (Nat × String) :=
  match e.write.ref with
  | ["users", username] => some (e.client, username)
  | _ => none

/-- The names found free and not committed yet, each with the account. -/
def early (s : State) : List (Nat × String) :=
  s.answers.filterMap lookedClaim ++ s.calls.filterMap callClaim

/-- The names committed whose records have not arrived yet. -/
def late (s : State) : List (Nat × String) :=
  s.answers.filterMap committedClaim ++ s.outstanding.filterMap writeClaim

/-- The names between a look-up that found them free and the arrival of their
    records. -/
def inFlight (s : State) : List (Nat × String) := early s ++ late s

def Request.lookedUp : Request → Option String
  | .observeSingleEvent username => some username
  | .commitChanges _ => none

/-- A look-up that finds its name free is served while no other account has the name
    in flight. -/
def Alone (s : State) : Event → Prop
  | .serve index (.snapshot content) =>
      content.isEmpty = true → ∀ c ∈ s.calls[index]?, ∀ username ∈ c.request.lookedUp,
        ∀ claim ∈ inFlight s, claim.2 = username → claim.1 = c.client
  | _ => True

instance (s : State) (e : Event) : Decidable (Alone s e) := by
  unfold Alone
  split <;> infer_instance

/-- The request of a call is the one its callback waits for. -/
def Matches (_ : Nat) : Request → Callback → Prop
  | .observeSingleEvent username, .looked attempt => username = attempt.username
  | .commitChanges displayName, .committed attempt => displayName = attempt.username
  | _, _ => False

def ProfileWrite (_ : Nat) (w : Write) : Prop := ∃ attempt, w = storeProfile attempt

def Callback.attempt : Callback → Attempt
  | .looked attempt => attempt
  | .committed attempt => attempt

/-- What attempts of one kind issue stays of that kind. -/
theorem issued_step_of {Kind : Attempt → Prop} {s t : State} {e : Event}
    (h : Issued (fun _ w => ∃ attempt, Kind attempt ∧ w = storeProfile attempt)
      (fun account request callback =>
        Matches account request callback ∧ Kind callback.attempt) s)
    (hstart : ∀ account attempt id, e = .start account attempt id → Kind attempt)
    (hst : protocol.step s e = some t) :
    Issued (fun _ w => ∃ attempt, Kind attempt ∧ w = storeProfile attempt)
      (fun account request callback =>
        Matches account request callback ∧ Kind callback.attempt) t := by
  refine h.step (fun account attempt id he => ⟨?_, ?_⟩) ?_ hst
  · intro w hw
    simp only [protocol, setupProfile] at hw
    split at hw <;> simp at hw
  · intro request callback hcall
    simp only [protocol, setupProfile] at hcall
    split at hcall
    · obtain ⟨rfl, rfl⟩ := Command.call.inj (List.mem_singleton.mp hcall)
      exact ⟨rfl, hstart account attempt id he⟩
    · cases hcall
  · rintro account request callback response id ⟨-, hkind⟩
    constructor
    · intro w hw
      simp only [protocol, resume] at hw
      split at hw
      · split at hw <;> simp at hw
      · split at hw
        · cases hw
        · exact ⟨_, hkind, Command.write.inj (List.mem_singleton.mp hw)⟩
      · cases hw
    · intro request' callback' hcall
      simp only [protocol, resume] at hcall
      split at hcall
      · split at hcall
        · obtain ⟨rfl, rfl⟩ := Command.call.inj (List.mem_singleton.mp hcall)
          exact ⟨rfl, hkind⟩
        · cases hcall
      · split at hcall <;> simp at hcall
      · cases hcall

theorem issued_step {s t : State} {e : Event} (h : Issued ProfileWrite Matches s)
    (hst : protocol.step s e = some t) : Issued ProfileWrite Matches t := by
  have hany : Issued (fun _ w => ∃ attempt, True ∧ w = storeProfile attempt)
      (fun account request callback => Matches account request callback ∧ True) s :=
    h.mono (fun _ _ ⟨attempt, hw⟩ => ⟨attempt, trivial, hw⟩) fun _ _ _ hk => ⟨hk, trivial⟩
  have hafter := issued_step_of hany (fun _ _ _ _ => trivial) hst
  exact hafter.mono (fun _ _ ⟨attempt, _, hw⟩ => ⟨attempt, hw⟩) fun _ _ _ hk => hk.1

theorem has_of_mem_profileValues {attempt : Attempt} {e : String × Tree}
    (he : e ∈ profileValues attempt) : e.2.has [] = true := by
  simp only [profileValues, List.mem_cons, List.not_mem_nil, or_false] at he
  rcases he with rfl | rfl | rfl | rfl | rfl | rfl | rfl | rfl <;> rfl

/-- A profile that arrives makes its name exist, and no other name disappear. -/
theorem has_storeProfile (attempt : Attempt) (db : Tree) (username : String) :
    ((storeProfile attempt).apply db).has (userRef username) =
      if username = attempt.username then true else db.has (userRef username) := by
  by_cases h : username = attempt.username
  · subst h
    have hputs : ∀ e ∈ (storeProfile attempt).puts,
        userRef attempt.username <+: e.1 ∧ e.2.has [] = true := by
      intro e he
      obtain ⟨f, hf, rfl⟩ := List.mem_map.mp he
      exact ⟨List.prefix_append _ _, has_of_mem_profileValues hf⟩
    have htarget :
        (presence (userRef attempt.username)).target (storeProfile attempt) = some true :=
      presence_target_within (by simp [storeProfile, Write.puts, profileValues]) hputs
    rw [if_pos rfl]
    rw [has_apply fun e he _ => Or.inr (hputs e he).2]
    exact Register.update_of_some _ htarget _
  · rw [if_neg h]
    refine Write.has_apply_beside _ ?_
    simp [Incomparable, Write.ref, storeProfile, h, Ne.symm h]

/-! ### What a step does to names -/

theorem mem_filterMap_cons {α β : Type} {f : α → Option β} {x : α} {xs : List α} {y : β} :
    y ∈ (x :: xs).filterMap f ↔ f x = some y ∨ y ∈ xs.filterMap f := by
  simp [List.mem_filterMap]

/-- A record arrives, a name is found free, a name is committed, or none of this. -/
inductive Moved (s t : State) : Event → Prop
  | kept {e : Event} (hstore : t.store = s.store)
      (hflight : ∀ claim ∈ inFlight t, claim ∈ inFlight s)
      (hlate : ∀ claim, claim ∈ late t ↔ claim ∈ late s) : Moved s t e
  | arrived {index : Nat} {account : Nat} {attempt : Attempt}
      (hwrite : ⟨account, storeProfile attempt⟩ ∈ s.outstanding)
      (hname : t.store.displayName = s.store.displayName)
      (hdatabase : t.store.database = (storeProfile attempt).apply s.store.database)
      (hflight : ∀ claim ∈ inFlight t, claim ∈ inFlight s)
      (hlate : ∀ claim ∈ late t, claim ∈ late s)
      (hgone : ∀ claim ∈ late s, claim ∈ late t ∨ claim = (account, attempt.username)) :
      Moved s t (.deliver index)
  | found {index : Nat} {content : Tree} {account : Nat} {attempt : Attempt}
      (hcall : s.calls[index]? =
        some ⟨account, .observeSingleEvent attempt.username, .looked attempt⟩)
      (hempty : content.isEmpty = true)
      (habsent : s.store.database.has (userRef attempt.username) = false)
      (hstore : t.store = s.store)
      (hflight : ∀ claim ∈ inFlight t, claim ∈ inFlight s ∨ claim = (account, attempt.username))
      (hlate : ∀ claim, claim ∈ late t ↔ claim ∈ late s) :
      Moved s t (.serve index (.snapshot content))
  | committed {index : Nat} {account : Nat} {attempt : Attempt}
      (hcall : s.calls[index]? =
        some ⟨account, .commitChanges attempt.username, .committed attempt⟩)
      (hmine : (account, attempt.username) ∈ inFlight s)
      (hdatabase : t.store.database = s.store.database)
      (hname : t.store.displayName =
        Function.update s.store.displayName account (some attempt.username))
      (hflight : ∀ claim ∈ inFlight t, claim ∈ inFlight s)
      (hlate : ∀ claim,
        claim ∈ late t ↔ claim ∈ late s ∨ claim = (account, attempt.username)) :
      Moved s t (.serve index (.completion false))

section Moved

variable {s t : State}

theorem moved_start {account : Nat} {attempt : Attempt} {id : Nat}
    (hst : protocol.step s (.start account attempt id) = some t) :
    Moved s t (.start account attempt id) := by
  obtain ⟨-, -, rfl⟩ := step_start _ hst
  have hwrites : (setupProfile attempt).filterMap Command.write? = [] := by
    unfold setupProfile
    split <;> rfl
  have hcalls : (((setupProfile attempt).filterMap Command.call?).map fun c =>
      (⟨account, c.1, c.2⟩ : Call Nat Request Callback)).filterMap callClaim = [] := by
    unfold setupProfile
    split <;> rfl
  refine .kept rfl (fun claim hclaim => ?_) fun claim => ?_
  · simpa [inFlight, early, late, Config.issue, protocol, hwrites, hcalls] using hclaim
  · simp [late, Config.issue, protocol, hwrites]

theorem moved_deliver (hissued : Issued ProfileWrite Matches s) {index : Nat}
    (hst : protocol.step s (.deliver index) = some t) : Moved s t (.deliver index) := by
  obtain ⟨before, e, after, hout, -, rfl⟩ := step_deliver _ hst
  obtain ⟨attempt, hw⟩ := hissued.writes e (mem_of_split hout)
  obtain ⟨account, w⟩ := e
  dsimp only at hw
  subst hw
  have hclaimed : writeClaim ⟨account, storeProfile attempt⟩ = some (account, attempt.username) :=
    rfl
  have hwrite : ⟨account, storeProfile attempt⟩ ∈ s.outstanding := by
    rw [hout]
    simp
  refine .arrived hwrite (apply_displayName _ _) rfl ?_ ?_ ?_
  · intro claim hclaim
    simp only [inFlight, early, late, hout, List.filterMap_append, List.mem_append,
      mem_filterMap_cons] at hclaim ⊢
    tauto
  · intro claim hclaim
    simp only [late, hout, List.filterMap_append, List.mem_append, mem_filterMap_cons] at hclaim ⊢
    tauto
  · intro claim hclaim
    simp only [late, hout, List.filterMap_append, List.mem_append, mem_filterMap_cons, hclaimed,
      Option.some.injEq] at hclaim ⊢
    rcases hclaim with hans | hearlier | hthis | hlater
    · exact Or.inl (Or.inl hans)
    · exact Or.inl (Or.inr (Or.inl hearlier))
    · exact Or.inr hthis.symm
    · exact Or.inl (Or.inr (Or.inr hlater))

/-- The claim of an answer becomes that of the call or the write it leads to. -/
theorem claims_resume (a : Answer Nat Request Callback Response) :
    (((resume a.callback a.response).filterMap Command.call?).map fun c =>
        (⟨a.client, c.1, c.2⟩ : Call Nat Request Callback)).filterMap callClaim =
      (lookedClaim a).toList ∧
    (((resume a.callback a.response).filterMap Command.write?).map fun w =>
        (⟨a.client, w⟩ : Issue Nat Write)).filterMap writeClaim = (committedClaim a).toList := by
  obtain ⟨account, request, callback, response⟩ := a
  cases callback with
  | looked attempt =>
    cases response with
    | snapshot content => cases hempty : content.isEmpty <;> simp [resume,
        lookedClaim, committedClaim, hempty, callClaim, Command.call?, Command.write?]
    | completion error => exact ⟨rfl, rfl⟩
  | committed attempt =>
    cases response with
    | snapshot content => exact ⟨rfl, rfl⟩
    | completion error => cases error <;> exact ⟨rfl, rfl⟩

theorem moved_resume {index id : Nat} (hst : protocol.step s (.resume index id) = some t) :
    Moved s t (.resume index id) := by
  obtain ⟨before, a, after, hans, -, -, -, rfl⟩ := step_resume _ hst
  obtain ⟨hcalls, hwrites⟩ := claims_resume a
  refine .kept rfl (fun claim hclaim => ?_) fun claim => ?_
  · simp only [inFlight, early, late, hans, Config.issue, protocol, List.filterMap_append,
      hcalls, hwrites, List.mem_append, mem_filterMap_cons,
      Option.mem_toList] at hclaim ⊢
    tauto
  · simp only [late, hans, Config.issue, protocol, List.filterMap_append, hwrites,
      List.mem_append, mem_filterMap_cons, Option.mem_toList]
    tauto

/-- What exists is seen by every client, its own writes applied or not. -/
theorem has_view (hissued : Issued ProfileWrite Matches s) (account : Nat) {username : String}
    (hhas : s.store.database.has (userRef username) = true) :
    (protocol.view s account).database.has (userRef username) = true := by
  have hall : ∀ (ws : List Write) (server : Server),
      (∀ w ∈ ws, ∃ attempt, w = storeProfile attempt) →
      server.database.has (userRef username) = true →
      (protocol.applyAll ws server).database.has (userRef username) = true := by
    intro ws
    induction ws with
    | nil => exact fun server _ hserver => hserver
    | cons w rest ih =>
      intro server hws hserver
      refine ih _ (fun w' hw' => hws w' (by simp [hw'])) ?_
      obtain ⟨attempt, rfl⟩ := hws w (by simp)
      rw [show (protocol.apply (storeProfile attempt) server).database =
        (storeProfile attempt).apply server.database from rfl, has_storeProfile]
      split
      · rfl
      · exact hserver
  refine hall _ _ (fun w hw => ?_) hhas
  obtain ⟨e, he, rfl⟩ := List.mem_map.mp hw
  exact hissued.writes e (List.mem_filter.mp he).1

/-- A look-up that finds nothing finds nothing that is stored. -/
theorem absent_of_empty (hissued : Issued ProfileWrite Matches s) {account : Nat}
    {username : String} {content : Tree}
    (hanswers : (Query.value (userRef username)).answers
      (protocol.view s account).database content = true) (hempty : content.isEmpty = true) :
    s.store.database.has (userRef username) = false := by
  refine Bool.eq_false_iff.mpr fun hhas => ?_
  have hsame : PathTree.Same content ((protocol.view s account).database.sub
    (userRef username)) := of_decide_eq_true hanswers
  have hfound : content.has [] = true := by
    rw [hsame.has, PathTree.has_sub, List.append_nil]
    exact has_view hissued account hhas
  obtain ⟨q, hq⟩ := PathTree.has_iff_leafAt.mp hfound
  exact hq (PathTree.isEmpty_iff.mp hempty _)

/-- A look-up is served. -/
theorem moved_lookup (hissued : Issued ProfileWrite Matches s)
    {before after : List (Call Nat Request Callback)} {account : Nat} {attempt : Attempt}
    {content : Tree}
    (hcalls : s.calls = before ++
      ⟨account, .observeSingleEvent attempt.username, .looked attempt⟩ :: after)
    (hanswers : (Query.value (userRef attempt.username)).answers
      (protocol.view s account).database content = true)
    (ht : t = { s with
      calls := before ++ after
      answers := s.answers ++ [⟨account, .observeSingleEvent attempt.username, .looked attempt,
        .snapshot content⟩] }) : Moved s t (.serve before.length (.snapshot content)) := by
  subst ht
  have hlate : ∀ claim, claim ∈ late { s with
      calls := before ++ after
      answers := s.answers ++ [⟨account, .observeSingleEvent attempt.username, .looked attempt,
        .snapshot content⟩] } ↔ claim ∈ late s := by
    intro claim
    simp [late, List.filterMap_append, committedClaim]
  have hflight : ∀ claim, claim ∈ inFlight { s with
      calls := before ++ after
      answers := s.answers ++ [⟨account, .observeSingleEvent attempt.username, .looked attempt,
        .snapshot content⟩] } → claim ∈ inFlight s ∨
      (content.isEmpty = true ∧ claim = (account, attempt.username)) := by
    intro claim hclaim
    simp only [inFlight, early, late, hcalls, List.filterMap_append, List.mem_append,
      mem_filterMap_cons, lookedClaim, committedClaim, callClaim, List.filterMap_nil,
      List.not_mem_nil, or_false, reduceCtorEq, false_or] at hclaim ⊢
    rcases hclaim with ((hlooked | hnew) | hcall) | hlate
    · exact Or.inl (Or.inl (Or.inl hlooked))
    · split at hnew
      · rename_i hempty
        exact Or.inr ⟨hempty, (Option.some.inj hnew).symm⟩
      · cases hnew
    · exact Or.inl (Or.inl (Or.inr hcall))
    · exact Or.inl (Or.inr hlate)
  cases hempty : content.isEmpty with
  | true =>
    exact .found (by rw [hcalls]; simp) hempty (absent_of_empty hissued hanswers hempty) rfl
      (fun claim hclaim => (hflight claim hclaim).imp_right And.right) hlate
  | false =>
    refine .kept rfl (fun claim hclaim => (hflight claim hclaim).resolve_right ?_) hlate
    rw [hempty]
    rintro ⟨hcontra, -⟩
    cases hcontra

/-- A commit is served: without an error the name passes from the call to the account. -/
theorem moved_commit {before after : List (Call Nat Request Callback)}
    {account : Nat} {attempt : Attempt} {error : Bool}
    (hcalls : s.calls = before ++
      ⟨account, .commitChanges attempt.username, .committed attempt⟩ :: after)
    (ht : t = { s with
      store := effect account (.commitChanges attempt.username) (.completion error) s.store
      calls := before ++ after
      answers := s.answers ++ [⟨account, .commitChanges attempt.username, .committed attempt,
        .completion error⟩] }) : Moved s t (.serve before.length (.completion error)) := by
  subst ht
  have hmine : (account, attempt.username) ∈ inFlight s := by
    simp [inFlight, early, hcalls, callClaim]
  have hflight : ∀ claim, claim ∈ inFlight { s with
      store := effect account (.commitChanges attempt.username) (.completion error) s.store
      calls := before ++ after
      answers := s.answers ++ [⟨account, .commitChanges attempt.username, .committed attempt,
        .completion error⟩] } → claim ∈ inFlight s := by
    intro claim hclaim
    simp only [inFlight, early, late, List.filterMap_append, List.mem_append,
      mem_filterMap_cons, lookedClaim, List.filterMap_nil, List.not_mem_nil, or_false,
      reduceCtorEq] at hclaim
    rcases hclaim with (hlooked | hcall) | ((hcommitted | hnew) | hwrite)
    · simp [inFlight, early, hlooked]
    · simp only [inFlight, early, hcalls, List.filterMap_append, List.mem_append,
        mem_filterMap_cons]
      tauto
    · simp [inFlight, late, hcommitted]
    · cases error with
      | true => cases hnew
      | false => exact Option.some.inj hnew ▸ hmine
    · simp [inFlight, late, hwrite]
  cases error with
  | true => exact .kept rfl hflight fun claim => by simp [late, committedClaim]
  | false =>
    refine .committed (by rw [hcalls]; simp) hmine rfl rfl hflight fun claim => ?_
    have hnew : List.filterMap committedClaim [⟨account, .commitChanges attempt.username,
        .committed attempt, .completion false⟩] = [(account, attempt.username)] := rfl
    simp only [late, List.filterMap_append, hnew, List.mem_append, List.mem_singleton]
    tauto

theorem moved_serve (hissued : Issued ProfileWrite Matches s) {index : Nat} {response : Response}
    (hst : protocol.step s (.serve index response) = some t) :
    Moved s t (.serve index response) := by
  obtain ⟨before, c, after, hcalls, hlen, hanswers, rfl⟩ := step_serve _ hst
  obtain ⟨account, request, callback⟩ := c
  have hmatches : Matches account request callback :=
    hissued.calls ⟨account, request, callback⟩ (mem_of_split hcalls)
  cases request with
  | observeSingleEvent name =>
    cases callback with
    | committed attempt => cases hmatches
    | looked attempt =>
      obtain rfl : name = attempt.username := hmatches
      cases response with
      | completion error => cases hanswers
      | snapshot content => exact hlen ▸ moved_lookup hissued hcalls hanswers rfl
  | commitChanges name =>
    cases callback with
    | looked attempt => cases hmatches
    | committed attempt =>
      obtain rfl : name = attempt.username := hmatches
      cases response with
      | snapshot content => cases hanswers
      | completion error => exact hlen ▸ moved_commit hcalls rfl

/-- **What a step does to the names in flight, the names given away and the records.** -/
theorem moved (hissued : Issued ProfileWrite Matches s) {e : Event}
    (hst : protocol.step s e = some t) : Moved s t e := by
  cases e with
  | start account attempt id => exact moved_start hst
  | deliver index => exact moved_deliver hissued hst
  | serve index response => exact moved_serve hissued hst
  | resume index id => exact moved_resume hst
  | observe account =>
    obtain rfl := step_observe _ hst
    exact .kept rfl (fun claim hclaim => hclaim) fun claim => Iff.rfl

end Moved

/-! ### Names are unique -/

/-- A display name has its record, or the record is on its way from the account. -/
structure Unique (s : State) : Prop where
  issued : Issued ProfileWrite Matches s
  named : ∀ account username, s.store.displayName account = some username →
    s.store.database.has (userRef username) = true ∨ (account, username) ∈ late s
  alone : ∀ account account' username, (account, username) ∈ inFlight s →
    (account', username) ∈ inFlight s → account = account'
  owned : ∀ account account' username, (account, username) ∈ inFlight s →
    s.store.displayName account' = some username → account = account'
  distinct : ∀ account account' username, s.store.displayName account = some username →
    s.store.displayName account' = some username → account = account'

namespace Unique

variable {s t : State}

/-- A step that puts no name in flight, gives no name away and loses no record or
    committed name. -/
theorem of_le (h : Unique s) (hissued : Issued ProfileWrite Matches t)
    (hname : t.store.displayName = s.store.displayName)
    (hflight : ∀ claim ∈ inFlight t, claim ∈ inFlight s)
    (hrecord : ∀ username, s.store.database.has (userRef username) = true →
      t.store.database.has (userRef username) = true)
    (hlate : ∀ claim ∈ late s, claim ∈ late t ∨
      t.store.database.has (userRef claim.2) = true) : Unique t where
  issued := hissued
  named := by
    intro account username hn
    rw [hname] at hn
    rcases h.named account username hn with hhas | hmem
    · exact Or.inl (hrecord username hhas)
    · exact (hlate _ hmem).symm
  alone := fun account account' username h₁ h₂ =>
    h.alone account account' username (hflight _ h₁) (hflight _ h₂)
  owned := fun account account' username h₁ h₂ =>
    h.owned account account' username (hflight _ h₁) (hname ▸ h₂)
  distinct := fun account account' username h₁ h₂ =>
    h.distinct account account' username (hname ▸ h₁) (hname ▸ h₂)

/-- A name is found free that is neither taken nor in flight. -/
theorem found (h : Unique s) (hissued : Issued ProfileWrite Matches t) {account : Nat}
    {username : String} (habsent : s.store.database.has (userRef username) = false)
    (hfree : ∀ claim ∈ inFlight s, claim.2 = username → claim.1 = account)
    (hstore : t.store = s.store)
    (hflight : ∀ claim ∈ inFlight t, claim ∈ inFlight s ∨ claim = (account, username))
    (hlate : ∀ claim, claim ∈ late t ↔ claim ∈ late s) : Unique t := by
  refine ⟨hissued, fun acc name hn => ?_, fun acc acc' name h₁ h₂ => ?_,
    fun acc acc' name h₁ h₂ => ?_, fun acc acc' name h₁ h₂ => ?_⟩
  · rw [hstore] at hn ⊢
    exact (h.named acc name hn).imp_right (hlate _).mpr
  · rcases hflight _ h₁ with hold₁ | heq <;> rcases hflight _ h₂ with hold₂ | heq'
    · exact h.alone acc acc' name hold₁ hold₂
    · obtain ⟨rfl, rfl⟩ := Prod.mk.inj heq'
      exact hfree (acc, name) hold₁ rfl
    · obtain ⟨rfl, rfl⟩ := Prod.mk.inj heq
      exact (hfree (acc', name) hold₂ rfl).symm
    · exact (Prod.mk.inj heq).1.trans (Prod.mk.inj heq').1.symm
  · rw [hstore] at h₂
    rcases hflight _ h₁ with h₁ | heq
    · exact h.owned acc acc' name h₁ h₂
    · obtain ⟨rfl, rfl⟩ := Prod.mk.inj heq
      rcases h.named acc' _ h₂ with hhas | hmem
      · rw [habsent] at hhas
        cases hhas
      · exact (hfree _ (List.mem_append_right _ hmem) rfl).symm
  · rw [hstore] at h₁ h₂
    exact h.distinct acc acc' name h₁ h₂

/-- A name in flight is committed. -/
theorem committed (h : Unique s) (hissued : Issued ProfileWrite Matches t) {account : Nat}
    {username : String} (hmine : (account, username) ∈ inFlight s)
    (hdatabase : t.store.database = s.store.database)
    (hupdate : t.store.displayName =
      Function.update s.store.displayName account (some username))
    (hflight : ∀ claim ∈ inFlight t, claim ∈ inFlight s)
    (hlate : ∀ claim, claim ∈ late t ↔ claim ∈ late s ∨ claim = (account, username)) :
    Unique t := by
  have hname : ∀ acc name, t.store.displayName acc = some name →
      (acc = account ∧ name = username) ∨ s.store.displayName acc = some name := by
    intro acc name hn
    rw [hupdate] at hn
    by_cases hacc : acc = account
    · subst hacc
      rw [Function.update_self] at hn
      exact Or.inl ⟨rfl, (Option.some.inj hn).symm⟩
    · rw [Function.update_of_ne hacc] at hn
      exact Or.inr hn
  refine ⟨hissued, ?_, ?_, ?_, ?_⟩
  · intro acc name hn
    rw [hdatabase]
    rcases hname acc name hn with ⟨rfl, rfl⟩ | hn
    · exact Or.inr ((hlate _).mpr (Or.inr rfl))
    · exact (h.named acc name hn).imp_right fun hmem => (hlate _).mpr (Or.inl hmem)
  · exact fun acc acc' name h₁ h₂ => h.alone acc acc' name (hflight _ h₁) (hflight _ h₂)
  · intro acc acc' name h₁ h₂
    rcases hname acc' name h₂ with ⟨rfl, rfl⟩ | h₂
    · exact h.alone acc acc' _ (hflight _ h₁) hmine
    · exact h.owned acc acc' name (hflight _ h₁) h₂
  · intro acc acc' name h₁ h₂
    rcases hname acc name h₁ with ⟨hacc, heq⟩ | hold₁
    · subst hacc heq
      rcases hname acc' _ h₂ with ⟨hacc', -⟩ | hold₂
      · exact hacc'.symm
      · exact h.owned acc acc' _ hmine hold₂
    · rcases hname acc' name h₂ with ⟨hacc', heq⟩ | hold₂
      · subst hacc' heq
        exact (h.owned acc' acc _ hmine hold₁).symm
      · exact h.distinct acc acc' name hold₁ hold₂

/-- **Names stay unique** in every step that looks names up alone. -/
theorem step (h : Unique s) {e : Event} (halone : Alone s e)
    (hst : protocol.step s e = some t) : Unique t := by
  have hissued := issued_step h.issued hst
  cases moved h.issued hst with
  | kept hstore hflight hlate =>
    refine h.of_le hissued (by rw [hstore]) hflight (fun _ hhas => ?_) fun claim hclaim => ?_
    · rwa [hstore]
    · exact Or.inl ((hlate claim).mpr hclaim)
  | @arrived _ account attempt hwrite hname hdatabase hflight _ hgone =>
    refine h.of_le hissued hname hflight (fun username hhas => ?_) fun claim hclaim => ?_
    · rw [hdatabase, has_storeProfile]
      split
      · rfl
      · exact hhas
    · refine (hgone claim hclaim).imp_right ?_
      rintro rfl
      rw [hdatabase, has_storeProfile, if_pos rfl]
  | @found _ content account attempt hcall hempty habsent hstore hflight hlate =>
    exact h.found hissued habsent (halone hempty _ hcall _ rfl) hstore hflight hlate
  | committed _ hmine hdatabase hname hflight hlate =>
    exact h.committed hissued hmine hdatabase hname hflight hlate

end Unique

/-- The accounts that have a display name have different ones, each with a record. -/
structure Registered (server : Server) : Prop where
  named : ∀ account username, server.displayName account = some username →
    server.database.has (userRef username) = true
  distinct : ∀ account account' username, server.displayName account = some username →
    server.displayName account' = some username → account = account'

/-- **No two accounts have the same display name**, in every state of every run in which
    a name is only found free while no other account has it in flight. -/
theorem displayNames_distinct {s t : State} {events : List Event} (hrest : s.Quiescent)
    (hs : Registered s.store) (run : protocol.Run Alone s events t) :
    ∀ account account' username, t.store.displayName account = some username →
      t.store.displayName account' = some username → account = account' := by
  obtain ⟨hout, hcalls, hans⟩ := hrest
  have hempty : inFlight s = [] := by simp [inFlight, early, late, hout, hcalls, hans]
  have hstart : Unique s := by
    refine ⟨.of_quiescent ⟨hout, hcalls, hans⟩, fun acc name hn => Or.inl (hs.named acc name hn),
      ?_, ?_, hs.distinct⟩
    · intro acc acc' name h₁
      rw [hempty] at h₁
      cases h₁
    · intro acc acc' name h₁
      rw [hempty] at h₁
      cases h₁
  exact (run.invariant Unique (fun u e v hu hok hst => hu.step hok hst) hstart).distinct

/-- Nobody has a display name or a profile yet. -/
def unregistered : State :=
  { store := ⟨.empty, fun _ => none⟩, outstanding := [], calls := [], answers := [], seen := [],
    minted := [] }

def gamer : Attempt :=
  { username := "gamer1", mic := .mic, region := "Europe", profileImageUrl := "pic", now := 0 }

def found : Tree := Tree.ofDictionary (profileValues gamer)

/-- One account sets its profile up, then another one finds the name in use. -/
def oneAfterTheOther : List Event :=
  [.start 0 gamer 1, .serve 0 (.snapshot .empty), .resume 0 2, .serve 0 (.completion false),
    .resume 0 3, .deliver 0, .start 1 gamer 4, .serve 0 (.snapshot found), .resume 0 5]

theorem displayNames_distinct_oneAfterTheOther :
    ∃ t, protocol.exec (fun s e => decide (Alone s e)) unregistered oneAfterTheOther = some t ∧
      t.store.displayName 0 = some "gamer1" ∧
      ∀ account account' username, t.store.displayName account = some username →
        t.store.displayName account' = some username → account = account' := by
  have hend : (protocol.exec (fun s e => decide (Alone s e)) unregistered
      oneAfterTheOther).map (fun t => t.store.displayName 0) = some (some "gamer1") := by
    decide +kernel
  obtain ⟨t, ht, hname⟩ := Option.map_eq_some_iff.mp hend
  have run := run_of_exec (fun s e h => of_decide_eq_true h) ht
  have hregistered : Registered unregistered.store :=
    ⟨fun _ _ h => (nomatch h), fun _ _ _ h => (nomatch h)⟩
  exact ⟨t, ht, hname, displayNames_distinct ⟨rfl, rfl, rfl⟩ hregistered run⟩

/-- Both accounts look the name up before either has committed it. -/
def sideBySide : List Event :=
  [.start 0 gamer 1, .start 1 gamer 2, .serve 0 (.snapshot .empty), .serve 0 (.snapshot .empty),
    .resume 0 3, .resume 0 4, .serve 0 (.completion false), .serve 0 (.completion false)]

theorem not_always_distinct :
    ¬ ∀ (server : Server) (events : List Event) (t : State),
      (∀ account, server.displayName account = none) →
      protocol.Run (fun _ _ => True) { unregistered with store := server } events t →
      ∀ account account' username, t.store.displayName account = some username →
        t.store.displayName account' = some username → account = account' := by
  intro hall
  have hend : (protocol.exec (fun _ _ => true) unregistered sideBySide).map
      (fun t => (t.store.displayName 0, t.store.displayName 1)) =
        some (some "gamer1", some "gamer1") := by
    decide +kernel
  obtain ⟨t, ht, hnames⟩ := Option.map_eq_some_iff.mp hend
  obtain ⟨hzero, hone⟩ := Prod.mk.inj hnames
  have run : protocol.Run (fun _ _ => True) unregistered sideBySide t :=
    run_of_exec (fun _ _ _ => trivial) ht
  have hsame := hall unregistered.store sideBySide t (fun _ => rfl) run 0 1 "gamer1" hzero hone
  cases hsame

end SetupProfile

end TeamUp
