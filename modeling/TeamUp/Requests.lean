import TeamUp.Listing
import TeamUp.Players
import TeamUp.Teammates

/-!
# Requests and teammates

A request is a read followed later by a write, and accepting one removes it in both
directions.  Between the read and the write, or between the writes of two users, the two
may become teammates: the list of players, which leaves teammates out, was shown before.

For two users, either their teammate entry is bound to end absent or both requests are.
-/

namespace TeamUp

open Protocol

variable {client : Session} {w : Write} {catalogue : List Game}

/-! ### One entry -/

/-- Whether `b` is among the teammate requests of `a`. -/
def request (a b : String) : Register Tree Write Bool := presence (teammateRequestsRef a ++ [b])

theorem request_target_add (a b x y : String) :
    (request a b).target (addRequest x y) = if x = a ∧ y = b then some true else none := by
  have hsymm : a = x ∧ b = y ↔ x = a ∧ y = b := by rw [eq_comm (a := a), eq_comm (a := b)]
  by_cases h : x = a ∧ y = b <;>
    simp [request, presence, addRequest, Write.puts, presencePut, Tree.int, hsymm, h]

theorem request_target_drop (a b x y : String) :
    (request a b).target (dropRequest x y) = if x = a ∧ y = b then some false else none := by
  by_cases h : x = a ∧ y = b <;>
    simp [request, presence, dropRequest, Write.puts, presencePut, h]

/-- A write of a callback adds a request or lies beside all of them. -/
theorem CallbackWrite.request_cases (h : CallbackWrite w) :
    (∃ x y, w = TeamUp.addRequest x y) ∨ ∀ a b, w.Beside (teammateRequestsRef a ++ [b]) := by
  cases h with
  | addRequest x y => exact Or.inl ⟨x, y, rfl⟩
  | playing | entry | dropEntry =>
    refine Or.inr fun a b => Write.beside_of_ref ?_
    simp [Incomparable, Write.ref]

/-- A write of the app adds a request, drops one, or lies beside all requests. -/
theorem AppWrite.request_cases (h : AppWrite client w) :
    (∃ x y, w = TeamUp.addRequest x y) ∨ (∃ x y, w = TeamUp.dropRequest x y) ∨
      ∀ a b, w.Beside (teammateRequestsRef a ++ [b]) := by
  cases h with
  | dropRequest x y => exact Or.inr (Or.inl ⟨x, y, rfl⟩)
  | storeField u value hfield =>
    refine Or.inr (Or.inr fun a b e he => ?_)
    rw [List.mem_singleton.mp he]
    simp only [profileFields, List.mem_cons, List.not_mem_nil, or_false] at hfield
    rcases hfield with rfl | rfl | rfl | rfl | rfl | rfl <;> simp [Incomparable]
  | callback hw => exact hw.request_cases.imp_right Or.inr
  | addTeammate | dropTeammate | storeMessage | storeRead | dropChat | dropPlaying =>
    refine Or.inr (Or.inr fun a b => Write.beside_of_ref ?_)
    simp [Incomparable, Write.ref, TeamUp.addTeammate, TeamUp.dropTeammate, TeamUp.storeMessage,
      TeamUp.storeRead, TeamUp.dropChat, TeamUp.dropPlaying]

theorem AppWrite.request_keepsBelow (h : AppWrite client w) (a b : String) :
    w.KeepsBelow (teammateRequestsRef a ++ [b]) := by
  rcases h.request_cases with ⟨x, y, rfl⟩ | ⟨x, y, rfl⟩ | hbeside
  · intro e he _
    rw [List.mem_singleton.mp he]
    exact Or.inr rfl
  · intro e he hpre
    rw [List.mem_singleton.mp he] at hpre ⊢
    exact Or.inl (hpre.eq_of_length (by simp)).symm
  · exact (hbeside a b).keepsBelow

theorem request_follows (a b : String) :
    (request a b).Follows (app catalogue) (Write.KeepsBelow (teammateRequestsRef a ++ [b])) :=
  presence_follows rfl _

/-! ### What operations and callbacks do to a request -/

theorem addRequest_not_mem {op : Op} {id x y : String} :
    addRequest x y ∉ opWrites client op id := by
  intro hw
  cases op with
  | markDirectChatMessagesAsRead chat =>
    simp only [opWrites] at hw
    split at hw <;> simp [addRequest, storeRead] at hw
  | _ =>
    simp [opWrites, addRequest, addTeammate, dropTeammate, dropRequest, dropChat, storeMessage,
      storeField, dropPlaying] at hw

/-- **Starting an operation adds no request.** -/
theorem request_update_op {op : Op} {id : String} (hw : w ∈ opWrites client op id)
    (a b : String) : (request a b).update false w = false := by
  rcases (appWrite_of_mem hw).request_cases with ⟨x, y, rfl⟩ | ⟨x, y, rfl⟩ | hbeside
  · exact (addRequest_not_mem hw).elim
  · rw [Register.update, request_target_drop]
    split <;> rfl
  · exact Register.update_of_none _ (presence_target_beside (hbeside a b)) false

/-- Starting an operation adds a teammate only by accepting a request. -/
theorem teammate_update_op {op : Op} {id a b : String} (hw : w ∈ opWrites client op id)
    (hnot : ∀ r, op = .acceptTeammateRequest r → ¬ SamePair client.user r.username a b) :
    (teammate a b).update false w = false := by
  cases htarget : (teammate a b).target w with
  | none => exact Register.update_of_none _ htarget false
  | some x =>
    rw [Register.update_of_some _ htarget]
    rcases (appWrite_of_mem hw).teammate_target htarget with ⟨rfl, -⟩ | ⟨-, hfalse⟩
    · obtain ⟨r, hop, hpair⟩ := op_of_addTeammate hw
      exact (hnot r hop hpair).elim
    · exact hfalse

/-- The read of a request found that it is not there yet. -/
def Unlisted (currentUserName : String) (snapshot : Tree) : Prop :=
  (Tree.asDictionary snapshot).any (fun requestsDictionary =>
    decide (currentUserName ∈ requestsDictionary.keys)) = false

instance (currentUserName : String) (snapshot : Tree) :
    Decidable (Unlisted currentUserName snapshot) :=
  inferInstanceAs (Decidable (_ = _))

/-- The callback that adds a request is that of the request. -/
theorem addRequest_of_callback {callback : Callback} {snapshot : Tree} {id x y : String}
    (hw : .write (addRequest x y) ∈ resume catalogue callback snapshot id) :
    callback = .requestPlayerToTeamUp y x ∧ Unlisted y snapshot := by
  cases callback with
  | requestPlayerToTeamUp currentUserName username =>
    simp only [resume, requestPlayerToTeamUpRead] at hw
    split at hw
    · cases hw
    · rename_i hunlisted
      have hwrite := Command.write.inj (List.mem_singleton.mp hw)
      simp only [addRequest, Write.updateChildValues.injEq, List.cons.injEq, Prod.mk.injEq,
        and_true, true_and] at hwrite
      obtain ⟨rfl, rfl⟩ := hwrite
      exact ⟨rfl, Bool.eq_false_iff.mpr hunlisted⟩
  | goOnlineForGame currentUser game now =>
    simp only [resume, goOnlineForGameRead] at hw
    split at hw <;> simp [addRequest] at hw
  | goOfflineForGame game =>
    simp only [resume, goOfflineForGameRead] at hw
    split at hw <;> simp [addRequest] at hw
  | editUserLFGInfo currentUser =>
    simp only [resume, editUserLFGInfoRead] at hw
    split at hw <;> simp [updateUserLFG] at hw
  | updateUserLFG username games =>
    simp only [resume, updateUserLFGRead] at hw
    split at hw <;> simp at hw
  | updateGameLFG game games lfgDictionary =>
    simp only [resume, updateGameLFGRead] at hw
    split at hw <;> split at hw <;> simp [addRequest] at hw

/-! ### Runs -/

/-- Delivered in whatever order, the outstanding writes leave the two without an entry as
    teammates. -/
def BoundApart (s : State) (a b : String) : Prop :=
  (teammate a b).Bound false s ∧ (teammate b a).Bound false s

instance (s : State) (a b : String) : Decidable (BoundApart s a b) :=
  inferInstanceAs (Decidable (_ ∧ _))

/-- What another session has written is no request between the two that may stay. -/
def NoneUnderway (s : State) (client : Session) (a b : String) : Prop :=
  (request a b).Corrected false (s.outstanding.filter fun e => decide (e.client ≠ client)) ∧
    (request b a).Corrected false (s.outstanding.filter fun e => decide (e.client ≠ client))

instance (s : State) (client : Session) (a b : String) :
    Decidable (NoneUnderway s client a b) :=
  inferInstanceAs (Decidable (_ ∧ _))

/-- A request is accepted while no request of another session between the two is on its way,
    and a request that was not there yet is written while the two are not teammates and
    not about to be. -/
def Guarded (s : State) : Event → Prop
  | .start client (.acceptTeammateRequest r) _ => NoneUnderway s client client.user r.username
  | .resume index _ =>
      match s.answers[index]? with
      | some ⟨_, _, .requestPlayerToTeamUp currentUserName username, snapshot⟩ =>
          Unlisted currentUserName snapshot → BoundApart s currentUserName username
      | _ => True
  | _ => True

instance (s : State) (e : Event) : Decidable (Guarded s e) := by
  rcases e with ⟨_, _ | _, _⟩ | _ | _ | ⟨index, _⟩ | _
  case resume =>
    dsimp only [Guarded]
    generalize s.answers[index]? = answer
    rcases answer with _ | ⟨_, _, _ | _, _⟩ <;> dsimp only <;> infer_instance
  all_goals dsimp only [Guarded]; infer_instance

/-- Teammates have no request between them. -/
def RequestsExclusive (db : Tree) : Prop :=
  ∀ a b, db.has (teammatesRef a ++ [b]) = true →
    db.has (teammateRequestsRef a ++ [b]) = false ∧ db.has (teammateRequestsRef b ++ [a]) = false

/-- Of two users, the teammate entry or both requests are bound to end absent. -/
structure Exclusive (s : State) : Prop where
  issued : Issued AppWrite (fun _ _ _ => True) s
  exclusive : ∀ a b, (teammate a b).Bound false s ∨
    (request a b).Bound false s ∧ (request b a).Bound false s

namespace Exclusive

variable {s t : State}

theorem of_rest {db : Tree} {ids : List String} (h : RequestsExclusive db) :
    Exclusive (State.initial db ids) where
  issued := .of_quiescent ⟨rfl, rfl, rfl⟩
  exclusive := fun a b => by
    cases hmates : db.has (teammatesRef a ++ [b]) with
    | false => exact Or.inl ⟨trivial, Or.inl hmates⟩
    | true =>
      obtain ⟨hab, hba⟩ := h a b hmates
      exact Or.inr ⟨⟨trivial, Or.inl hab⟩, ⟨trivial, Or.inl hba⟩⟩

theorem start (h : Exclusive s) {op : Op} {id : String} (hguarded : Guarded s (.start client op id))
    (a b : String) :
    (teammate a b).Bound false (s.issue client id (begin client op id)) ∨
      (request a b).Bound false (s.issue client id (begin client op id)) ∧
        (request b a).Bound false (s.issue client id (begin client op id)) := by
  have hmem : ∀ w, .write w ∈ begin client op id ↔ w ∈ opWrites client op id := by
    intro w
    rw [← writes_begin, mem_writes]
  have hrequest : ∀ a b w, .write w ∈ begin client op id →
      (request a b).update false w = false :=
    fun a b w hw => request_update_op ((hmem w).mp hw) a b
  by_cases haccept : ∃ r, op = .acceptTeammateRequest r ∧ SamePair client.user r.username a b
  · right
    obtain ⟨r, rfl, hpair⟩ := haccept
    have hboth : (request client.user r.username).Bound false
          (s.issue client id (begin client (.acceptTeammateRequest r) id)) ∧
        (request r.username client.user).Bound false
          (s.issue client id (begin client (.acceptTeammateRequest r) id)) := by
      refine ⟨Register.bound_issue_own hguarded.1 (hrequest _ _)
          ⟨dropRequest client.user r.username, ?_, ?_⟩ id,
        Register.bound_issue_own hguarded.2 (hrequest _ _)
          ⟨dropRequest r.username client.user, ?_, ?_⟩ id⟩
      · exact (hmem _).mpr (by simp [opWrites])
      · simp [request_target_drop]
      · exact (hmem _).mpr (by simp [opWrites])
      · simp [request_target_drop]
    rcases hpair with ⟨rfl, rfl⟩ | ⟨rfl, rfl⟩
    · exact hboth
    · exact hboth.symm
  · refine (h.exclusive a b).imp (fun hmates => ?_) fun hrequests => ?_
    · refine hmates.issue (fun w hw => teammate_update_op ((hmem w).mp hw) ?_) id
      exact fun r hop hpair => haccept ⟨r, hop, hpair⟩
    · exact ⟨hrequests.1.issue (hrequest a b) id, hrequests.2.issue (hrequest b a) id⟩

theorem resume (h : Exclusive s) {index : Nat} {id : String}
    (hguarded : Guarded s (.resume index id))
    (hst : (app catalogue).step s (.resume index id) = some t) (a b : String) :
    (teammate a b).Bound false t ∨ (request a b).Bound false t ∧ (request b a).Bound false t := by
  obtain ⟨before, answer, after, hanswers, hlen, -, -, rfl⟩ := (app catalogue).step_resume hst
  obtain ⟨client, query, callback, snapshot⟩ := answer
  have hmates : ∀ a b, (teammate a b).Bound false s → (teammate a b).Bound false
      (Config.issue { s with answers := before ++ after } client id
        (TeamUp.resume catalogue callback snapshot id)) := by
    intro a b hbound
    have hrest : (teammate a b).Bound false { s with answers := before ++ after } :=
      ⟨hbound.corrected, hbound.held⟩
    refine hrest.issue (fun w hw => Register.update_of_none _ ?_ false) id
    exact presence_target_beside ((callbackWrite_of_mem hw).teammate_beside a b)
  have hrequests : ∀ a b, addRequest a b ∉
      (TeamUp.resume catalogue callback snapshot id).filterMap Command.write? →
      (request a b).Bound false s → (request a b).Bound false
        (Config.issue { s with answers := before ++ after } client id
          (TeamUp.resume catalogue callback snapshot id)) := by
    intro a b hnot hbound
    have hrest : (request a b).Bound false { s with answers := before ++ after } :=
      ⟨hbound.corrected, hbound.held⟩
    refine hrest.issue (fun w hw => ?_) id
    rcases (callbackWrite_of_mem hw).request_cases with ⟨x, y, rfl⟩ | hbeside
    · rw [Register.update, request_target_add]
      split
      · rename_i hxy
        obtain ⟨rfl, rfl⟩ := hxy
        exact (hnot (mem_writes.mpr hw)).elim
      · rfl
    · exact Register.update_of_none _ (presence_target_beside (hbeside a b)) false
  -- a request that is written is one between users who are bound to be apart
  have happart : ∀ x y, addRequest x y ∈
      (TeamUp.resume catalogue callback snapshot id).filterMap Command.write? →
      BoundApart s y x := by
    intro x y hw
    obtain ⟨rfl, hunlisted⟩ := addRequest_of_callback (mem_writes.mp hw)
    have hget : s.answers[index]? =
        some ⟨client, query, .requestPlayerToTeamUp y x, snapshot⟩ := by
      rw [hanswers, ← hlen]
      simp
    simp only [Guarded, hget] at hguarded
    exact hguarded hunlisted
  by_cases hab : addRequest a b ∈
      (TeamUp.resume catalogue callback snapshot id).filterMap Command.write?
  · exact Or.inl (hmates a b (happart a b hab).2)
  · by_cases hba : addRequest b a ∈
        (TeamUp.resume catalogue callback snapshot id).filterMap Command.write?
    · exact Or.inl (hmates a b (happart b a hba).1)
    · exact (h.exclusive a b).imp (hmates a b) fun hboth =>
        ⟨hrequests a b hab hboth.1, hrequests b a hba hboth.2⟩

theorem deliver (h : Exclusive s) {index : Nat} (horder : InOrder s (.deliver index : Event))
    (hst : (app catalogue).step s (.deliver index) = some t) (a b : String) :
    (teammate a b).Bound false t ∨ (request a b).Bound false t ∧ (request b a).Bound false t := by
  have hmates : ∀ a b, (teammate a b).Bound false s → (teammate a b).Bound false t :=
    fun a b hbound => Register.Bound.deliver (teammate_follows a b)
      (fun e he => (h.issued.writes e he).teammate_keepsBelow a b) hbound horder hst
  have hrequests : ∀ a b, (request a b).Bound false s → (request a b).Bound false t :=
    fun a b hbound => Register.Bound.deliver (request_follows a b)
      (fun e he => (h.issued.writes e he).request_keepsBelow a b) hbound horder hst
  exact (h.exclusive a b).imp (hmates a b) fun hboth =>
    ⟨hrequests a b hboth.1, hrequests b a hboth.2⟩

/-- **Every guarded step keeps requests and teammates exclusive.** -/
theorem step (h : Exclusive s) {e : Event} (horder : InOrder s e) (hguarded : Guarded s e)
    (hst : (app catalogue).step s e = some t) : Exclusive t := by
  refine ⟨appWrite_step h.issued hst, fun a b => ?_⟩
  cases e with
  | start client op id =>
    obtain ⟨-, -, rfl⟩ := (app catalogue).step_start hst
    exact h.start hguarded a b
  | deliver index => exact h.deliver horder hst a b
  | serve index response =>
    obtain ⟨before, c, after, -, -, -, rfl⟩ := (app catalogue).step_serve hst
    exact (h.exclusive a b).imp (fun hb => ⟨hb.corrected, hb.held⟩) fun hb =>
      ⟨⟨hb.1.corrected, hb.1.held⟩, ⟨hb.2.corrected, hb.2.held⟩⟩
  | resume index id => exact h.resume hguarded hst a b
  | observe client =>
    rw [(app catalogue).step_observe hst]
    exact (h.exclusive a b).imp (fun hb => ⟨hb.corrected, hb.held⟩) fun hb =>
      ⟨⟨hb.1.corrected, hb.1.held⟩, ⟨hb.2.corrected, hb.2.held⟩⟩

theorem exclusive_of_rest (h : Exclusive s) (hrest : s.outstanding = []) :
    RequestsExclusive s.store := by
  intro a b hmates
  rcases h.exclusive a b with hapart | ⟨hab, hba⟩
  · cases hmates.symm.trans (hapart.of_rest hrest)
  · exact ⟨hab.of_rest hrest, hba.of_rest hrest⟩

end Exclusive

/-! ### Runs in which requests come from the list of players -/

/-- The user is in a list of players the session may show, made from what it was shown of the
    two listings and, once it has fetched them, of its teammates. -/
def Offered (catalogue : List Game) (s : State) (client : Session) (username : String) : Prop :=
  ∃ game ∈ catalogue, ∃ (platform : Option String) (region : Option Region)
    (teammates : List User) (db db' : Tree),
    (client, db) ∈ s.seen ∧ (client, db') ∈ s.seen ∧
    (teammates = [] ∨ ∃ db'', (client, db'') ∈ s.seen ∧ Knows client.user teammates db'') ∧
    username ∈ Mirrors.userNames (shownPlayers (some client.user) teammates
      (LFGController.found (lfgRef game.name) platform region db)
      (LFGController.found (onlineRef game.name) platform region db'))

/-- Requesting a user from the list of players, answering a request or removing a teammate from
    a list the session was shown at some time, and editing profiles. -/
def RequestOps (catalogue : List Game) (s : State) : Event → Prop
  | .start client (.requestPlayerToTeamUp username) _ => Offered catalogue s client username
  | .start client (.acceptTeammateRequest r) _ | .start client (.declineTeammateRequest r) _ =>
      s.shown client (teammateRequestsRef client.user) r.username = true
  | .start client (.removeTeammate t) _ =>
      s.shown client (teammatesRef client.user) t.username = true
  | e => listingOps e = true

/-- **Teammates have no request between them whenever nothing is outstanding**, in every run
    in which requests are accepted and written as guarded. -/
theorem requests_exclude_teammates {db : Tree} {ids : List String} {events : List Event}
    {t : State} (hdb : RequestsExclusive db)
    (run : (app catalogue).Run
      (fun s e => RequestOps catalogue s e ∧ InOrder s e ∧ Guarded s e)
      (State.initial db ids) events t)
    (hrest : t.outstanding = []) : RequestsExclusive t.store := by
  have hexclusive : Exclusive t := by
    refine run.invariant Exclusive ?_ (.of_rest hdb)
    exact fun u e v hu hok hst => hu.step hok.2.1 hok.2.2 hst
  exact hexclusive.exclusive_of_rest hrest

/-- What is checked of a run whose requests come from lists without filters, made from one
    view of the database. -/
def requestOps (catalogue : List Game) (s : State) : Event → Bool
  | .start client (.requestPlayerToTeamUp username) _ =>
      s.seen.any fun view => decide (view.1 = client) && catalogue.any fun game =>
        decide (username ∈ Mirrors.userNames
          (shownPlayers (some client.user) (storedTeammates client.user view.2)
            (LFGController.found (lfgRef game.name) none none view.2)
            (LFGController.found (onlineRef game.name) none none view.2)))
  | .start client (.acceptTeammateRequest r) _ | .start client (.declineTeammateRequest r) _ =>
      s.shown client (teammateRequestsRef client.user) r.username
  | .start client (.removeTeammate t) _ => s.shown client (teammatesRef client.user) t.username
  | e => listingOps e

theorem requestOps_sound {s : State} {e : Event} (h : requestOps catalogue s e = true) :
    RequestOps catalogue s e := by
  cases e with
  | start client op id =>
    cases op with
    | requestPlayerToTeamUp username =>
      obtain ⟨view, hview, hoffered⟩ := List.any_eq_true.mp h
      simp only [Bool.and_eq_true, decide_eq_true_eq, List.any_eq_true] at hoffered
      obtain ⟨rfl, game, hgame, hmem⟩ := hoffered
      exact ⟨game, hgame, none, none, _, _, _, hview, hview,
        Or.inr ⟨view.2, hview, List.Perm.refl _⟩, hmem⟩
    | _ => exact h
  | _ => exact h

/-- Alice and bob look for players of a game. -/
def lookingForPlayers : Tree :=
  ["alice1", "bobbob"].foldl (fun db u =>
    (Write.updateChildValues (lfgRef "chess" ++ ["-" ++ u]) (entryValues u (somebody u) "PC")).apply
      db) (profiles aliceAndBob)

theorem requestsExclusive_of_no_teammates {db : Tree}
    (h : ∀ e ∈ db.leaves, e.1[2]? ≠ some "teammates") : RequestsExclusive db := by
  intro a b hmates
  obtain ⟨q, v, hmem⟩ := PathTree.has_iff.mp hmates
  exact (h _ hmem (by simp)).elim

/-- Bob accepts a request of alice that has arrived. -/
def requestAccepted : List Event :=
  [.observe ⟨"alice1", 1⟩, .start ⟨"alice1", 1⟩ (.requestPlayerToTeamUp "bobbob") "-1",
    .serve 0 .empty, .resume 0 "-2", .deliver 0, .observe ⟨"bobbob", 1⟩,
    .start ⟨"bobbob", 1⟩ (.acceptTeammateRequest (somebody "alice1")) "-3",
    .deliver 0, .deliver 0, .deliver 0, .deliver 0]

theorem requests_exclude_teammates_accepted :
    ∃ t, (app [chess]).exec
        (fun s e => requestOps [chess] s e && decide (InOrder s e ∧ Guarded s e))
        (State.initial lookingForPlayers []) requestAccepted = some t ∧
      RequestsExclusive t.store := by
  have hrest : ((app [chess]).exec
      (fun s e => requestOps [chess] s e && decide (InOrder s e ∧ Guarded s e))
      (State.initial lookingForPlayers []) requestAccepted).map Config.outstanding = some [] := by
    decide +kernel
  obtain ⟨t, ht, hout⟩ := Option.map_eq_some_iff.mp hrest
  have run : (app [chess]).Run (fun s e => RequestOps [chess] s e ∧ InOrder s e ∧ Guarded s e)
      (State.initial lookingForPlayers []) requestAccepted t := by
    refine run_of_exec (fun s e h => ?_) ht
    obtain ⟨hops, hguarded⟩ := Bool.and_eq_true_iff.mp h
    exact ⟨requestOps_sound hops, of_decide_eq_true hguarded⟩
  have hdb : RequestsExclusive lookingForPlayers :=
    requestsExclusive_of_no_teammates (by decide +kernel)
  exact ⟨t, ht, requests_exclude_teammates hdb run hout⟩

/-- Alice and bob request each other: alice's request is read before bob's arrives, and written
    after she has accepted bob's. -/
def crossingRequests : List Event :=
  [.observe ⟨"alice1", 1⟩, .observe ⟨"bobbob", 1⟩,
    .start ⟨"alice1", 1⟩ (.requestPlayerToTeamUp "bobbob") "-1", .serve 0 .empty,
    .start ⟨"bobbob", 1⟩ (.requestPlayerToTeamUp "alice1") "-2", .serve 0 .empty,
    .resume 1 "-3", .deliver 0, .observe ⟨"alice1", 1⟩,
    .start ⟨"alice1", 1⟩ (.acceptTeammateRequest (somebody "bobbob")) "-4",
    .deliver 0, .deliver 0, .deliver 0, .deliver 0, .resume 0 "-5", .deliver 0]

theorem not_always_exclusive :
    ¬ ∀ (catalogue : List Game) (db : Tree) (ids : List String) (events : List Event) (t : State),
      RequestsExclusive db →
      (app catalogue).Run (fun s e => RequestOps catalogue s e ∧ InOrder s e)
        (State.initial db ids) events t →
      t.outstanding = [] → RequestsExclusive t.store := by
  intro hall
  have hend : ((app [chess]).exec (fun s e => requestOps [chess] s e && decide (InOrder s e))
      (State.initial lookingForPlayers []) crossingRequests).map (fun t => (t.outstanding,
        t.store.has (teammatesRef "alice1" ++ ["bobbob"]),
        t.store.has (teammateRequestsRef "bobbob" ++ ["alice1"]))) = some ([], true, true) := by
    decide +kernel
  obtain ⟨t, ht, hout⟩ := Option.map_eq_some_iff.mp hend
  obtain ⟨hrest, hmates, hrequest⟩ : t.outstanding = [] ∧ _ = true ∧ _ = true := by
    simpa only [Prod.mk.injEq] using hout
  have run : (app [chess]).Run (fun s e => RequestOps [chess] s e ∧ InOrder s e)
      (State.initial lookingForPlayers []) crossingRequests t := by
    refine run_of_exec (fun s e h => ?_) ht
    obtain ⟨hops, horder⟩ := Bool.and_eq_true_iff.mp h
    exact ⟨requestOps_sound hops, of_decide_eq_true horder⟩
  have hdb : RequestsExclusive lookingForPlayers :=
    requestsExclusive_of_no_teammates (by decide +kernel)
  have hnone := (hall [chess] lookingForPlayers [] crossingRequests t hdb run hrest
    "alice1" "bobbob" hmates).2
  rw [hrequest] at hnone
  cases hnone

end TeamUp
