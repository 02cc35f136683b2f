import TeamUp.Runs

/-!
# Clients of a shared store

Clients share a store without transactions.  An operation of a client issues
writes, which reach the store one by one and later, and calls, which the store
serves at some later moment and whose answer runs a callback that may issue
more.  Everything that is on its way is part of the configuration, so a run is
an arbitrary interleaving of starts, deliveries, served calls, callbacks and
observations.

A callback is represented by the data it captures; `Protocol.resume` is its
body.  A property of everything on its way is an instance of `Issued`, one of
every state of a run an instance of `Run.invariant`.
-/

namespace TeamUp

/-- What an operation or a callback issues. -/
inductive Command (Write Request Callback : Type) where
  | write (w : Write)
  | call (request : Request) (callback : Callback)
deriving DecidableEq

def Command.write? {Write Request Callback : Type} :
    Command Write Request Callback → Option Write
  | .write w => some w
  | .call _ _ => none

def Command.call? {Write Request Callback : Type} :
    Command Write Request Callback → Option (Request × Callback)
  | .write _ => none
  | .call r k => some (r, k)

structure Issue (Client Write : Type) where
  client : Client
  write : Write
deriving DecidableEq

structure Call (Client Request Callback : Type) where
  client : Client
  request : Request
  callback : Callback
deriving DecidableEq

/-- A served call whose callback has not run yet. -/
structure Answer (Client Request Callback Response : Type) where
  client : Client
  request : Request
  callback : Callback
  response : Response
deriving DecidableEq

structure Config (Client Store Write Request Callback Response Id : Type) where
  store : Store
  /-- Writes not yet applied, in the order they were issued. -/
  outstanding : List (Issue Client Write)
  calls : List (Call Client Request Callback)
  answers : List (Answer Client Request Callback Response)
  /-- The views of the store that observers of a client were given so far. -/
  seen : List (Client × Store)
  /-- The identifiers used so far. -/
  minted : List Id

inductive Action (Client Op Response Id : Type) where
  | start (client : Client) (op : Op) (id : Id)
  | deliver (index : Nat)
  | serve (index : Nat) (response : Response)
  | resume (index : Nat) (id : Id)
  | observe (client : Client)

/-- The program of the clients and the service behind them. -/
structure Protocol (Client Op Store Write Request Callback Response Id : Type) where
  begin : Client → Op → Id → List (Command Write Request Callback)
  resume : Client → Callback → Response → Id → List (Command Write Request Callback)
  apply : Write → Store → Store
  /-- The answers a request may be given on a view of the store. -/
  answers : Request → Store → Response → Bool
  /-- What serving a request changes. -/
  effect : Client → Request → Response → Store → Store
  mintable : Id → Bool

variable {Client Op Store Write Request Callback Response Id : Type}

namespace Config

variable (s : Config Client Store Write Request Callback Response Id)

/-- Nothing is on its way. -/
def Quiescent : Prop := s.outstanding = [] ∧ s.calls = [] ∧ s.answers = []

/-- Issue commands that were given this identifier. -/
def issue (client : Client) (id : Id)
    (commands : List (Command Write Request Callback)) :
    Config Client Store Write Request Callback Response Id :=
  { s with
    outstanding := s.outstanding ++
      (commands.filterMap Command.write?).map fun w => ⟨client, w⟩
    calls := s.calls ++
      (commands.filterMap Command.call?).map fun c => ⟨client, c.1, c.2⟩
    minted := id :: s.minted }

theorem writes_issue (client : Client) (id : Id)
    (commands : List (Command Write Request Callback)) :
    (s.issue client id commands).outstanding.map Issue.write =
      s.outstanding.map Issue.write ++ commands.filterMap Command.write? := by
  simp [issue, Function.comp_def]

end Config

namespace Protocol

variable (P : Protocol Client Op Store Write Request Callback Response Id)

def applyAll (writes : List Write) (store : Store) : Store :=
  writes.foldl (fun st w => P.apply w st) store

/-- The store as a client sees it: with its own outstanding writes applied. -/
def view [DecidableEq Client]
    (s : Config Client Store Write Request Callback Response Id) (client : Client) :
    Store :=
  P.applyAll ((s.outstanding.filter fun e => e.client = client).map Issue.write) s.store

variable [DecidableEq Client] [DecidableEq Id]
variable {s t u : Config Client Store Write Request Callback Response Id}

def step (s : Config Client Store Write Request Callback Response Id) :
    Action Client Op Response Id →
      Option (Config Client Store Write Request Callback Response Id)
  | .start client op id =>
      if P.mintable id = true ∧ id ∉ s.minted then
        some (s.issue client id (P.begin client op id))
      else none
  | .deliver index =>
      match s.outstanding[index]? with
      | some e => some { s with
          store := P.apply e.write s.store
          outstanding := s.outstanding.eraseIdx index }
      | none => none
  | .serve index response =>
      match s.calls[index]? with
      | some c =>
          if P.answers c.request (P.view s c.client) response = true then
            some { s with
              store := P.effect c.client c.request response s.store
              calls := s.calls.eraseIdx index
              answers := s.answers ++
                [⟨c.client, c.request, c.callback, response⟩] }
          else none
      | none => none
  | .resume index id =>
      match s.answers[index]? with
      | some a =>
          if P.mintable id = true ∧ id ∉ s.minted then
            some (({ s with answers := s.answers.eraseIdx index } :
                Config Client Store Write Request Callback Response Id).issue
              a.client id (P.resume a.client a.callback a.response id))
          else none
      | none => none
  | .observe client => some { s with seen := s.seen ++ [(client, P.view s client)] }

/-! ### What a step can do -/

theorem step_start {client : Client} {op : Op} {id : Id}
    (h : P.step s (.start client op id) = some t) :
    P.mintable id = true ∧ id ∉ s.minted ∧
      t = s.issue client id (P.begin client op id) := by
  simp only [step] at h
  split at h
  · rename_i hguard
    exact ⟨hguard.1, hguard.2, (Option.some.inj h).symm⟩
  · cases h

theorem step_deliver {index : Nat} (h : P.step s (.deliver index) = some t) :
    ∃ before e after, s.outstanding = before ++ e :: after ∧ before.length = index ∧
      t = { s with store := P.apply e.write s.store, outstanding := before ++ after } := by
  simp only [step] at h
  split at h
  · rename_i e he
    obtain ⟨before, after, hout, hlen⟩ := split_at he
    refine ⟨before, e, after, hout, hlen, ?_⟩
    rw [← Option.some.inj h, hout, ← hlen, eraseIdx_split]
  · cases h

theorem step_serve {index : Nat} {response : Response}
    (h : P.step s (.serve index response) = some t) :
    ∃ before c after, s.calls = before ++ c :: after ∧ before.length = index ∧
      P.answers c.request (P.view s c.client) response = true ∧
      t = { s with
        store := P.effect c.client c.request response s.store
        calls := before ++ after
        answers := s.answers ++
          [⟨c.client, c.request, c.callback, response⟩] } := by
  simp only [step] at h
  split at h
  · rename_i c hc
    split at h
    · rename_i hanswers
      obtain ⟨before, after, hcalls, hlen⟩ := split_at hc
      refine ⟨before, c, after, hcalls, hlen, hanswers, ?_⟩
      rw [← Option.some.inj h, hcalls, ← hlen, eraseIdx_split]
    · cases h
  · cases h

theorem step_resume {index : Nat} {id : Id} (h : P.step s (.resume index id) = some t) :
    ∃ before a after, s.answers = before ++ a :: after ∧ before.length = index ∧
      P.mintable id = true ∧ id ∉ s.minted ∧
      t = ({ s with answers := before ++ after } :
          Config Client Store Write Request Callback Response Id).issue a.client id
        (P.resume a.client a.callback a.response id) := by
  simp only [step] at h
  split at h
  · rename_i a ha
    split at h
    · rename_i hfresh
      obtain ⟨before, after, hans, hlen⟩ := split_at ha
      refine ⟨before, a, after, hans, hlen, hfresh.1, hfresh.2, ?_⟩
      rw [← Option.some.inj h, hans, ← hlen, eraseIdx_split]
    · cases h
  · cases h

theorem step_observe {client : Client} (h : P.step s (.observe client) = some t) :
    t = { s with seen := s.seen ++ [(client, P.view s client)] } :=
  (Option.some.inj h).symm

/-! ### Runs -/

/-- A run of the clients' actions. -/
abbrev Run (ok : Config Client Store Write Request Callback Response Id →
      Action Client Op Response Id → Prop)
    (s : Config Client Store Write Request Callback Response Id)
    (actions : List (Action Client Op Response Id))
    (t : Config Client Store Write Request Callback Response Id) : Prop :=
  TeamUp.Run P.step ok s actions t

abbrev exec (allowed : Config Client Store Write Request Callback Response Id →
      Action Client Op Response Id → Bool)
    (s : Config Client Store Write Request Callback Response Id)
    (actions : List (Action Client Op Response Id)) :
    Option (Config Client Store Write Request Callback Response Id) :=
  TeamUp.exec P.step allowed s actions

variable {P}

/-! ### The order of one client's writes -/

/-- No outstanding write overtakes an earlier one of the same client. -/
def InOrder (s : Config Client Store Write Request Callback Response Id) :
    Action Client Op Response Id → Prop
  | .deliver index =>
      ∀ e, s.outstanding[index]? = some e →
        ∀ e' ∈ s.outstanding.take index, e'.client ≠ e.client
  | _ => True

instance (s : Config Client Store Write Request Callback Response Id)
    (a : Action Client Op Response Id) : Decidable (InOrder s a) := by
  cases a <;> unfold InOrder <;> infer_instance

omit [DecidableEq Client] [DecidableEq Id] in
theorem InOrder.before {before after : List (Issue Client Write)}
    {e : Issue Client Write} {index : Nat}
    (h : InOrder s (.deliver index : Action Client Op Response Id))
    (hout : s.outstanding = before ++ e :: after)
    (hlen : before.length = index) : ∀ e' ∈ before, e'.client ≠ e.client := by
  have hget : s.outstanding[index]? = some e := by
    rw [hout, ← hlen]
    simp
  intro e' he'
  refine h e hget e' ?_
  rw [hout, ← hlen]
  simpa using he'

/-! ### The only active client -/

/-- Everything outstanding was issued by this client. -/
def Sole (client : Client) (s : Config Client Store Write Request Callback Response Id) : Prop :=
  ∀ e ∈ s.outstanding, e.client = client

/-- The store with everything outstanding applied, in the order it was issued. -/
def flush (P : Protocol Client Op Store Write Request Callback Response Id)
    (s : Config Client Store Write Request Callback Response Id) : Store :=
  P.applyAll (s.outstanding.map Issue.write) s.store

omit [DecidableEq Id] in
theorem view_eq_flush {client : Client} (h : Sole client s) : P.view s client = P.flush s := by
  have hall : (s.outstanding.filter fun e => e.client = client) = s.outstanding :=
    List.filter_eq_self.mpr fun e he => decide_eq_true (h e he)
  rw [view, hall, flush]

omit [DecidableEq Client] [DecidableEq Id] in
theorem flush_of_quiescent (h : s.Quiescent) : P.flush s = s.store := by
  rw [flush, h.1]
  rfl

omit [DecidableEq Client] [DecidableEq Id] in
theorem flush_issue (client : Client) (id : Id)
    (commands : List (Command Write Request Callback)) :
    P.flush (s.issue client id commands) =
      P.applyAll (commands.filterMap Command.write?) (P.flush s) := by
  simp [flush, applyAll, Config.issue, Function.comp_def]

/-- **Delivering in order does not change the flushed store** of the only active client. -/
theorem flush_deliver {client : Client} (h : Sole client s) {index : Nat}
    (horder : InOrder s (.deliver index : Action Client Op Response Id))
    (hst : P.step s (.deliver index) = some t) : Sole client t ∧ P.flush t = P.flush s := by
  obtain ⟨before, e, after, hout, hlen, rfl⟩ := P.step_deliver hst
  refine ⟨fun e' he' => h e' (rest_of_split hout he'), ?_⟩
  have hfirst : before = [] := by
    refine List.eq_nil_iff_forall_not_mem.mpr fun e' he' => horder.before hout hlen e' he' ?_
    rw [h e' (by rw [hout]; simp [he']), h e (mem_of_split hout)]
  subst hfirst
  rw [flush, flush, hout]
  rfl

/-! ### What is on its way -/

/-- Every outstanding write satisfies `W`, every pending call and answer `K`. -/
structure Issued (W : Client → Write → Prop) (K : Client → Request → Callback → Prop)
    (s : Config Client Store Write Request Callback Response Id) : Prop where
  writes : ∀ e ∈ s.outstanding, W e.client e.write
  calls : ∀ c ∈ s.calls, K c.client c.request c.callback
  answers : ∀ a ∈ s.answers, K a.client a.request a.callback

/-- Commands that satisfy `W` and `K`. -/
def Permitted (W : Client → Write → Prop) (K : Client → Request → Callback → Prop)
    (client : Client) (commands : List (Command Write Request Callback)) : Prop :=
  (∀ w, .write w ∈ commands → W client w) ∧
    ∀ request callback, .call request callback ∈ commands → K client request callback

theorem mem_writes {commands : List (Command Write Request Callback)} {w : Write} :
    w ∈ commands.filterMap Command.write? ↔ Command.write w ∈ commands := by
  simp only [List.mem_filterMap]
  constructor
  · rintro ⟨c, hc, hw⟩
    cases c with
    | write w' => cases hw; exact hc
    | call r k => cases hw
  · exact fun h => ⟨_, h, rfl⟩

theorem mem_calls {commands : List (Command Write Request Callback)}
    {c : Request × Callback} :
    c ∈ commands.filterMap Command.call? ↔ Command.call c.1 c.2 ∈ commands := by
  simp only [List.mem_filterMap]
  constructor
  · rintro ⟨d, hd, hc⟩
    cases d with
    | write w => cases hc
    | call r k => cases hc; exact hd
  · exact fun h => ⟨_, h, rfl⟩

variable {W : Client → Write → Prop} {K : Client → Request → Callback → Prop}

omit [DecidableEq Client] [DecidableEq Id] in
theorem Issued.of_quiescent (h : s.Quiescent) : Issued W K s := by
  obtain ⟨ho, hc, ha⟩ := h
  exact ⟨by simp [ho], by simp [hc], by simp [ha]⟩

omit [DecidableEq Client] [DecidableEq Id] in
theorem Issued.mono {W' : Client → Write → Prop} {K' : Client → Request → Callback → Prop}
    (h : Issued W K s) (hw : ∀ client w, W client w → W' client w)
    (hk : ∀ client request callback, K client request callback → K' client request callback) :
    Issued W' K' s :=
  ⟨fun e he => hw _ _ (h.writes e he), fun c hc => hk _ _ _ (h.calls c hc),
    fun a ha => hk _ _ _ (h.answers a ha)⟩

omit [DecidableEq Client] [DecidableEq Id] in
theorem Issued.issue (h : Issued W K s) {client : Client}
    {commands : List (Command Write Request Callback)}
    (hnew : Permitted W K client commands) (id : Id) :
    Issued W K (s.issue client id commands) := by
  refine ⟨?_, ?_, h.answers⟩
  · intro e he
    rcases List.mem_append.mp he with hold | hfresh
    · exact h.writes e hold
    · obtain ⟨w, hw, rfl⟩ := List.mem_map.mp hfresh
      exact hnew.1 w (mem_writes.mp hw)
  · intro c hc
    rcases List.mem_append.mp hc with hold | hfresh
    · exact h.calls c hold
    · obtain ⟨d, hd, rfl⟩ := List.mem_map.mp hfresh
      exact hnew.2 d.1 d.2 (mem_calls.mp hd)

/-- A step keeps everything on its way as permitted, if what it starts and what a
    permitted callback issues is. -/
theorem Issued.step (h : Issued W K s) {a : Action Client Op Response Id}
    (hbegin : ∀ client op id, a = .start client op id →
      Permitted W K client (P.begin client op id))
    (hresume : ∀ client request callback response id, K client request callback →
      Permitted W K client (P.resume client callback response id))
    (hst : P.step s a = some t) : Issued W K t := by
  cases a with
  | start client op id =>
    obtain ⟨-, -, rfl⟩ := P.step_start hst
    exact h.issue (hbegin client op id rfl) id
  | deliver index =>
    obtain ⟨before, e, after, hout, -, rfl⟩ := P.step_deliver hst
    refine ⟨fun e' he' => h.writes e' ?_, h.calls, h.answers⟩
    exact rest_of_split hout he'
  | serve index response =>
    obtain ⟨before, c, after, hcalls, -, -, rfl⟩ := P.step_serve hst
    refine ⟨h.writes, fun c' hc' => h.calls c' ?_, fun a ha => ?_⟩
    · exact rest_of_split hcalls hc'
    · rcases List.mem_append.mp ha with hold | hnew
      · exact h.answers a hold
      · rw [List.mem_singleton.mp hnew]
        exact h.calls c (mem_of_split hcalls)
  | resume index id =>
    obtain ⟨before, a, after, hans, -, -, -, rfl⟩ := P.step_resume hst
    have hrest : Issued W K { s with answers := before ++ after } := by
      refine ⟨h.writes, h.calls, fun a' ha' => h.answers a' ?_⟩
      exact rest_of_split hans ha'
    have ha : K a.client a.request a.callback := h.answers a (mem_of_split hans)
    exact hrest.issue (hresume a.client a.request a.callback a.response id ha) id
  | observe client =>
    rw [P.step_observe hst]
    exact ⟨h.writes, h.calls, h.answers⟩

/-- Everything on its way is of this client. -/
abbrev Active (client : Client) (s : Config Client Store Write Request Callback Response Id) :
    Prop :=
  Issued (fun c _ => c = client) (fun c _ _ => c = client) s

instance (client : Client) (s : Config Client Store Write Request Callback Response Id) :
    Decidable (Active client s) :=
  decidable_of_iff ((∀ e ∈ s.outstanding, e.client = client) ∧
      (∀ c ∈ s.calls, c.client = client) ∧ ∀ a ∈ s.answers, a.client = client)
    ⟨fun h => ⟨h.1, h.2.1, h.2.2⟩, fun h => ⟨h.writes, h.calls, h.answers⟩⟩

theorem Active.step {client : Client} (h : Active client s) {a : Action Client Op Response Id}
    (hstart : ∀ client' op id, a = .start client' op id → client' = client)
    (hst : P.step s a = some t) : Active client t :=
  Issued.step h (fun client' op id ha => ⟨fun _ _ => hstart client' op id ha,
    fun _ _ _ => hstart client' op id ha⟩)
    (fun _ _ _ _ _ hclient => ⟨fun _ _ => hclient, fun _ _ _ => hclient⟩) hst

variable (P) in
/-- What a step that starts nothing does to what the only active client sees: nothing, or one
    of its calls is answered, or one of its callbacks runs. -/
inductive Quiet (s t : Config Client Store Write Request Callback Response Id) : Prop
  | kept (hflush : P.flush t = P.flush s) (hcalls : t.calls = s.calls)
      (hanswers : t.answers = s.answers)
  | served (before : List (Call Client Request Callback)) (c : Call Client Request Callback)
      (after : List (Call Client Request Callback)) (response : Response)
      (hasked : s.calls = before ++ c :: after)
      (hanswer : P.answers c.request (P.flush s) response = true)
      (hflush : P.flush t = P.flush s) (hcalls : t.calls = before ++ after)
      (hanswers : t.answers = s.answers ++ [⟨c.client, c.request, c.callback, response⟩])
  | resumed (before : List (Answer Client Request Callback Response))
      (a : Answer Client Request Callback Response)
      (after : List (Answer Client Request Callback Response)) (id : Id)
      (hanswered : s.answers = before ++ a :: after) (hmintable : P.mintable id = true)
      (hfresh : id ∉ s.minted)
      (hflush : P.flush t = P.applyAll
        ((P.resume a.client a.callback a.response id).filterMap Command.write?) (P.flush s))
      (hcalls : t.calls = s.calls ++
        ((P.resume a.client a.callback a.response id).filterMap Command.call?).map
          fun c => ⟨a.client, c.1, c.2⟩)
      (hanswers : t.answers = before ++ after)

theorem Active.quiet {client : Client} (h : Active client s)
    (heffect : ∀ c r response st, P.effect c r response st = st)
    {a : Action Client Op Response Id} (hquiet : ∀ client' op id, a ≠ .start client' op id)
    (horder : InOrder s a) (hst : P.step s a = some t) : P.Quiet s t := by
  cases a with
  | start client' op id => exact (hquiet client' op id rfl).elim
  | deliver index =>
    obtain ⟨-, hflush⟩ := flush_deliver h.writes horder hst
    obtain ⟨before, e, after, -, -, rfl⟩ := P.step_deliver hst
    exact .kept hflush rfl rfl
  | serve index response =>
    obtain ⟨before, c, after, hcalls, -, hanswer, rfl⟩ := P.step_serve hst
    rw [view_eq_flush (h.calls c (mem_of_split hcalls) ▸ h.writes)] at hanswer
    rw [heffect]
    exact .served before c after response hcalls hanswer rfl rfl rfl
  | resume index id =>
    obtain ⟨before, a, after, hanswers, -, hmintable, hfresh, rfl⟩ := P.step_resume hst
    exact .resumed before a after id hanswers hmintable hfresh (flush_issue _ _ _) rfl rfl
  | observe client' =>
    obtain rfl := P.step_observe hst
    exact .kept rfl rfl rfl

/-! ### The writes a run delivers -/

/-- The write an action delivers. -/
def delivers (s : Config Client Store Write Request Callback Response Id) :
    Action Client Op Response Id → List Write
  | .deliver index => (s.outstanding[index]?.map Issue.write).toList
  | _ => []

variable (P) in
/-- The writes delivered by some actions, and the state these end in. -/
def journal (s : Config Client Store Write Request Callback Response Id)
    (actions : List (Action Client Op Response Id)) :
    List Write × Option (Config Client Store Write Request Callback Response Id) :=
  actions.foldl (fun (ws, u) a => (ws ++ (u.map (delivers · a)).getD [], u.bind (P.step · a)))
    ([], some s)

variable {ok : Config Client Store Write Request Callback Response Id →
  Action Client Op Response Id → Prop}
variable {actions : List (Action Client Op Response Id)}

theorem journal_snoc (actions : List (Action Client Op Response Id))
    (a : Action Client Op Response Id) :
    P.journal s (actions ++ [a]) =
      ((P.journal s actions).1 ++ ((P.journal s actions).2.map (delivers · a)).getD [],
        (P.journal s actions).2.bind (P.step · a)) := by
  rw [journal, List.foldl_append]
  rfl

/-- **The store is what the delivered writes make of it**, and each of them was permitted when
    it was issued. -/
theorem store_of_journal (heffect : ∀ c r resp st, P.effect c r resp st = st)
    (hissued : Issued W K s)
    (hstep : ∀ u a v, Issued W K u → ok u a → P.step u a = some v → Issued W K v)
    (run : P.Run ok s actions t) :
    t.store = P.applyAll (P.journal s actions).1 s.store ∧
      ∀ w ∈ (P.journal s actions).1, ∃ client, W client w := by
  have hall : (P.journal s actions).2 = some t ∧ Issued W K t ∧
      t.store = P.applyAll (P.journal s actions).1 s.store ∧
      ∀ w ∈ (P.journal s actions).1, ∃ client, W client w := by
    refine run.history (fun done u => (P.journal s done).2 = some u ∧ Issued W K u ∧
      u.store = P.applyAll (P.journal s done).1 s.store ∧
      ∀ w ∈ (P.journal s done).1, ∃ client, W client w) ?_ ⟨rfl, hissued, rfl, by simp [journal]⟩
    rintro done u a v ⟨hend, hu, hstore, hws⟩ hok hst
    rw [journal_snoc, hend]
    refine ⟨hst, hstep u a v hu hok hst, ?_⟩
    cases a with
    | deliver index =>
      obtain ⟨before, e, after, hout, hlen, rfl⟩ := P.step_deliver hst
      have hget : u.outstanding[index]? = some e := by
        rw [hout, ← hlen]
        simp
      simp only [Option.map_some, Option.getD_some, delivers, hget, Option.toList_some]
      refine ⟨?_, fun w hw => ?_⟩
      · rw [hstore, applyAll, applyAll, List.foldl_append]
        rfl
      · rcases List.mem_append.mp hw with hold | hnew
        · exact hws w hold
        · rw [List.mem_singleton.mp hnew]
          exact ⟨e.client, hu.writes e (mem_of_split hout)⟩
    | start client op id =>
      obtain ⟨-, -, rfl⟩ := P.step_start hst
      simpa [delivers, Config.issue] using And.intro hstore hws
    | serve index response =>
      obtain ⟨before, c, after, -, -, -, rfl⟩ := P.step_serve hst
      simpa [delivers, heffect] using And.intro hstore hws
    | resume index id =>
      obtain ⟨before, a, after, -, -, -, -, rfl⟩ := P.step_resume hst
      simpa [delivers, Config.issue] using And.intro hstore hws
    | observe client =>
      obtain rfl := P.step_observe hst
      simpa [delivers] using And.intro hstore hws
  exact ⟨hall.2.2.1, hall.2.2.2⟩

end Protocol

end TeamUp
