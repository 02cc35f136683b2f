import TeamUp.Registers

/-!
# As if every operation were atomic

Registers whose outstanding writes never disagree have settled values, which change only
when writes are issued.  So a run acts on them as if all that an operation or a callback
issues were written at once, in the order of issuing: once nothing is outstanding, the
store holds just that.  An abstract state that follows what is issued is then followed by
the store.
-/

namespace TeamUp

/-! ### What a run emits -/

section Chronicle

variable {State Action Observation : Type}

/-- What a run emits, step by step, and the state it ends in. -/
def chronicle (step : State → Action → Option State) (emit : State → Action → List Observation)
    (s : State) (actions : List Action) : List Observation × Option State :=
  actions.foldl (fun (seen, u) a => (seen ++ (u.map (emit · a)).getD [], u.bind (step · a)))
    ([], some s)

variable {step : State → Action → Option State} {emit : State → Action → List Observation}
variable {ok : State → Action → Prop} {s t : State} {actions : List Action}

/-- **Simulation.**  If every step takes an abstract state where what it emits leads, so does
    a run. -/
theorem Run.simulation {Abstract : Type} (run : Run step ok s actions t)
    (apply : Abstract → Observation → Abstract) (R : State → Abstract → Prop)
    (hstep : ∀ u a v x, R u x → ok u a → step u a = some v → R v ((emit u a).foldl apply x))
    {x : Abstract} (hs : R s x) : R t ((chronicle step emit s actions).1.foldl apply x) := by
  have hall : (chronicle step emit s actions).2 = some t ∧
      R t ((chronicle step emit s actions).1.foldl apply x) := by
    refine run.history (fun done u => (chronicle step emit s done).2 = some u ∧
      R u ((chronicle step emit s done).1.foldl apply x)) ?_ ⟨rfl, hs⟩
    rintro done u a v ⟨hend, hu⟩ hok hst
    rw [chronicle, List.foldl_append, ← chronicle]
    simp only [List.foldl_cons, List.foldl_nil, hend, Option.map_some, Option.getD_some,
      Option.bind_some, List.foldl_append]
    exact ⟨hst, hstep u a v _ hu hok hst⟩
  exact hall.2

end Chronicle

namespace Protocol

variable {Client Op Store Write Request Callback Response Id ι β : Type}
variable {P : Protocol Client Op Store Write Request Callback Response Id}
variable {R : ι → Register Store Write β} {W : ι → Write → Prop}
variable {s t : Config Client Store Write Request Callback Response Id}

def issues (P : Protocol Client Op Store Write Request Callback Response Id)
    (s : Config Client Store Write Request Callback Response Id) :
    Action Client Op Response Id → Option (Client × List Write)
  | .start client op id => some (client, (P.begin client op id).filterMap Command.write?)
  | .resume index id => s.answers[index]?.map fun a =>
      (a.client, (P.resume a.client a.callback a.response id).filterMap Command.write?)
  | _ => none

/-- The writes issued in a step agree with what other clients have outstanding. -/
def Undisputed (P : Protocol Client Op Store Write Request Callback Response Id)
    (R : ι → Register Store Write β)
    (s : Config Client Store Write Request Callback Response Id)
    (a : Action Client Op Response Id) : Prop :=
  ∀ client ws, P.issues s a = some (client, ws) →
    ∀ w ∈ ws, ∀ e ∈ s.outstanding, e.client ≠ client →
      ∀ i, ∀ x ∈ (R i).target w, ∀ y ∈ (R i).target e.write, x = y

/-- Registers that follow the writes which satisfy `W`. -/
structure Observed (P : Protocol Client Op Store Write Request Callback Response Id)
    (R : ι → Register Store Write β) (W : ι → Write → Prop) : Prop where
  follows : ∀ i, (R i).Follows P (W i)
  effect : ∀ i client request response st,
    (R i).read (P.effect client request response st) = (R i).read st

variable [DecidableEq Client] [DecidableEq Id]

/-- **A step settles what it issues, at once.** -/
theorem Observed.settled_step (hR : P.Observed R W)
    (hW : ∀ i, ∀ e ∈ s.outstanding, W i e.write) (hagree : ∀ i, (R i).Agrees s)
    {a : Action Client Op Response Id} (horder : InOrder s a) (hst : P.step s a = some t) (i : ι) :
    (R i).settled t =
      (R i).updateAll ((R i).settled s) (((P.issues s a).map Prod.snd).getD []) := by
  cases a with
  | start client op id =>
    obtain ⟨-, -, rfl⟩ := P.step_start hst
    exact (R i).settled_issue s client id _
  | deliver index => exact (R i).settled_deliver (hR.follows i) (hW i) (hagree i) horder hst
  | serve index response =>
    obtain ⟨before, c, after, -, -, -, rfl⟩ := P.step_serve hst
    simp [Register.settled, hR.effect, issues]
  | resume index id =>
    obtain ⟨before, a, after, hanswers, hlen, -, -, rfl⟩ := P.step_resume hst
    have hget : s.answers[index]? = some a := by
      rw [hanswers, ← hlen]
      simp
    rw [Register.settled_issue, issues, hget]
    rfl
  | observe client =>
    rw [P.step_observe hst]
    rfl

theorem Undisputed.agrees {a : Action Client Op Response Id} (h : P.Undisputed R s a)
    (hagree : ∀ i, (R i).Agrees s) (hst : P.step s a = some t) (i : ι) : (R i).Agrees t := by
  cases a with
  | start client op id =>
    obtain ⟨-, -, rfl⟩ := P.step_start hst
    exact (hagree i).issue _ (fun w hw e he hne =>
      h client _ rfl w (mem_writes.mpr hw) e he hne i) id
  | deliver index => exact (hagree i).deliver _ hst
  | serve index response =>
    obtain ⟨before, c, after, -, -, -, rfl⟩ := P.step_serve hst
    exact hagree i
  | resume index id =>
    obtain ⟨before, a, after, hanswers, hlen, -, -, rfl⟩ := P.step_resume hst
    have hget : s.answers[index]? = some a := by
      rw [hanswers, ← hlen]
      simp
    have hrest : (R i).Agrees { s with answers := before ++ after } := hagree i
    refine hrest.issue _ (fun w hw e he hne => ?_) id
    exact h a.client _ (by rw [issues, hget]; rfl) w (mem_writes.mpr hw) e he hne i
  | observe client =>
    rw [P.step_observe hst]
    exact hagree i

end Protocol

end TeamUp
