import Mathlib.Algebra.GroupWithZero.Nat
import TeamUp.Interleaving

/-!
# Operations that come to an end

A callback may issue calls, whose callbacks issue calls in turn.  If every callback is
worth more than all that it issues, what is on its way is worth less after every step that
starts nothing.  So whatever is on its way comes to rest, in whatever order it runs, and an
operation causes only so many steps as it is worth.
-/

namespace TeamUp

variable {Client Op Store Write Request Callback Response Id : Type}

/-- The steps a command causes, where `C` bounds those of a callback, its own run included. -/
def Command.cost (C : Callback → Nat) : Command Write Request Callback → Nat
  | .write _ => 1
  | .call _ k => C k + 1

def Action.starts : Action Client Op Response Id → Bool
  | .start _ _ _ => true
  | _ => false

/-- The store delivers a write or serves a call, or a callback runs. -/
def Action.internal : Action Client Op Response Id → Bool
  | .deliver _ | .serve _ _ | .resume _ _ => true
  | _ => false

namespace Protocol

/-- The steps that what is on its way may still cause. -/
def potential (C : Callback → Nat) (s : Config Client Store Write Request Callback Response Id) :
    Nat :=
  s.outstanding.length + (s.calls.map fun c => C c.callback + 1).sum +
    (s.answers.map fun a => C a.callback).sum

variable {P : Protocol Client Op Store Write Request Callback Response Id}
variable {C : Callback → Nat} {bound : Nat}
variable {s t u : Config Client Store Write Request Callback Response Id}

theorem potential_issue (client : Client) (id : Id)
    (commands : List (Command Write Request Callback)) :
    potential C (s.issue client id commands) =
      potential C s + (commands.map (Command.cost C)).sum := by
  have hcost : ∀ commands : List (Command Write Request Callback),
      (commands.filterMap Command.write?).length +
        ((commands.filterMap Command.call?).map fun c => C c.2 + 1).sum =
          (commands.map (Command.cost C)).sum := by
    intro commands
    induction commands with
    | nil => rfl
    | cons c rest ih =>
      cases c <;>
        simp only [List.filterMap_cons, Command.write?, Command.call?, List.length_cons,
          List.map_cons, List.sum_cons, Command.cost] <;>
        omega
  simp only [potential, Config.issue, List.length_append, List.length_map, List.map_append,
    List.map_map, List.sum_append, Function.comp_def, ← hcost commands]
  omega

/-- The operations cost no more than the bound, and callbacks more than what they issue. -/
structure Costs (P : Protocol Client Op Store Write Request Callback Response Id)
    (C : Callback → Nat) (bound : Nat) : Prop where
  begin : ∀ client op id, ((P.begin client op id).map (Command.cost C)).sum ≤ bound
  resume : ∀ client k response id,
    ((P.resume client k response id).map (Command.cost C)).sum < C k

variable [DecidableEq Client] [DecidableEq Id]

theorem Costs.step (h : P.Costs C bound) {a : Action Client Op Response Id}
    (hst : P.step s a = some t) :
    potential C t + (if a.internal then 1 else 0) ≤
      potential C s + bound * (if a.starts then 1 else 0) := by
  cases a with
  | start client op id =>
    obtain ⟨-, -, rfl⟩ := P.step_start hst
    rw [potential_issue]
    simpa [Action.internal, Action.starts] using h.begin client op id
  | deliver index =>
    obtain ⟨before, e, after, hout, -, rfl⟩ := P.step_deliver hst
    simp only [potential, hout, List.length_append, List.length_cons, Action.internal,
      Action.starts, if_true, Bool.false_eq_true, if_false]
    omega
  | serve index response =>
    obtain ⟨before, c, after, hcalls, -, -, rfl⟩ := P.step_serve hst
    simp only [potential, hcalls, List.map_append, List.map_cons, List.sum_append, List.sum_cons,
      List.map_nil, List.sum_nil, Action.internal, Action.starts, if_true, Bool.false_eq_true,
      if_false]
    omega
  | resume index id =>
    obtain ⟨before, a, after, hanswers, -, -, -, rfl⟩ := P.step_resume hst
    have hcost := h.resume a.client a.callback a.response id
    rw [potential_issue]
    simp only [potential, hanswers, List.map_append, List.map_cons, List.sum_append,
      List.sum_cons, Action.internal, Action.starts, if_true, Bool.false_eq_true, if_false]
    omega
  | observe client =>
    obtain rfl := P.step_observe hst
    simp [potential, Action.internal, Action.starts]

/-- **A run takes at most `bound` internal steps for each operation it starts**, besides what
    was on its way before. -/
theorem Costs.run (h : P.Costs C bound)
    {ok : Config Client Store Write Request Callback Response Id →
      Action Client Op Response Id → Prop}
    {actions : List (Action Client Op Response Id)} (run : P.Run ok s actions t) :
    potential C t + actions.countP Action.internal ≤
      potential C s + bound * actions.countP Action.starts := by
  refine run.history (fun done u => potential C u + done.countP Action.internal ≤
    potential C s + bound * done.countP Action.starts) ?_ (by simp)
  intro done u a v hu _ hst
  have hstep := h.step hst
  rw [List.countP_append, List.countP_append, List.countP_singleton, List.countP_singleton,
    Nat.mul_add]
  omega

/-- Unless nothing is on its way, it can go on, also in order. -/
theorem exists_internal (hanswers : ∀ r st, ∃ response, P.answers r st response = true)
    (hfresh : ∀ ids : List Id, ∃ id, P.mintable id = true ∧ id ∉ ids) (hs : ¬ s.Quiescent) :
    ∃ (a : Action Client Op Response Id) (t : _), a.internal = true ∧ InOrder s a ∧
      P.step s a = some t := by
  cases hout : s.outstanding with
  | cons e rest =>
    refine ⟨.deliver 0, _, rfl, fun _ _ e' he' => ?_, by simp [step, hout]; rfl⟩
    simp at he'
  | nil =>
    cases hcalls : s.calls with
    | cons c rest =>
      obtain ⟨response, hresponse⟩ := hanswers c.request (P.view s c.client)
      exact ⟨.serve 0 response, _, rfl, trivial, by simp [step, hcalls, hresponse]; rfl⟩
    | nil =>
      cases hans : s.answers with
      | cons a rest =>
        obtain ⟨id, hid⟩ := hfresh s.minted
        exact ⟨.resume 0 id, _, rfl, trivial, by simp [step, hans, hid]; rfl⟩
      | nil => exact (hs ⟨hout, hcalls, hans⟩).elim

/-- **Whatever is on its way comes to rest**: there is always a way to go on, and none of them
    is endless. -/
theorem Costs.exists_rest (h : P.Costs C bound)
    (hanswers : ∀ r st, ∃ response, P.answers r st response = true)
    (hfresh : ∀ ids : List Id, ∃ id, P.mintable id = true ∧ id ∉ ids)
    (s : Config Client Store Write Request Callback Response Id) :
    ∃ (actions : List (Action Client Op Response Id)) (t : _),
      P.Run (fun u a => a.internal = true ∧ InOrder u a) s actions t ∧ t.Quiescent := by
  induction hpotential : potential C s using Nat.strongRecOn generalizing s with
  | _ n ih =>
    by_cases hs : s.Quiescent
    · exact ⟨[], s, .nil, hs⟩
    · obtain ⟨a, u, hinternal, horder, hst⟩ := P.exists_internal hanswers hfresh hs
      have hnot : a.starts = false := by cases a <;> first | rfl | cases hinternal
      have hless := h.step hst
      rw [hinternal, hnot] at hless
      obtain ⟨actions, t, run, ht⟩ := ih (potential C u) (by simp at hless; omega) u rfl
      exact ⟨a :: actions, t, .cons ⟨hinternal, horder⟩ hst run, ht⟩

end Protocol

end TeamUp
