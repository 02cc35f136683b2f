import Mathlib.Data.List.Basic

/-!
# Runs of a partial step function

A run takes one step for each of its actions, each of them allowed in the state
it is taken in.  What every allowed step preserves holds at the end of every run;
`exec` computes the end of a run whose steps are checked as they are taken.

Steps often take one element out of a list, or replace it; the list is then split at
its index.
-/

namespace TeamUp

variable {State Action : Type}

/-- A run all of whose steps are allowed where they are taken. -/
inductive Run (step : State → Action → Option State) (ok : State → Action → Prop)
    (s : State) : List Action → State → Prop
  | nil : Run step ok s [] s
  | snoc {actions : List Action} {t u : State} {a : Action} :
      Run step ok s actions t → ok t a → step t a = some u → Run step ok s (actions ++ [a]) u

/-- Execute a list of actions, refusing those that are not allowed. -/
def exec (step : State → Action → Option State) (allowed : State → Action → Bool) (s : State) :
    List Action → Option State
  | [] => some s
  | a :: rest =>
      if allowed s a = true then
        match step s a with
        | some t => exec step allowed t rest
        | none => none
      else none

variable {step : State → Action → Option State} {ok ok' : State → Action → Prop}
variable {s t u : State} {a : Action} {actions : List Action}

/-- What every allowed step carries from the actions taken so far to one more holds
    of every run. -/
theorem Run.history (run : Run step ok s actions t) (I : List Action → State → Prop)
    (hstep : ∀ done u a v, I done u → ok u a → step u a = some v → I (done ++ [a]) v)
    (hs : I [] s) : I actions t := by
  induction run with
  | nil => exact hs
  | snoc _ hok hst ih => exact hstep _ _ _ _ ih hok hst

/-- What every allowed step preserves holds at the end of every run. -/
theorem Run.invariant (run : Run step ok s actions t) (I : State → Prop)
    (hstep : ∀ u a v, I u → ok u a → step u a = some v → I v) (hs : I s) : I t :=
  run.history (fun _ u => I u) (fun _ => hstep) hs

theorem Run.mono (run : Run step ok s actions t) (h : ∀ u a, ok u a → ok' u a) :
    Run step ok' s actions t := by
  induction run with
  | nil => exact .nil
  | snoc _ hok hst ih => exact .snoc ih (h _ _ hok) hst

/-- A run is one of steps that are taken where an invariant holds. -/
theorem Run.keeping (run : Run step ok s actions t) (I : State → Prop)
    (hstep : ∀ u a v, I u → ok u a → step u a = some v → I v) (hs : I s) :
    Run step (fun u a => ok u a ∧ I u) s actions t := by
  induction run with
  | nil => exact .nil
  | snoc run hok hst ih => exact .snoc ih ⟨hok, run.invariant I hstep hs⟩ hst

theorem Run.cons (hok : ok s a) (hst : step s a = some t) (run : Run step ok t actions u) :
    Run step ok s (a :: actions) u := by
  induction run with
  | nil =>
    have hone : Run step ok s ([] ++ [a]) t := .snoc .nil hok hst
    exact hone
  | snoc _ hok' hst' ih =>
    have hlonger := Run.snoc ih hok' hst'
    exact hlonger

theorem Run.append {later : List Action} (run : Run step ok s actions t)
    (run' : Run step ok t later u) : Run step ok s (actions ++ later) u := by
  induction run' with
  | nil =>
    rw [List.append_nil]
    exact run
  | snoc _ hok hst ih =>
    rw [← List.append_assoc]
    exact .snoc ih hok hst

/-- The last step of a run. -/
theorem Run.last (run : Run step ok s (actions ++ [a]) u) :
    ∃ t, Run step ok s actions t ∧ ok t a ∧ step t a = some u := by
  generalize hall : actions ++ [a] = all at run
  cases run with
  | nil => simp at hall
  | snoc run hok hst =>
    obtain ⟨rfl, hlast⟩ := List.append_inj' hall rfl
    obtain rfl := List.singleton_inj.mp hlast
    exact ⟨_, run, hok, hst⟩

theorem Run.end_of_nil (run : Run step ok s [] t) : t = s := by
  generalize hall : ([] : List Action) = all at run
  cases run with
  | nil => rfl
  | snoc run hok hst => simp at hall

/-- The actions of a run determine its end. -/
theorem Run.unique (run : Run step ok s actions t) (run' : Run step ok' s actions u) :
    t = u := by
  induction run generalizing u with
  | nil => exact run'.end_of_nil.symm
  | snoc run _ hst ih =>
    obtain ⟨v, run', -, hst'⟩ := run'.last
    obtain rfl := ih run'
    exact Option.some.inj (hst.symm.trans hst')

/-- A run goes through a state after each of its first actions. -/
theorem Run.before {done : List Action} (run : Run step ok s actions t) (h : done <+: actions) :
    ∃ u, Run step ok s done u := by
  induction run with
  | nil =>
    obtain rfl := List.prefix_nil.mp h
    exact ⟨_, .nil⟩
  | snoc run hok hst ih =>
    rcases List.prefix_concat_iff.mp h with rfl | hearlier
    · exact ⟨_, .snoc run hok hst⟩
    · exact ih hearlier

/-- Where a run takes one of its actions. -/
theorem Run.step_of_mem (run : Run step ok s actions t) (h : a ∈ actions) :
    ∃ before after u v, actions = before ++ a :: after ∧ Run step ok s before u ∧ ok u a ∧
      step u a = some v ∧ Run step ok v after t := by
  induction run with
  | nil => cases h
  | @snoc actions t w b run hok hst ih =>
    rcases List.mem_append.mp h with hearlier | hlast
    · obtain ⟨before, after, u, v, rfl, hbefore, hoka, hsta, hafter⟩ := ih hearlier
      exact ⟨before, after ++ [b], u, v, by simp, hbefore, hoka, hsta, .snoc hafter hok hst⟩
    · obtain rfl := List.mem_singleton.mp hlast
      exact ⟨actions, [], t, w, rfl, run, hok, hst, .nil⟩

/-- Every state of the run satisfies the property. -/
def Always (step : State → Action → Option State) (s : State) (I : State → Prop)
    (actions : List Action) : Prop :=
  ∀ done t, done <+: actions → Run step (fun _ _ => True) s done t → I t

/-- **If the allowed steps are exactly those that preserve a property, the runs of allowed
    steps are exactly those along which it always holds.** -/
theorem Run.always_iff (run : Run step (fun _ _ => True) s actions t) {I : State → Prop}
    (hs : I s) (hstep : ∀ u a v, I u → step u a = some v → (I v ↔ ok u a)) :
    Always step s I actions ↔ Run step ok s actions t := by
  constructor
  · intro halways
    induction run with
    | nil => exact .nil
    | @snoc actions t u a run _ hst ih =>
      have hbefore := halways actions t (List.prefix_append _ _) run
      have hafter := halways _ u (List.prefix_refl _) (.snoc run trivial hst)
      have hshorter : Always step s I actions := fun done v hdone =>
        halways done v (hdone.trans (List.prefix_append _ _))
      exact .snoc (ih hshorter) ((hstep t a u hbefore hst).mp hafter) hst
  · intro hallowed done u hdone run'
    obtain ⟨v, run''⟩ := hallowed.before hdone
    obtain rfl := run'.unique run''
    exact run''.invariant I (fun _ _ _ hI hok hst => (hstep _ _ _ hI hst).mpr hok) hs

/-- If every step keeps a property exactly when it had it and the step is allowed, the property
    holds at the end of exactly the runs of allowed steps. -/
theorem Run.allowed_iff (run : Run step (fun _ _ => True) s actions t) {J I : State → Prop}
    (hJ : ∀ u a v, J u → step u a = some v → J v) (hs : J s) (hI : I s)
    (hstep : ∀ u a v, J u → step u a = some v → (I v ↔ I u ∧ ok u a)) :
    I t ↔ Run step ok s actions t := by
  induction run with
  | nil => exact ⟨fun _ => .nil, fun _ => hI⟩
  | @snoc actions t u a run _ hst ih =>
    have ht : J t := run.invariant J (fun _ _ _ hu _ hst => hJ _ _ _ hu hst) hs
    rw [hstep t a u ht hst, ih]
    constructor
    · rintro ⟨hallowed, hok⟩
      exact .snoc hallowed hok hst
    · intro hallowed
      obtain ⟨v, hallowed', hok, -⟩ := hallowed.last
      obtain rfl := hallowed'.unique run
      exact ⟨hallowed', hok⟩

/-- A run of a system is one of a component that each step leaves alone or makes a step of. -/
theorem Run.project {State' Action' : Type} {step' : State' → Action' → Option State'}
    {allowed' : State' → Action' → Prop} (part : State → State') (act : Action → Option Action')
    (hnone : ∀ u a v, step u a = some v → act a = none → part v = part u)
    (hsome : ∀ u a v a', ok u a → step u a = some v → act a = some a' →
      allowed' (part u) a' ∧ step' (part u) a' = some (part v))
    (run : Run step ok s actions t) :
    Run step' allowed' (part s) (actions.filterMap act) (part t) := by
  induction run with
  | nil => exact .nil
  | @snoc actions u v a _ hok hst ih =>
    rw [List.filterMap_append]
    cases hact : act a with
    | none =>
      rw [hnone u a v hst hact, List.filterMap_cons_none hact, List.filterMap_nil, List.append_nil]
      exact ih
    | some a' =>
      obtain ⟨hallowed, hstep⟩ := hsome u a v a' hok hst hact
      rw [List.filterMap_cons_some hact, List.filterMap_nil]
      exact .snoc ih hallowed hstep

/-- The first steps of an endless run. -/
theorem run_of_sequence {state : Nat → State} {action : Nat → Action}
    (h : ∀ k, ok (state k) (action k) ∧ step (state k) (action k) = some (state (k + 1)))
    (k : Nat) :
    Run step ok (state 0) ((List.range k).map action) (state k) := by
  induction k with
  | zero => exact .nil
  | succ k ih =>
    rw [List.range_succ, List.map_append, List.map_singleton]
    exact .snoc ih (h k).1 (h k).2

theorem run_of_exec {allowed : State → Action → Bool}
    (hallowed : ∀ s a, allowed s a = true → ok s a) (h : exec step allowed s actions = some t) :
    Run step ok s actions t := by
  induction actions generalizing s with
  | nil => cases h; exact .nil
  | cons a rest ih =>
    simp only [exec] at h
    split at h
    · rename_i hok
      split at h
      · rename_i u hu
        exact .cons (hallowed s a hok) hu (ih h)
      · cases h
    · cases h

/-- What a guarded step does, it does under its guard. -/
theorem of_guarded {guard : Prop} [Decidable guard] {x : State}
    (h : (if guard then some x else none) = some t) : guard ∧ t = x := by
  obtain ⟨hguard, hsome⟩ := Option.ite_none_right_eq_some.mp h
  exact ⟨hguard, (Option.some.inj hsome).symm⟩

/-! ### One element of a list -/

section Split

variable {α : Type} {xs : List α} {i : Nat} {x : α}

theorem split_at (h : xs[i]? = some x) :
    ∃ before after, xs = before ++ x :: after ∧ before.length = i := by
  obtain ⟨hlt, rfl⟩ := List.getElem?_eq_some_iff.mp h
  exact ⟨xs.take i, xs.drop (i + 1), by simp, by simp; omega⟩

theorem set_split (before : List α) (x y : α) (after : List α) :
    (before ++ x :: after).set before.length y = before ++ y :: after := by
  simp

theorem eraseIdx_split (before : List α) (x : α) (after : List α) :
    (before ++ x :: after).eraseIdx before.length = before ++ after := by
  rw [List.eraseIdx_append_of_length_le (Nat.le_refl _)]
  simp

theorem split_sublist (before : List α) (x : α) (after : List α) :
    (before ++ after).Sublist (before ++ x :: after) :=
  (List.Sublist.refl before).append (List.sublist_cons_self x after)

theorem mem_of_split {before after : List α} (h : xs = before ++ x :: after) : x ∈ xs := by
  rw [h]
  exact List.mem_append_right _ List.mem_cons_self

theorem rest_of_split {before after : List α} (h : xs = before ++ x :: after) :
    before ++ after ⊆ xs := by
  rw [h]
  exact (split_sublist before x after).subset

/-- What holds of all elements still does after one of them is replaced. -/
theorem forall_of_split {P : α → Prop} (hall : ∀ y ∈ xs, P y) {before after : List α}
    (h : xs = before ++ x :: after) {x' : α} (hx' : P x') : ∀ y ∈ before ++ x' :: after, P y := by
  intro y hy
  rcases List.mem_append.mp hy with hbefore | hrest
  · exact hall y (by rw [h]; simp [hbefore])
  · rcases List.mem_cons.mp hrest with rfl | hafter
    · exact hx'
    · exact hall y (by rw [h]; simp [hafter])

/-- A pairwise relation holds between one element and the others, in one order. -/
theorem pairwise_around {R : α → α → Prop} {before after : List α}
    (h : (before ++ x :: after).Pairwise R) {y : α} (hy : y ∈ before ++ after) :
    R y x ∨ R x y := by
  rw [List.pairwise_append, List.pairwise_cons] at h
  obtain ⟨-, ⟨hafter, -⟩, hcross⟩ := h
  rcases List.mem_append.mp hy with hearlier | hlater
  · exact Or.inl (hcross y hearlier x (by simp))
  · exact Or.inr (hafter y hlater)

end Split

end TeamUp
