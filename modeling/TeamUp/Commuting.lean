import TeamUp.Atomicity

/-!
# Writes that commute

If the writes of different clients that are on their way at the same time commute, it does
not matter in which order they arrive: the store comes out as if each of them had been
applied when it was issued.
-/

namespace TeamUp

namespace Protocol

variable {Client Op Store Write Request Callback Response Id : Type}

/-- The writes issued in a step are apart from what other clients have outstanding. -/
def IssuedApart (P : Protocol Client Op Store Write Request Callback Response Id)
    (apart : Write → Write → Prop)
    (s : Config Client Store Write Request Callback Response Id)
    (a : Action Client Op Response Id) : Prop :=
  ∀ issue ∈ (P.issues s a).toList, ∀ w ∈ issue.2, ∀ e ∈ s.outstanding,
    e.client ≠ issue.1 → apart w e.write

instance [DecidableEq Client] (P : Protocol Client Op Store Write Request Callback Response Id)
    (apart : Write → Write → Prop) [∀ w w', Decidable (apart w w')]
    (s : Config Client Store Write Request Callback Response Id)
    (a : Action Client Op Response Id) : Decidable (P.IssuedApart apart s a) :=
  inferInstanceAs (Decidable (∀ issue ∈ (P.issues s a).toList, ∀ w ∈ issue.2,
    ∀ e ∈ s.outstanding, e.client ≠ issue.1 → apart w e.write))

/-- The writes a step issues. -/
def issued (P : Protocol Client Op Store Write Request Callback Response Id)
    (s : Config Client Store Write Request Callback Response Id)
    (a : Action Client Op Response Id) : List Write :=
  ((P.issues s a).map Prod.snd).getD []

/-- Stores that count as the same, and writes that may be applied to them in either order. -/
structure Commutes (P : Protocol Client Op Store Write Request Callback Response Id)
    (same : Store → Store → Prop) (apart : Write → Write → Prop) : Prop where
  equivalence : Equivalence same
  congr : ∀ w {st st'}, same st st' → same (P.apply w st) (P.apply w st')
  swap : ∀ {w w'} st, apart w w' → same (P.apply w (P.apply w' st)) (P.apply w' (P.apply w st))
  effect : ∀ client request response st, P.effect client request response st = st

/-- Outstanding writes of different clients are apart. -/
def OutstandingApart (apart : Write → Write → Prop)
    (s : Config Client Store Write Request Callback Response Id) : Prop :=
  s.outstanding.Pairwise fun e e' => e.client ≠ e'.client → apart e'.write e.write

variable {P : Protocol Client Op Store Write Request Callback Response Id}
variable {same : Store → Store → Prop} {apart : Write → Write → Prop}
variable {s t : Config Client Store Write Request Callback Response Id}
variable {actions : List (Action Client Op Response Id)}

theorem Commutes.applyAll_congr (h : P.Commutes same apart) (writes : List Write)
    {st st' : Store} (hst : same st st') :
    same (P.applyAll writes st) (P.applyAll writes st') := by
  induction writes generalizing st st' with
  | nil => exact hst
  | cons w rest ih => exact ih (h.congr w hst)

/-- A write may be applied before those it is apart from. -/
theorem Commutes.applyAll_apply (h : P.Commutes same apart) {w : Write} {writes : List Write}
    (hapart : ∀ w' ∈ writes, apart w w') (st : Store) :
    same (P.applyAll writes (P.apply w st)) (P.apply w (P.applyAll writes st)) := by
  induction writes generalizing st with
  | nil => exact h.equivalence.refl _
  | cons w' rest ih =>
    have hswap : same (P.apply w' (P.apply w st)) (P.apply w (P.apply w' st)) :=
      h.equivalence.symm (h.swap st (hapart w' (by simp)))
    refine h.equivalence.trans (h.applyAll_congr rest hswap) ?_
    exact ih (fun x hx => hapart x (by simp [hx])) (P.apply w' st)

theorem OutstandingApart.issue (h : OutstandingApart apart s) {client : Client}
    {commands : List (Command Write Request Callback)}
    (hnew : ∀ w, .write w ∈ commands → ∀ e ∈ s.outstanding, e.client ≠ client → apart w e.write)
    (id : Id) : OutstandingApart apart (s.issue client id commands) := by
  refine List.pairwise_append.mpr ⟨h, List.pairwise_map.mpr ?_, ?_⟩
  · exact List.pairwise_of_forall fun _ _ hne => (hne rfl).elim
  · intro e he e' he' hne
    obtain ⟨w, hw, rfl⟩ := List.mem_map.mp he'
    exact hnew w (mem_writes.mp hw) e he hne

variable [DecidableEq Client] [DecidableEq Id]

/-- **Deliveries do not change what comes out in the end.** -/
theorem Commutes.flush_deliver (h : P.Commutes same apart) (hs : OutstandingApart apart s)
    {index : Nat} (horder : InOrder s (.deliver index : Action Client Op Response Id))
    (hst : P.step s (.deliver index) = some t) : same (P.flush t) (P.flush s) := by
  obtain ⟨before, e, after, hout, hlen, rfl⟩ := P.step_deliver hst
  have hapart : ∀ w ∈ before.map Issue.write, apart e.write w := by
    intro w hw
    obtain ⟨e', he', rfl⟩ := List.mem_map.mp hw
    rw [OutstandingApart, hout] at hs
    exact (List.pairwise_append.mp hs).2.2 e' he' e (by simp) (horder.before hout hlen e' he')
  have hswap := h.applyAll_congr (after.map Issue.write) (h.applyAll_apply hapart s.store)
  simpa [flush, hout, applyAll] using hswap

theorem OutstandingApart.step (hs : OutstandingApart apart s) {a : Action Client Op Response Id}
    (hissued : P.IssuedApart apart s a) (hst : P.step s a = some t) :
    OutstandingApart apart t := by
  cases a with
  | start client op id =>
    obtain ⟨-, -, rfl⟩ := P.step_start hst
    refine hs.issue (fun w hw e he hne => ?_) id
    exact hissued (client, _) (by simp [issues]) w (mem_writes.mpr hw) e he hne
  | deliver index =>
    obtain ⟨before, e, after, hout, -, rfl⟩ := P.step_deliver hst
    rw [OutstandingApart, hout] at hs
    exact hs.sublist (split_sublist before e after)
  | serve index response =>
    obtain ⟨before, c, after, -, -, -, rfl⟩ := P.step_serve hst
    exact hs
  | resume index id =>
    obtain ⟨before, a, after, hanswers, hlen, -, -, rfl⟩ := P.step_resume hst
    have hget : s.answers[index]? = some a := by
      rw [hanswers, ← hlen]
      simp
    have hrest : OutstandingApart apart { s with answers := before ++ after } := hs
    refine hrest.issue (fun w hw e he hne => ?_) id
    exact hissued (a.client, _) (by simp [issues, hget]) w (mem_writes.mpr hw) e he hne
  | observe client =>
    rw [P.step_observe hst]
    exact hs

/-- A step adds what it issues to what comes out in the end. -/
theorem Commutes.flush_step (h : P.Commutes same apart) (hs : OutstandingApart apart s)
    {a : Action Client Op Response Id} (horder : InOrder s a) (hst : P.step s a = some t) :
    same (P.flush t) (P.applyAll (P.issued s a) (P.flush s)) := by
  cases a with
  | start client op id =>
    obtain ⟨-, -, rfl⟩ := P.step_start hst
    rw [flush_issue]
    exact h.equivalence.refl _
  | deliver index => exact h.flush_deliver hs horder hst
  | serve index response =>
    obtain ⟨before, c, after, -, -, -, rfl⟩ := P.step_serve hst
    rw [h.effect]
    exact h.equivalence.refl _
  | resume index id =>
    obtain ⟨before, a, after, hanswers, hlen, -, -, rfl⟩ := P.step_resume hst
    have hget : s.answers[index]? = some a := by
      rw [hanswers, ← hlen]
      simp
    rw [flush_issue, issued, issues, hget]
    exact h.equivalence.refl _
  | observe client =>
    rw [P.step_observe hst]
    exact h.equivalence.refl _

/-- **The store comes out as if every write had been applied when it was issued.** -/
theorem Commutes.flush_run (h : P.Commutes same apart) (hs : OutstandingApart apart s)
    (run : P.Run (fun s a => InOrder s a ∧ P.IssuedApart apart s a) s actions t) :
    same (P.flush t) (P.applyAll (chronicle P.step P.issued s actions).1 (P.flush s)) := by
  have hend : OutstandingApart apart t ∧ same (P.flush t)
      ((chronicle P.step P.issued s actions).1.foldl (fun st w => P.apply w st) (P.flush s)) := by
    refine run.simulation _ (fun u st => OutstandingApart apart u ∧ same (P.flush u) st) ?_
      ⟨hs, h.equivalence.refl (P.flush s)⟩
    rintro u a v st ⟨hu, hst⟩ ⟨horder, hissued⟩ hstep
    refine ⟨hu.step hissued hstep, ?_⟩
    exact h.equivalence.trans (h.flush_step hu horder hstep) (h.applyAll_congr _ hst)
  exact hend.2

end Protocol

end TeamUp
