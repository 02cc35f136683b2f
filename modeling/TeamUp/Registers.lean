import TeamUp.Interleaving

/-!
# Registers of a shared store

A register is an observation of the store which every write either replaces by
a value of its own or leaves alone.  As long as outstanding writes of different
clients never disagree about a register, its *settled* value, what it will hold
once everything outstanding has been delivered, does not depend on the order of
delivery: it changes only when an operation starts.  Reasoning about arbitrary
interleavings is thereby reduced to reasoning about one operation at a time.
-/

namespace TeamUp

structure Register (Store Write β : Type) where
  read : Store → β
  /-- The value a write gives the register, if it touches it. -/
  target : Write → Option β

variable {Client Op Store Write Request Callback Response Id β : Type}

namespace Register

variable (R : Register Store Write β)

/-- One write, seen from the register. -/
def update (v : β) (w : Write) : β := (R.target w).getD v

/-- The value after a sequence of writes. -/
def updateAll (v : β) (writes : List Write) : β := writes.foldl R.update v

@[simp] theorem updateAll_nil (v : β) : R.updateAll v [] = v := rfl

@[simp] theorem updateAll_cons (v : β) (w : Write) (ws : List Write) :
    R.updateAll v (w :: ws) = R.updateAll (R.update v w) ws := rfl

@[simp] theorem updateAll_append (v : β) (ws ws' : List Write) :
    R.updateAll v (ws ++ ws') = R.updateAll (R.updateAll v ws) ws' := by
  simp [updateAll]

theorem update_of_none {w : Write} (h : R.target w = none) (v : β) : R.update v w = v := by
  simp [update, h]

theorem update_of_some {w : Write} {x : β} (h : R.target w = some x) (v : β) :
    R.update v w = x := by
  simp [update, h]

/-- Writes that do not touch the register leave it alone. -/
theorem updateAll_of_none {writes : List Write} (h : ∀ w ∈ writes, R.target w = none)
    (v : β) : R.updateAll v writes = v := by
  induction writes with
  | nil => rfl
  | cons w ws ih =>
    rw [updateAll_cons, update_of_none R (h w (by simp))]
    exact ih fun w' hw' => h w' (by simp [hw'])

/-- Writes that all give the register the value it has leave it alone. -/
theorem updateAll_of_agree {writes : List Write} {v : β}
    (h : ∀ w ∈ writes, ∀ x ∈ R.target w, x = v) : R.updateAll v writes = v := by
  induction writes with
  | nil => rfl
  | cons w ws ih =>
    have hw : R.update v w = v := by
      cases hx : R.target w with
      | none => exact update_of_none R hx v
      | some x => rw [update_of_some R hx]; exact h w (by simp) x (by simp [hx])
    rw [updateAll_cons, hw]
    exact ih fun w' hw' => h w' (by simp [hw'])

/-- Writes that touch the register and agree on a value give it that value. -/
theorem updateAll_of_hit {writes : List Write} {x : β} (v : β)
    (hall : ∀ w ∈ writes, ∀ y ∈ R.target w, y = x)
    (hhit : ∃ w ∈ writes, R.target w = some x) : R.updateAll v writes = x := by
  induction writes generalizing v with
  | nil => simp at hhit
  | cons w ws ih =>
    have hrest : ∀ w' ∈ ws, ∀ y ∈ R.target w', y = x := fun w' hw' => hall w' (by simp [hw'])
    rw [updateAll_cons]
    by_cases hlater : ∃ w' ∈ ws, R.target w' = some x
    · exact ih _ hrest hlater
    · obtain ⟨w', hmem, hw'⟩ := hhit
      rcases List.mem_cons.mp hmem with rfl | hws
      · rw [update_of_some R hw']
        exact updateAll_of_agree R hrest
      · exact (hlater ⟨w', hws, hw'⟩).elim

/-- The value after writes that agree on `x`, provided it is the old one when none
    of them touches the register. -/
theorem updateAll_eq {writes : List Write} {v x : β}
    (hall : ∀ w ∈ writes, ∀ y ∈ R.target w, y = x)
    (hnone : (∀ w ∈ writes, R.target w = none) → x = v) : R.updateAll v writes = x := by
  by_cases hhit : ∃ w ∈ writes, R.target w ≠ none
  · obtain ⟨w, hw, hne⟩ := hhit
    obtain ⟨y, hy⟩ := Option.ne_none_iff_exists'.mp hne
    exact updateAll_of_hit R v hall ⟨w, hw, hall w hw y hy ▸ hy⟩
  · push Not at hhit
    rw [updateAll_of_none R hhit, hnone hhit]

/-- The register follows the writes that satisfy `W`. -/
def Follows (P : Protocol Client Op Store Write Request Callback Response Id)
    (W : Write → Prop) : Prop :=
  ∀ w, W w → ∀ st, R.read (P.apply w st) = R.update (R.read st) w

/-- The value the register will hold once everything outstanding is delivered. -/
def settled (s : Config Client Store Write Request Callback Response Id) : β :=
  R.updateAll (R.read s.store) (s.outstanding.map Issue.write)

/-- Outstanding writes of different clients do not disagree about the register. -/
def Agrees (s : Config Client Store Write Request Callback Response Id) : Prop :=
  ∀ e ∈ s.outstanding, ∀ e' ∈ s.outstanding, e.client ≠ e'.client →
    ∀ x ∈ R.target e.write, ∀ y ∈ R.target e'.write, x = y

theorem settled_of_none_outstanding
    {s : Config Client Store Write Request Callback Response Id}
    (h : s.outstanding = []) : R.settled s = R.read s.store := by
  simp [settled, h]

theorem settled_issue (s : Config Client Store Write Request Callback Response Id)
    (client : Client) (id : Id)
    (commands : List (Command Write Request Callback)) :
    R.settled (s.issue client id commands) =
      R.updateAll (R.settled s) (commands.filterMap Command.write?) := by
  simp [settled, Config.issue, Function.comp_def]

variable {P : Protocol Client Op Store Write Request Callback Response Id}
variable [DecidableEq Client] [DecidableEq Id]
variable {s t : Config Client Store Write Request Callback Response Id}

/-- **Delivery in order does not change the settled value.** -/
theorem settled_deliver {W : Write → Prop} (hR : R.Follows P W)
    (hW : ∀ e ∈ s.outstanding, W e.write) (hagree : R.Agrees s) {index : Nat}
    (horder : Protocol.InOrder s (.deliver index : Action Client Op Response Id))
    (hst : P.step s (.deliver index) = some t) : R.settled t = R.settled s := by
  obtain ⟨before, e, after, hout, hlen, rfl⟩ := P.step_deliver hst
  have hother := horder.before hout hlen
  have hmem : e ∈ s.outstanding := mem_of_split hout
  have hread : R.read (P.apply e.write s.store) = R.update (R.read s.store) e.write :=
    hR e.write (hW e hmem) s.store
  simp only [settled, hout, hread, List.map_append, List.map_cons, updateAll_append,
    updateAll_cons]
  cases hx : R.target e.write with
  | none => simp only [update_of_none R hx]
  | some x =>
    -- the earlier writes belong to other clients, so they agree with this one
    have hbefore : ∀ w ∈ before.map Issue.write, ∀ y ∈ R.target w, y = x := by
      intro w hw y hy
      obtain ⟨e', he', rfl⟩ := List.mem_map.mp hw
      have he'mem : e' ∈ s.outstanding := by rw [hout]; simp [he']
      exact hagree e' he'mem e hmem (hother e' he') y hy x (by simp [hx])
    simp only [update_of_some R hx, updateAll_of_agree R hbefore]

theorem Agrees.deliver (hagree : R.Agrees s) {index : Nat}
    (hst : P.step s (.deliver index) = some t) : R.Agrees t := by
  obtain ⟨before, e, after, hout, -, rfl⟩ := P.step_deliver hst
  have hsub : ∀ e' ∈ before ++ after, e' ∈ s.outstanding := fun _ hmem => rest_of_split hout hmem
  exact fun e₁ h₁ e₂ h₂ => hagree e₁ (hsub e₁ h₁) e₂ (hsub e₂ h₂)

omit [DecidableEq Client] [DecidableEq Id] in
/-- Issuing keeps agreement when the new writes agree with what other clients
    have outstanding. -/
theorem Agrees.issue (hagree : R.Agrees s) {client : Client}
    {commands : List (Command Write Request Callback)}
    (hnew : ∀ w, Command.write w ∈ commands → ∀ e ∈ s.outstanding, e.client ≠ client →
      ∀ x ∈ R.target w, ∀ y ∈ R.target e.write, x = y)
    (id : Id) :
    R.Agrees (s.issue client id commands) := by
  intro e he e' he' hne x hx y hy
  rcases List.mem_append.mp he with hold | hfresh
  · rcases List.mem_append.mp he' with hold' | hfresh'
    · exact hagree e hold e' hold' hne x hx y hy
    · obtain ⟨w, hw, rfl⟩ := List.mem_map.mp hfresh'
      exact (hnew w (Protocol.mem_writes.mp hw) e hold hne y hy x hx).symm
  · obtain ⟨w, hw, rfl⟩ := List.mem_map.mp hfresh
    rcases List.mem_append.mp he' with hold' | hfresh'
    · exact hnew w (Protocol.mem_writes.mp hw) e' hold' (Ne.symm hne) x hx y hy
    · obtain ⟨w', -, rfl⟩ := List.mem_map.mp hfresh'
      exact (hne rfl).elim

/-! ### Steps -/

/-- What an action writes by starting an operation. -/
def startWrites (P : Protocol Client Op Store Write Request Callback Response Id) :
    Action Client Op Response Id → List Write
  | .start client op id => (P.begin client op id).filterMap Command.write?
  | _ => []

/-- Callbacks do not touch the register, and serving a call does not change it. -/
structure Unaffected (P : Protocol Client Op Store Write Request Callback Response Id) :
    Prop where
  resume : ∀ client callback response id w,
    Command.write w ∈ P.resume client callback response id → R.target w = none
  effect : ∀ client request response st, R.read (P.effect client request response st) = R.read st

/-- **Only starting an operation changes the settled value.** -/
theorem settled_step {W : Write → Prop} (hR : R.Follows P W)
    (hW : ∀ e ∈ s.outstanding, W e.write) (hagree : R.Agrees s) (hun : R.Unaffected P)
    {a : Action Client Op Response Id} (horder : Protocol.InOrder s a)
    (hst : P.step s a = some t) :
    R.settled t = R.updateAll (R.settled s) (startWrites P a) := by
  cases a with
  | start client op id =>
    obtain ⟨-, -, rfl⟩ := P.step_start hst
    exact R.settled_issue s client id _
  | deliver index => exact R.settled_deliver hR hW hagree horder hst
  | serve index response =>
    obtain ⟨before, c, after, -, -, -, rfl⟩ := P.step_serve hst
    simp only [settled, hun.effect, startWrites, updateAll_nil]
  | resume index id =>
    obtain ⟨before, a, after, -, -, -, -, rfl⟩ := P.step_resume hst
    rw [settled_issue, updateAll_of_none R fun w hw =>
      hun.resume a.client a.callback a.response id w (Protocol.mem_writes.mp hw)]
    rfl
  | observe client =>
    rw [P.step_observe hst]
    rfl

theorem Agrees.step (hagree : R.Agrees s) (hun : R.Unaffected P)
    {a : Action Client Op Response Id}
    (hstart : ∀ client op id, a = .start client op id →
      ∀ w, Command.write w ∈ P.begin client op id → ∀ e ∈ s.outstanding, e.client ≠ client →
        ∀ x ∈ R.target w, ∀ y ∈ R.target e.write, x = y)
    (hst : P.step s a = some t) : R.Agrees t := by
  cases a with
  | start client op id =>
    obtain ⟨-, -, rfl⟩ := P.step_start hst
    exact hagree.issue R (hstart client op id rfl) id
  | deliver index => exact hagree.deliver R hst
  | serve index response =>
    obtain ⟨before, c, after, -, -, -, rfl⟩ := P.step_serve hst
    exact hagree
  | resume index id =>
    obtain ⟨before, a, after, -, -, -, -, rfl⟩ := P.step_resume hst
    have hrest : R.Agrees { s with answers := before ++ after } := hagree
    refine hrest.issue R (fun w hw e _ _ x hx => ?_) id
    rw [hun.resume a.client a.callback a.response id w hw] at hx
    cases hx
  | observe client =>
    rw [P.step_observe hst]
    exact hagree

/-! ### Values a register is bound to end with -/

/-- Every write that gives the register another value than `x` is followed by one of the
    same client that gives it `x`. -/
def Corrected (x : β) : List (Issue Client Write) → Prop
  | [] => True
  | e :: rest =>
      (R.update x e.write = x ∨ ∃ e' ∈ rest, e'.client = e.client ∧ R.target e'.write = some x) ∧
        Corrected x rest

instance [DecidableEq β] (x : β) (es : List (Issue Client Write)) :
    Decidable (R.Corrected x es) := by
  induction es with
  | nil => exact .isTrue trivial
  | cons e rest ih => exact inferInstanceAs (Decidable (_ ∧ _))

/-- Delivered in whatever order, the outstanding writes leave the register at `x`. -/
structure Bound (x : β) (s : Config Client Store Write Request Callback Response Id) : Prop where
  corrected : R.Corrected x s.outstanding
  held : R.read s.store = x ∨ ∃ e ∈ s.outstanding, R.target e.write = some x

instance [DecidableEq β] (x : β) (s : Config Client Store Write Request Callback Response Id) :
    Decidable (R.Bound x s) :=
  decidable_of_iff (R.Corrected x s.outstanding ∧
      (R.read s.store = x ∨ ∃ e ∈ s.outstanding, R.target e.write = some x))
    ⟨fun h => ⟨h.1, h.2⟩, fun h => ⟨h.corrected, h.held⟩⟩

section Bound

variable {R} {x : β} {es es' : List (Issue Client Write)}

omit [DecidableEq Client] in
theorem corrected_of_harmless (h : ∀ e ∈ es, R.update x e.write = x) : R.Corrected x es := by
  induction es with
  | nil => exact trivial
  | cons e rest ih =>
    exact ⟨Or.inl (h e (by simp)), ih fun e' he' => h e' (by simp [he'])⟩

omit [DecidableEq Client] in
theorem Corrected.append (h : R.Corrected x es) (h' : R.Corrected x es') :
    R.Corrected x (es ++ es') := by
  induction es with
  | nil => exact h'
  | cons e rest ih =>
    refine ⟨h.1.imp_right ?_, ih h.2⟩
    rintro ⟨e', he', hsame⟩
    exact ⟨e', List.mem_append_left _ he', hsame⟩

/-- A client that gives the register `x` corrects its own earlier writes. -/
theorem Corrected.append_own {client : Client}
    (h : R.Corrected x (es.filter fun e => decide (e.client ≠ client)))
    (h' : R.Corrected x es')
    (hown : ∃ e' ∈ es', e'.client = client ∧ R.target e'.write = some x) :
    R.Corrected x (es ++ es') := by
  induction es with
  | nil => exact h'
  | cons e rest ih =>
    by_cases hclient : e.client = client
    · rw [List.filter_cons_of_neg (by simpa using hclient)] at h
      obtain ⟨e', he', hsame, htarget⟩ := hown
      exact ⟨Or.inr ⟨e', List.mem_append_right _ he', hsame.trans hclient.symm, htarget⟩, ih h⟩
    · rw [List.filter_cons_of_pos (by simpa using hclient)] at h
      refine ⟨h.1.imp_right ?_, ih h.2⟩
      rintro ⟨e', he', hsame⟩
      exact ⟨e', List.mem_append_left _ (List.filter_sublist.subset he'), hsame⟩

omit [DecidableEq Client] in
/-- Taking out the first write of a client leaves the others corrected. -/
theorem Corrected.deliver {before after : List (Issue Client Write)} {e : Issue Client Write}
    (h : R.Corrected x (before ++ e :: after)) (hfirst : ∀ e' ∈ before, e'.client ≠ e.client) :
    R.Corrected x (before ++ after) := by
  induction before with
  | nil => exact h.2
  | cons e' before ih =>
    refine ⟨h.1.imp_right ?_, ih h.2 fun f hf => hfirst f (by simp [hf])⟩
    rintro ⟨f, hf, hclient, htarget⟩
    refine ⟨f, ?_, hclient, htarget⟩
    rcases List.mem_append.mp hf with hbefore | hafter
    · exact List.mem_append_left _ hbefore
    · rcases List.mem_cons.mp hafter with rfl | hlater
      · exact (hfirst e' (by simp) hclient.symm).elim
      · exact List.mem_append_right _ hlater

omit [DecidableEq Client] in
theorem Corrected.of_append (h : R.Corrected x (es ++ es')) : R.Corrected x es' := by
  induction es with
  | nil => exact h
  | cons e rest ih => exact ih h.2

omit [DecidableEq Client] [DecidableEq Id] in
theorem Bound.of_rest (h : R.Bound x s) (hrest : s.outstanding = []) : R.read s.store = x :=
  h.held.resolve_right (by simp [hrest])

/-- **Delivery in order keeps a register bound.** -/
theorem Bound.deliver {W : Write → Prop} (hR : R.Follows P W)
    (hW : ∀ e ∈ s.outstanding, W e.write) (h : R.Bound x s) {index : Nat}
    (horder : Protocol.InOrder s (.deliver index : Action Client Op Response Id))
    (hst : P.step s (.deliver index) = some t) : R.Bound x t := by
  obtain ⟨before, e, after, hout, hlen, rfl⟩ := P.step_deliver hst
  have hread : R.read (P.apply e.write s.store) = R.update (R.read s.store) e.write :=
    hR e.write (hW e (mem_of_split hout)) s.store
  have hcorrected := h.corrected
  have hheld := h.held
  rw [hout] at hcorrected hheld
  refine ⟨hcorrected.deliver (horder.before hout hlen), ?_⟩
  simp only [hread]
  by_cases hothers : ∃ e' ∈ before ++ after, R.target e'.write = some x
  · exact Or.inr hothers
  · left
    -- nothing else gives the register `x`, so this write does or does not touch it
    cases htarget : R.target e.write with
    | none =>
      rw [update_of_none R htarget]
      refine hheld.resolve_right ?_
      rintro ⟨e', he', hsome⟩
      rcases List.mem_append.mp he' with hbefore | hafter
      · exact hothers ⟨e', List.mem_append_left _ hbefore, hsome⟩
      · rcases List.mem_cons.mp hafter with rfl | hlater
        · cases htarget.symm.trans hsome
        · exact hothers ⟨e', List.mem_append_right _ hlater, hsome⟩
    | some y =>
      have hkeeps : R.update x e.write = x := by
        refine hcorrected.of_append.1.resolve_right ?_
        rintro ⟨e', he', -, hsome⟩
        exact hothers ⟨e', List.mem_append_right _ he', hsome⟩
      rw [update_of_some R htarget] at hkeeps ⊢
      exact hkeeps

omit [DecidableEq Client] [DecidableEq Id] in
/-- Writes that do not give the register another value keep it bound. -/
theorem Bound.issue (h : R.Bound x s) {client : Client}
    {commands : List (Command Write Request Callback)}
    (hharmless : ∀ w, .write w ∈ commands → R.update x w = x) (id : Id) :
    R.Bound x (s.issue client id commands) := by
  refine ⟨h.corrected.append (corrected_of_harmless fun e he => ?_), h.held.imp_right ?_⟩
  · obtain ⟨w, hw, rfl⟩ := List.mem_map.mp he
    exact hharmless w (Protocol.mem_writes.mp hw)
  · rintro ⟨e, he, htarget⟩
    exact ⟨e, List.mem_append_left _ he, htarget⟩

omit [DecidableEq Id] in
/-- A client that gives the register `x`, and no other value, binds it if the writes of the
    others are corrected. -/
theorem bound_issue_own {client : Client} {commands : List (Command Write Request Callback)}
    (h : R.Corrected x (s.outstanding.filter fun e => decide (e.client ≠ client)))
    (hharmless : ∀ w, .write w ∈ commands → R.update x w = x)
    (hown : ∃ w, .write w ∈ commands ∧ R.target w = some x) (id : Id) :
    R.Bound x (s.issue client id commands) := by
  obtain ⟨w, hw, htarget⟩ := hown
  have hmem : (⟨client, w⟩ : Issue Client Write) ∈
      (commands.filterMap Command.write?).map fun w => ⟨client, w⟩ :=
    List.mem_map.mpr ⟨w, Protocol.mem_writes.mpr hw, rfl⟩
  refine ⟨h.append_own (corrected_of_harmless fun e he => ?_) ⟨_, hmem, rfl, htarget⟩,
    Or.inr ⟨_, List.mem_append_right _ hmem, htarget⟩⟩
  obtain ⟨w', hw', rfl⟩ := List.mem_map.mp he
  exact hharmless w' (Protocol.mem_writes.mp hw')

end Bound

end Register

end TeamUp
