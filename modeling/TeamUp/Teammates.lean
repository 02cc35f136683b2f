import TeamUp.Writes

/-!
# The teammate relation

A friendship is stored twice, once with each of the two users, and every
operation that changes it writes both sides, one after the other and without a
transaction.  Each side is a register; their settled values stay equal as long
as opposite operations on one pair of users do not overlap.
-/

namespace TeamUp

open Protocol

variable {client : Session} {w : Write} {catalogue : List Game}

/-! ### One entry -/

/-- Whether `b` is among the teammates of `a`. -/
def teammate (a b : String) : Register Tree Write Bool := presence (teammatesRef a ++ [b])

theorem teammate_target_add (a b x y : String) :
    (teammate a b).target (addTeammate x y) = if x = a ∧ y = b then some true else none := by
  have hsymm : a = x ∧ b = y ↔ x = a ∧ y = b := by rw [eq_comm (a := a), eq_comm (a := b)]
  by_cases h : x = a ∧ y = b <;>
    simp [teammate, presence, addTeammate, Write.puts, presencePut, Tree.int, hsymm, h]

theorem teammate_target_drop (a b x y : String) :
    (teammate a b).target (dropTeammate x y) = if x = a ∧ y = b then some false else none := by
  by_cases h : x = a ∧ y = b <;>
    simp [teammate, presence, dropTeammate, Write.puts, presencePut, h]

theorem CallbackWrite.teammate_beside (h : CallbackWrite w) (a b : String) :
    w.Beside (teammatesRef a ++ [b]) := by
  apply Write.beside_of_ref
  cases h <;> simp [Incomparable, Write.ref, TeamUp.addRequest]

/-- A write of the app adds a teammate, drops one, or lies beside all teammates. -/
theorem AppWrite.teammate_cases (h : AppWrite client w) :
    (∃ x y, w = TeamUp.addTeammate x y) ∨ (∃ x y, w = TeamUp.dropTeammate x y) ∨
      ∀ a b, w.Beside (teammatesRef a ++ [b]) := by
  cases h with
  | addTeammate x y => exact Or.inl ⟨x, y, rfl⟩
  | dropTeammate x y => exact Or.inr (Or.inl ⟨x, y, rfl⟩)
  | storeField u value hfield =>
    refine Or.inr (Or.inr fun a b e he => ?_)
    rw [List.mem_singleton.mp he]
    simp only [profileFields, List.mem_cons, List.not_mem_nil, or_false] at hfield
    rcases hfield with rfl | rfl | rfl | rfl | rfl | rfl <;> simp [Incomparable]
  | callback hw => exact Or.inr (Or.inr hw.teammate_beside)
  | dropRequest | storeMessage | storeRead | dropChat | dropPlaying =>
    refine Or.inr (Or.inr fun a b => Write.beside_of_ref ?_)
    simp [Incomparable, Write.ref, TeamUp.dropRequest, TeamUp.storeMessage, TeamUp.storeRead,
      TeamUp.dropChat, TeamUp.dropPlaying]

/-- A write of the app that touches an entry adds or drops exactly it. -/
theorem AppWrite.teammate_target (h : AppWrite client w) {a b : String} {x : Bool}
    (hx : x ∈ (teammate a b).target w) :
    (w = TeamUp.addTeammate a b ∧ x = true) ∨ (w = TeamUp.dropTeammate a b ∧ x = false) := by
  rcases h.teammate_cases with ⟨u, v, rfl⟩ | ⟨u, v, rfl⟩ | hbeside
  · rw [teammate_target_add] at hx
    split at hx
    · rename_i huv
      exact Or.inl ⟨by rw [huv.1, huv.2], (Option.some.inj hx).symm⟩
    · cases hx
  · rw [teammate_target_drop] at hx
    split at hx
    · rename_i huv
      exact Or.inr ⟨by rw [huv.1, huv.2], (Option.some.inj hx).symm⟩
    · cases hx
  · rw [teammate, presence_target_beside (hbeside a b)] at hx
    cases hx

theorem AppWrite.teammate_keepsBelow (h : AppWrite client w) (a b : String) :
    w.KeepsBelow (teammatesRef a ++ [b]) := by
  rcases h.teammate_cases with ⟨x, y, rfl⟩ | ⟨x, y, rfl⟩ | hbeside
  · intro e he _
    rw [List.mem_singleton.mp he]
    exact Or.inr rfl
  · intro e he hpre
    rw [List.mem_singleton.mp he] at hpre ⊢
    exact Or.inl (hpre.eq_of_length (by simp)).symm
  · exact (hbeside a b).keepsBelow

theorem teammate_follows (a b : String) :
    (teammate a b).Follows (app catalogue) (Write.KeepsBelow (teammatesRef a ++ [b])) :=
  presence_follows rfl _

/-! ### What operations do to an entry -/

/-- The same two users, in either order. -/
def SamePair (x y a b : String) : Prop := (x = a ∧ y = b) ∨ (y = a ∧ x = b)

instance (x y a b : String) : Decidable (SamePair x y a b) :=
  inferInstanceAs (Decidable ((x = a ∧ y = b) ∨ (y = a ∧ x = b)))

theorem SamePair.swap {x y a b : String} : SamePair x y a b ↔ SamePair x y b a := by
  unfold SamePair
  tauto

/-- A teammate entry once an operation and all its writes have run. -/
def teammateAfter (a b : String) (client : Session) (v : Bool) : Op → Bool
  | .acceptTeammateRequest r => if SamePair client.user r.username a b then true else v
  | .removeTeammate t => if SamePair client.user t.username a b then false else v
  | _ => v

theorem op_of_addTeammate {op : Op} {id x y : String}
    (hw : addTeammate x y ∈ opWrites client op id) :
    ∃ r, op = .acceptTeammateRequest r ∧ SamePair client.user r.username x y := by
  cases op with
  | acceptTeammateRequest r =>
    refine ⟨r, rfl, ?_⟩
    simp only [opWrites, addTeammate, dropRequest, List.mem_cons, Write.updateChildValues.injEq,
      reduceCtorEq, List.cons.injEq, Prod.mk.injEq, and_true, true_and, List.not_mem_nil,
      or_false] at hw
    exact hw.imp (fun h => ⟨h.1.symm, h.2.symm⟩) fun h => ⟨h.1.symm, h.2.symm⟩
  | markDirectChatMessagesAsRead chat =>
    simp only [opWrites] at hw
    split at hw <;> simp [addTeammate, storeRead] at hw
  | _ =>
    simp [opWrites, addTeammate, dropTeammate, dropRequest, dropChat, storeMessage, storeField,
      dropPlaying] at hw

theorem op_of_dropTeammate {op : Op} {id x y : String}
    (hw : dropTeammate x y ∈ opWrites client op id) :
    ∃ t, op = .removeTeammate t ∧ SamePair client.user t.username x y := by
  cases op with
  | removeTeammate t =>
    refine ⟨t, rfl, ?_⟩
    simp only [opWrites, dropTeammate, dropChat, List.mem_cons, Write.removeValue.injEq,
      List.cons_append, List.nil_append, List.cons.injEq, and_true, true_and,
      List.not_mem_nil, or_false] at hw
    rcases hw with h | h | h | h
    · exact Or.inl ⟨h.1.symm, h.2.symm⟩
    · exact Or.inr ⟨h.1.symm, h.2.symm⟩
    · simp at h
    · simp at h
  | markDirectChatMessagesAsRead chat =>
    simp only [opWrites] at hw
    split at hw <;> simp [dropTeammate, storeRead] at hw
  | _ =>
    simp [opWrites, addTeammate, dropTeammate, dropRequest, dropChat, storeMessage, storeField,
      dropPlaying] at hw

/-- An outstanding write that touches an entry gives it the value of the
    operation it belongs to. -/
theorem teammate_target_of_mem {op : Op} {id a b : String} {x : Bool}
    (hw : w ∈ opWrites client op id) (hx : x ∈ (teammate a b).target w) (v : Bool) :
    x = teammateAfter a b client v op := by
  rcases (appWrite_of_mem hw).teammate_target hx with ⟨rfl, rfl⟩ | ⟨rfl, rfl⟩
  · obtain ⟨r, rfl, hpair⟩ := op_of_addTeammate hw
    simp only [teammateAfter, if_pos hpair]
  · obtain ⟨t, rfl, hpair⟩ := op_of_dropTeammate hw
    simp only [teammateAfter, if_pos hpair]

/-- **What starting an operation makes of an entry.** -/
theorem teammate_updateAll (op : Op) (id a b : String) (v : Bool) :
    (teammate a b).updateAll v (opWrites client op id) = teammateAfter a b client v op := by
  refine Register.updateAll_eq _ (fun w hw x hx => teammate_target_of_mem hw hx v) ?_
  intro hnone
  cases op with
  | acceptTeammateRequest r =>
    refine if_neg fun hpair => ?_
    rcases hpair with ⟨rfl, rfl⟩ | ⟨rfl, rfl⟩
    · have htouched := hnone (addTeammate client.user r.username) (by simp [opWrites])
      simp [teammate_target_add] at htouched
    · have htouched := hnone (addTeammate r.username client.user) (by simp [opWrites])
      simp [teammate_target_add] at htouched
  | removeTeammate t =>
    refine if_neg fun hpair => ?_
    rcases hpair with ⟨rfl, rfl⟩ | ⟨rfl, rfl⟩
    · have htouched := hnone (dropTeammate client.user t.username) (by simp [opWrites])
      simp [teammate_target_drop] at htouched
    · have htouched := hnone (dropTeammate t.username client.user) (by simp [opWrites])
      simp [teammate_target_drop] at htouched
  | _ => rfl

/-! ### Runs -/

/-- The opposite operation of another session on the same two users is not on
    its way when a request is accepted or a teammate removed. -/
def Undisturbed (s : State) : Event → Prop
  | .start client (.acceptTeammateRequest r) _ =>
      ∀ e ∈ s.outstanding, e.client ≠ client →
        e.write ≠ dropTeammate client.user r.username ∧
          e.write ≠ dropTeammate r.username client.user
  | .start client (.removeTeammate t) _ =>
      ∀ e ∈ s.outstanding, e.client ≠ client →
        e.write ≠ addTeammate client.user t.username ∧
          e.write ≠ addTeammate t.username client.user
  | _ => True

instance (s : State) (e : Event) : Decidable (Undisturbed s e) := by
  unfold Undisturbed
  split <;> infer_instance

/-- Every friendship is stored with both users. -/
def Symmetric (db : Tree) : Prop :=
  ∀ a b, db.has (teammatesRef a ++ [b]) = db.has (teammatesRef b ++ [a])

/-- Requesting, accepting, declining and removing, where a request is answered
    and a teammate removed from a list the session was shown at some time. -/
def teammateOps (s : State) : Event → Bool
  | .start _ (.requestPlayerToTeamUp _) _ => true
  | .start client (.acceptTeammateRequest r) _ =>
      s.shown client (teammateRequestsRef client.user) r.username
  | .start client (.declineTeammateRequest r) _ =>
      s.shown client (teammateRequestsRef client.user) r.username
  | .start client (.removeTeammate t) _ => s.shown client (teammatesRef client.user) t.username
  | .start _ _ _ => false
  | _ => true

/-- The settled entries of every two users agree. -/
structure TeammatesSettled (s : State) : Prop where
  issued : Issued AppWrite (fun _ _ _ => True) s
  agrees : ∀ a b, (teammate a b).Agrees s
  symmetric : ∀ a b, (teammate a b).settled s = (teammate b a).settled s

/-- New writes agree with what other sessions have outstanding. -/
theorem Undisturbed.agrees {s : State} {op : Op} {id : String}
    (hissued : Issued AppWrite (fun _ _ _ => True) s)
    (h : Undisturbed s (.start client op id)) (a b : String) :
    ∀ w, .write w ∈ begin client op id → ∀ e ∈ s.outstanding, e.client ≠ client →
      ∀ x ∈ (teammate a b).target w, ∀ y ∈ (teammate a b).target e.write, x = y := by
  intro w hw e he hne x hx y hy
  have hmem : w ∈ opWrites client op id := writes_begin client op id ▸ mem_writes.mpr hw
  rcases (appWrite_of_mem hmem).teammate_target hx with ⟨rfl, rfl⟩ | ⟨rfl, rfl⟩ <;>
    rcases (hissued.writes e he).teammate_target hy with ⟨heq, rfl⟩ | ⟨heq, rfl⟩
  · rfl
  · obtain ⟨r, rfl, hpair⟩ := op_of_addTeammate hmem
    obtain ⟨h₁, h₂⟩ := h e he hne
    rcases hpair with ⟨rfl, rfl⟩ | ⟨rfl, rfl⟩
    · exact (h₁ heq).elim
    · exact (h₂ heq).elim
  · obtain ⟨t, rfl, hpair⟩ := op_of_dropTeammate hmem
    obtain ⟨h₁, h₂⟩ := h e he hne
    rcases hpair with ⟨rfl, rfl⟩ | ⟨rfl, rfl⟩
    · exact (h₁ heq).elim
    · exact (h₂ heq).elim
  · rfl

theorem teammate_unaffected (a b : String) : (teammate a b).Unaffected (app catalogue) where
  resume := fun _ _ _ _ _ hw =>
    presence_target_beside ((callbackWrite_of_mem hw).teammate_beside a b)
  effect := fun _ _ _ _ => rfl

theorem TeammatesSettled.of_quiescent {s : State} (hs : s.Quiescent)
    (hsymm : Symmetric s.store) : TeammatesSettled s where
  issued := .of_quiescent hs
  agrees := fun a b => by simp [Register.Agrees, hs.1]
  symmetric := fun a b => by
    rw [Register.settled_of_none_outstanding _ hs.1, Register.settled_of_none_outstanding _ hs.1]
    exact hsymm a b

/-- **The settled teammate relation stays symmetric** in every undisturbed step. -/
theorem TeammatesSettled.step {s t : State} {e : Event} (h : TeammatesSettled s)
    (horder : InOrder s e) (hundisturbed : Undisturbed s e)
    (hst : (app catalogue).step s e = some t) : TeammatesSettled t := by
  have hsettled : ∀ a b, (teammate a b).settled t =
      (teammate a b).updateAll ((teammate a b).settled s)
        (Register.startWrites (app catalogue) e) :=
    fun a b => Register.settled_step _ (teammate_follows a b)
      (fun e he => (h.issued.writes e he).teammate_keepsBelow a b) (h.agrees a b)
      (teammate_unaffected a b) horder hst
  refine ⟨appWrite_step h.issued hst, fun a b => ?_, fun a b => ?_⟩
  · refine (h.agrees a b).step _ (teammate_unaffected a b) (fun client op id he => ?_) hst
    subst he
    exact hundisturbed.agrees h.issued a b
  · rw [hsettled a b, hsettled b a]
    cases e with
    | start client op id =>
      have hwrites : Register.startWrites (app catalogue) (.start client op id) =
        opWrites client op id := writes_begin client op id
      rw [hwrites, teammate_updateAll, teammate_updateAll, h.symmetric a b]
      cases op with
      | acceptTeammateRequest r => simp only [teammateAfter, SamePair.swap (a := a)]
      | removeTeammate t => simp only [teammateAfter, SamePair.swap (a := a)]
      | _ => rfl
    | _ => exact h.symmetric a b

theorem TeammatesSettled.symmetric_of_rest {s : State} (h : TeammatesSettled s)
    (hrest : s.outstanding = []) : Symmetric s.store := by
  intro a b
  have hab := h.symmetric a b
  rwa [Register.settled_of_none_outstanding _ hrest,
    Register.settled_of_none_outstanding _ hrest] at hab

/-- **The teammate relation is symmetric whenever nothing is outstanding**, in
    every run in which opposite operations on one pair of users do not overlap. -/
theorem teammates_symmetric {db : Tree} {ids : List String} {events : List Event} {t : State}
    (hdb : Symmetric db)
    (run : (app catalogue).Run
      (fun s e => teammateOps s e = true ∧ InOrder s e ∧ Undisturbed s e)
      (State.initial db ids) events t)
    (hrest : t.outstanding = []) : Symmetric t.store := by
  have hsettled : TeammatesSettled t := by
    refine run.invariant TeammatesSettled ?_ (.of_quiescent ⟨rfl, rfl, rfl⟩ hdb)
    exact fun u e v hu hok hst => hu.step hok.2.1 hok.2.2 hst
  exact hsettled.symmetric_of_rest hrest

/-- A request of alice that bob has not answered yet. -/
def requested : Tree :=
  PathTree.empty.put (teammateRequestsRef "bobbob" ++ ["alice1"]) (Tree.int 1)

theorem symmetric_requested : Symmetric requested := by
  intro a b
  have hbeside : ∀ a b, Incomparable (teammateRequestsRef "bobbob" ++ ["alice1"])
      (teammatesRef a ++ [b]) := by simp [Incomparable]
  rw [requested, PathTree.has_put_beside _ _ (hbeside a b),
    PathTree.has_put_beside _ _ (hbeside b a)]
  rfl

/-- Bob accepts and everything is delivered. -/
def acceptance : List Event :=
  [.observe ⟨"bobbob", 1⟩, .start ⟨"bobbob", 1⟩ (.acceptTeammateRequest (somebody "alice1")) "-1",
    .deliver 0, .deliver 0, .deliver 0, .deliver 0]

theorem teammates_symmetric_acceptance :
    ∃ t, (app []).exec (fun s e => decide (teammateOps s e = true ∧ InOrder s e ∧ Undisturbed s e))
      (State.initial requested []) acceptance = some t ∧ Symmetric t.store := by
  have hrest : ((app []).exec
      (fun s e => decide (teammateOps s e = true ∧ InOrder s e ∧ Undisturbed s e))
      (State.initial requested []) acceptance).map Config.outstanding = some [] := by
    decide +kernel
  obtain ⟨t, ht, hout⟩ := Option.map_eq_some_iff.mp hrest
  have run := run_of_exec (fun s e h => of_decide_eq_true h) ht
  exact ⟨t, ht, teammates_symmetric symmetric_requested run hout⟩

/-- Bob has accepted on one device when alice removes him again, while his other
    device still shows the request and accepts it once more: alice's first
    write, bob's first, alice's second, bob's second. -/
def crossing : List Event :=
  acceptance.take 1 ++ [.observe ⟨"bobbob", 2⟩] ++ acceptance.drop 1 ++
  [.observe ⟨"alice1", 1⟩,
    .start ⟨"alice1", 1⟩ (.removeTeammate (somebody "bobbob")) "-2",
    .start ⟨"bobbob", 2⟩ (.acceptTeammateRequest (somebody "alice1")) "-3",
    .deliver 0, .deliver 3, .deliver 0, .deliver 2,
    .deliver 0, .deliver 0, .deliver 0, .deliver 0]

theorem not_always_symmetric :
    ¬ ∀ (db : Tree) (ids : List String) (events : List Event) (t : State), Symmetric db →
      (app []).Run (fun s e => teammateOps s e = true ∧ InOrder s e)
        (State.initial db ids) events t →
      t.outstanding = [] → Symmetric t.store := by
  intro hall
  have hend : ((app []).exec (fun s e => decide (teammateOps s e = true ∧ InOrder s e))
      (State.initial requested []) crossing).map (fun t => (t.outstanding,
        t.store.has (teammatesRef "alice1" ++ ["bobbob"]),
        t.store.has (teammatesRef "bobbob" ++ ["alice1"]))) = some ([], true, false) := by
    decide +kernel
  obtain ⟨t, ht, hout⟩ := Option.map_eq_some_iff.mp hend
  obtain ⟨hrest, halice, hbob⟩ : t.outstanding = [] ∧ _ = true ∧ _ = false := by
    simpa only [Prod.mk.injEq] using hout
  have run := run_of_exec (fun s e h => of_decide_eq_true h) ht
  have hsymm := hall requested [] crossing t symmetric_requested run hrest "alice1" "bobbob"
  rw [halice, hbob] at hsymm
  cases hsymm

end TeamUp
