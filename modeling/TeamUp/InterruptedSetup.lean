import TeamUp.SetupProfile

/-!
# Interrupted set-ups

The display name and the record of a profile live in two stores, written one after
the other.  The process can stop for good between two steps, and the bio screen
leads back to the screen that sets a name up.  An account with a display name has
its record, and no other record of its own, as long as the process does not stop
between a commit and the arrival of the record, and no commit gives an account
that has a display name another one.
-/

namespace TeamUp

open Protocol

namespace SetupProfile

/-- The process that runs the attempts, and whether it has stopped. -/
structure Process where
  config : State
  stopped : Bool

inductive Happening where
  | act (event : Event)
  | stop

def Process.step : Process → Happening → Option Process
  | ⟨config, false⟩, .act event => (protocol.step config event).map fun after => ⟨after, false⟩
  | ⟨config, false⟩, .stop => some ⟨config, true⟩
  | ⟨_, true⟩, _ => none

instance (s : State) : Decidable s.Quiescent :=
  inferInstanceAs (Decidable (_ ∧ _ ∧ _))

/-- No step is going to run. -/
def Process.Final (p : Process) : Prop := p.stopped = true ∨ p.config.Quiescent

/-- The region picked on the screen is one of the raw values. -/
def Picked (attempt : Attempt) : Prop := (Region.ofRawValue attempt.region).isSome

/-- The attempts are those of one account. -/
def ByAccount (account : Nat) : Happening → Prop
  | .act (.start account' attempt _) => account' = account ∧ Picked attempt
  | _ => True

/-- No commit gives an account that has a display name another one. -/
def KeepsName (s : State) : Event → Prop
  | .serve index (.completion false) =>
      ∀ c ∈ s.calls[index]?, match c.request with
        | .commitChanges username => ∀ d ∈ s.store.displayName c.client, d = username
        | .observeSingleEvent _ => True
  | _ => True

/-- The record of every committed name is stored. -/
def RecordsStored (s : State) : Prop :=
  ∀ claim ∈ late s, s.store.database.has (userRef claim.2) = true

/-- The process stops only while the records of committed names are stored. -/
def Settled (p : Process) : Happening → Prop
  | .act event => KeepsName p.config event
  | .stop => RecordsStored p.config

instance (account : Nat) (h : Happening) : Decidable (ByAccount account h) := by
  unfold ByAccount Picked
  split <;> infer_instance

instance (s : State) (e : Event) : Decidable (KeepsName s e) := by
  unfold KeepsName
  split
  · have (c : Call Nat Request Callback) : Decidable (match c.request with
        | .commitChanges username => ∀ d ∈ s.store.displayName c.client, d = username
        | .observeSingleEvent _ => True) := by
      split <;> infer_instance
    infer_instance
  · infer_instance

instance (p : Process) (h : Happening) : Decidable (Settled p h) := by
  unfold Settled RecordsStored
  split <;> infer_instance

/-- The account's display name has a record that decodes, and the account created no other. -/
structure SetUp (before : Tree) (account : Nat) (server : Server) : Prop where
  stored : ∀ d, server.displayName account = some d →
    server.database.has (userRef d) = true
  decodes : ∀ d, server.displayName account = some d → ∀ snapshot,
    (Query.value (userRef d)).answers server.database snapshot = true →
    ∃ user, fetchedUser snapshot = some user ∧ user.username = d
  single : ∀ d n, server.displayName account = some d →
    server.database.has (userRef n) = true → before.has (userRef n) = false → n = d

/-! ### Records -/

/-- The record under a name is a user's. -/
def HasRecord (database : Tree) (username : String) : Prop :=
  ∃ user : User, user.username = username ∧ user.Stored (database.sub (userRef username))

theorem nodup_profileValues (attempt : Attempt) :
    ((profileValues attempt).map Prod.fst).Nodup := by
  simp [profileValues]

/-- A profile that arrives is recorded. -/
theorem hasRecord_storeProfile {attempt : Attempt} (hpicked : Picked attempt) (database : Tree) :
    HasRecord ((storeProfile attempt).apply database) attempt.username := by
  obtain ⟨region, hregion⟩ := Option.isSome_iff_exists.mp hpicked
  have hfield : ∀ {field value}, (field, Tree.str value) ∈ profileValues attempt →
      (((storeProfile attempt).apply database).sub (userRef attempt.username)).leafAt [field] =
        some (.str value) := by
    intro field value hmem
    rw [PathTree.leafAt_sub]
    exact Write.leafAt_update_named (nodup_profileValues attempt) hmem []
  refine ⟨⟨attempt.username, attempt.profileImageUrl, attempt.mic, "No biography", region, [],
    none, none⟩, rfl, ?_, ?_, ?_, ?_, ?_⟩
  · exact hfield (by simp [profileValues])
  · exact hfield (by simp [profileValues])
  · exact hfield (by simp [profileValues])
  · exact hfield (by simp [profileValues])
  · refine hfield ?_
    rw [Region.rawValue_of_ofRawValue hregion]
    simp [profileValues]

/-- A profile that arrives leaves the records of other names alone. -/
theorem HasRecord.storeProfile {database : Tree} {username : String}
    (h : HasRecord database username) {attempt : Attempt} (hne : username ≠ attempt.username) :
    HasRecord ((storeProfile attempt).apply database) username := by
  obtain ⟨user, husername, hstored⟩ := h
  refine ⟨user, husername, hstored.congr (PathTree.same_of_leafAt fun p => ?_)⟩
  rw [PathTree.leafAt_sub, PathTree.leafAt_sub]
  refine Write.leafAt_apply_beside _ ?_
  simp [Incomparable, Write.ref, SetupProfile.storeProfile, hne, Ne.symm hne]

theorem HasRecord.decodes {database snapshot : Tree} {username : String}
    (h : HasRecord database username)
    (hanswer : (Query.value (userRef username)).answers database snapshot = true) :
    ∃ user, fetchedUser snapshot = some user ∧ user.username = username := by
  obtain ⟨user, rfl, hstored⟩ := h
  have hsnapshot : user.Stored snapshot := hstored.congr (of_decide_eq_true hanswer)
  obtain ⟨user', huser', hstored'⟩ := hsnapshot.decodes
  exact ⟨user', huser', (hsnapshot.fields_eq hstored').1.symm⟩

/-! ### The invariant -/

/-- The names in flight had no record before; a name committed is the display name, until its
    record arrives; and what was created is the record of the display name. -/
structure Steady (before : Tree) (account : Nat) (s : State) : Prop where
  active : Active account s
  issued : Issued (fun _ w => ∃ attempt, Picked attempt ∧ w = storeProfile attempt)
    (fun account request callback =>
      Matches account request callback ∧ Picked callback.attempt) s
  lasting : ∀ n, before.has (userRef n) = true → s.store.database.has (userRef n) = true
  unused : ∀ claim ∈ inFlight s, before.has (userRef claim.2) = false
  fresh : ∀ d, s.store.displayName account = some d → before.has (userRef d) = false
  named : ∀ claim ∈ late s, s.store.displayName account = some claim.2
  arriving : ∀ d, s.store.displayName account = some d →
    s.store.database.has (userRef d) = true ∨ (account, d) ∈ late s
  created : ∀ n, s.store.database.has (userRef n) = true → before.has (userRef n) = false →
    s.store.displayName account = some n ∧ HasRecord s.store.database n

/-- What is in flight is the account's. -/
theorem account_of_inFlight {account : Nat} {s : State} (h : Active account s)
    {claim : Nat × String} (hclaim : claim ∈ inFlight s) : claim.1 = account := by
  simp only [inFlight, early, late, List.mem_append, List.mem_filterMap] at hclaim
  rcases hclaim with (⟨a, ha, hlooked⟩ | ⟨c, hc, hcall⟩) | (⟨a, ha, hcommitted⟩ | ⟨e, he, hwrite⟩)
  · unfold lookedClaim at hlooked
    split at hlooked
    · split at hlooked
      · rw [← Option.some.inj hlooked]
        exact h.answers a ha
      · cases hlooked
    · cases hlooked
  · unfold callClaim at hcall
    split at hcall
    · rw [← Option.some.inj hcall]
      exact h.calls c hc
    · cases hcall
  · unfold committedClaim at hcommitted
    split at hcommitted
    · rw [← Option.some.inj hcommitted]
      exact h.answers a ha
    · cases hcommitted
  · unfold writeClaim at hwrite
    split at hwrite
    · rw [← Option.some.inj hwrite]
      exact h.writes e he
    · cases hwrite

namespace Steady

variable {before : Tree} {account : Nat} {s t : State}

theorem profileWrites (h : Steady before account s) : Issued ProfileWrite Matches s :=
  h.issued.mono (fun _ _ ⟨attempt, _, hw⟩ => ⟨attempt, hw⟩) fun _ _ _ hk => hk.1

/-- A step that keeps the accounts and the records. -/
theorem of_store (h : Steady before account s) (hactive : Active account t)
    (hissued : Issued (fun _ w => ∃ attempt, Picked attempt ∧ w = storeProfile attempt)
      (fun account request callback =>
        Matches account request callback ∧ Picked callback.attempt) t)
    (hstore : t.store = s.store)
    (hunused : ∀ claim ∈ inFlight t, before.has (userRef claim.2) = false)
    (hlate : ∀ claim, claim ∈ late t ↔ claim ∈ late s) : Steady before account t where
  active := hactive
  issued := hissued
  lasting := hstore ▸ h.lasting
  unused := hunused
  fresh := hstore ▸ h.fresh
  named := fun claim hclaim => hstore ▸ h.named claim ((hlate claim).mp hclaim)
  arriving := by
    intro d hd
    rw [hstore] at hd ⊢
    exact (h.arriving d hd).imp_right (hlate _).mpr
  created := hstore ▸ h.created

/-- A name in flight becomes the display name. -/
theorem committed (h : Steady before account s) (hactive : Active account t)
    (hissued : Issued (fun _ w => ∃ attempt, Picked attempt ∧ w = storeProfile attempt)
      (fun account request callback =>
        Matches account request callback ∧ Picked callback.attempt) t)
    {username : String} (hsame : ∀ d, s.store.displayName account = some d → d = username)
    (hmine : (account, username) ∈ inFlight s)
    (hdatabase : t.store.database = s.store.database)
    (hnow : t.store.displayName account = some username)
    (hflight : ∀ claim ∈ inFlight t, claim ∈ inFlight s)
    (hlate : ∀ claim, claim ∈ late t ↔ claim ∈ late s ∨ claim = (account, username)) :
    Steady before account t where
  active := hactive
  issued := hissued
  lasting := hdatabase ▸ h.lasting
  unused := fun claim hclaim => h.unused claim (hflight claim hclaim)
  fresh := by
    intro d hd
    rw [hnow] at hd
    exact Option.some.inj hd ▸ h.unused _ hmine
  named := by
    intro claim hclaim
    rw [hnow]
    rcases (hlate claim).mp hclaim with hold | rfl
    · rw [hsame _ (h.named claim hold)]
    · rfl
  arriving := by
    intro d hd
    rw [hnow] at hd
    refine Or.inr ((hlate _).mpr (Or.inr ?_))
    rw [Option.some.inj hd]
  created := by
    intro n hhas hnew
    rw [hdatabase] at hhas ⊢
    obtain ⟨hdisplay, hrecord⟩ := h.created n hhas hnew
    rw [hnow, hsame n hdisplay]
    exact ⟨rfl, hsame n hdisplay ▸ hrecord⟩

/-- The record of the display name arrives. -/
theorem arrived (h : Steady before account s) (hactive : Active account t)
    (hissued : Issued (fun _ w => ∃ attempt, Picked attempt ∧ w = storeProfile attempt)
      (fun account request callback =>
        Matches account request callback ∧ Picked callback.attempt) t)
    {attempt : Attempt} (hpicked : Picked attempt)
    (hdisplay : s.store.displayName account = some attempt.username)
    (hname : t.store.displayName = s.store.displayName)
    (hdatabase : t.store.database = (storeProfile attempt).apply s.store.database)
    (hflight : ∀ claim ∈ inFlight t, claim ∈ inFlight s)
    (hlate : ∀ claim ∈ late t, claim ∈ late s) : Steady before account t := by
  have hhas : ∀ n, t.store.database.has (userRef n) =
      if n = attempt.username then true else s.store.database.has (userRef n) := by
    intro n
    rw [hdatabase, has_storeProfile]
  refine ⟨hactive, hissued, fun n hbefore => ?_,
    fun claim hclaim => h.unused claim (hflight claim hclaim), hname ▸ h.fresh,
    fun claim hclaim => ?_, fun d hd => ?_, fun n hn hnew => ?_⟩
  · rw [hhas]
    split
    · rfl
    · exact h.lasting n hbefore
  · rw [hname]
    exact h.named claim (hlate claim hclaim)
  · rw [hname, hdisplay] at hd
    rw [hhas, if_pos (Option.some.inj hd).symm]
    exact Or.inl rfl
  · rw [hname, hdatabase]
    by_cases hthis : n = attempt.username
    · rw [hthis]
      exact ⟨hdisplay, hasRecord_storeProfile hpicked s.store.database⟩
    · rw [hhas, if_neg hthis] at hn
      obtain ⟨hold, hrecord⟩ := h.created n hn hnew
      exact ⟨hold, hrecord.storeProfile hthis⟩

/-- **One step** of the account's attempts that keeps a display name. -/
theorem step (h : Steady before account s) {e : Event} (hby : ByAccount account (.act e))
    (hkeeps : KeepsName s e) (hst : protocol.step s e = some t) : Steady before account t := by
  have hactive : Active account t := by
    refine h.active.step (fun account' attempt id he => ?_) hst
    subst he
    exact hby.1
  have hissued := by
    refine issued_step_of h.issued (fun account' attempt id he => ?_) hst
    subst he
    exact hby.2
  cases moved h.profileWrites hst with
  | kept hstore hflight hlate =>
    exact h.of_store hactive hissued hstore
      (fun claim hclaim => h.unused claim (hflight claim hclaim)) hlate
  | @found _ content account' attempt hcall hempty habsent hstore hflight hlate =>
    refine h.of_store hactive hissued hstore (fun claim hclaim => ?_) hlate
    rcases hflight claim hclaim with hold | rfl
    · exact h.unused claim hold
    · refine Bool.eq_false_iff.mpr fun hbefore => ?_
      rw [h.lasting _ hbefore] at habsent
      cases habsent
  | @committed _ account' attempt hcall hmine hdatabase hname hflight hlate =>
    obtain rfl : account' = account := account_of_inFlight h.active hmine
    have hnow : t.store.displayName account' = some attempt.username := by
      rw [hname, Function.update_self]
    exact h.committed hactive hissued (hkeeps _ hcall) hmine hdatabase hnow hflight hlate
  | @arrived _ account' attempt hwrite hname hdatabase hflight hlate hgone =>
    obtain ⟨attempt', hpicked, hsame⟩ := h.issued.writes _ hwrite
    have hclaim : (account', attempt.username) ∈ late s :=
      List.mem_append_right _ (List.mem_filterMap.mpr ⟨_, hwrite, rfl⟩)
    have husername : attempt.username = attempt'.username := by
      simpa [storeProfile, Write.ref] using congrArg Write.ref hsame
    dsimp only at hsame
    rw [hsame] at hdatabase
    exact h.arrived hactive hissued hpicked (husername ▸ h.named _ hclaim) hname hdatabase
      hflight hlate

/-- The display name is set up once the records of committed names are stored. -/
theorem setUp (h : Steady before account s) (hstored : RecordsStored s) :
    SetUp before account s.store where
  stored := fun d hd => (h.arriving d hd).elim id (hstored _)
  decodes := by
    intro d hd snapshot hanswer
    have hhas : s.store.database.has (userRef d) = true :=
      (h.arriving d hd).elim id (hstored _)
    exact (h.created d hhas (h.fresh d hd)).2.decodes hanswer
  single := by
    intro d n hd hhas hnew
    rw [(h.created n hhas hnew).1] at hd
    exact Option.some.inj hd

end Steady

theorem Steady.initial {account : Nat} {s : State} (hrest : s.Quiescent)
    (hname : s.store.displayName account = none) : Steady s.store.database account s := by
  have hflight : inFlight s = [] := by
    obtain ⟨hout, hcalls, hans⟩ := hrest
    simp [inFlight, early, late, hout, hcalls, hans]
  have hlate : late s = [] := (List.append_eq_nil_iff.mp hflight).2
  refine ⟨.of_quiescent hrest, .of_quiescent hrest, fun n hn => hn, fun claim hclaim => ?_,
    fun d hd => ?_, fun claim hclaim => ?_, fun d hd => ?_, fun n hhas hnew => ?_⟩
  · rw [hflight] at hclaim
    cases hclaim
  · rw [hname] at hd
    cases hd
  · rw [hlate] at hclaim
    cases hclaim
  · rw [hname] at hd
    cases hd
  · rw [hhas] at hnew
    cases hnew

/-- A step of the process, and a stop while every committed name has its record. -/
theorem Process.steady_step {before : Tree} {account : Nat} {p q : Process} {h : Happening}
    (hsteady : Steady before account p.config) (hby : ByAccount account h)
    (hsettled : Settled p h) (hst : p.step h = some q) :
    Steady before account q.config ∧ (q.stopped = true → RecordsStored q.config) := by
  obtain ⟨config, stopped⟩ := p
  cases stopped with
  | true => cases hst
  | false =>
    cases h with
    | act event =>
      obtain ⟨after, hafter, rfl⟩ := Option.map_eq_some_iff.mp hst
      exact ⟨hsteady.step hby hsettled hafter, fun hstopped => (by cases hstopped)⟩
    | stop =>
      cases hst
      exact ⟨hsteady, fun _ => hsettled⟩

/-- **An account with a display name has its record and no other of its own** in every state
    in which no step is going to run any more, if no commit changes a display name and the
    process stops only while the records of committed names are stored. -/
theorem displayName_setUp {account : Nat} {s : State} {happenings : List Happening}
    {p : Process} (hrest : s.Quiescent) (hname : s.store.displayName account = none)
    (run : Run Process.step (fun p h => ByAccount account h ∧ Settled p h) ⟨s, false⟩
      happenings p)
    (hfinal : p.Final) : SetUp s.store.database account p.config.store := by
  obtain ⟨hsteady, hstopped⟩ := run.invariant
    (fun p => Steady s.store.database account p.config ∧
      (p.stopped = true → RecordsStored p.config))
    (fun p h q hp hok hst => Process.steady_step hp.1 hok.1 hok.2 hst)
    ⟨.initial hrest hname, fun hstopped => (by cases hstopped)⟩
  refine hsteady.setUp (hfinal.elim hstopped ?_)
  rintro ⟨hout, hcalls, hans⟩ claim hclaim
  rw [late, hout, hans] at hclaim
  cases hclaim

/-- One attempt, which the process outlives. -/
def oneAttempt : List Happening :=
  [.act (.start 0 gamer 1), .act (.serve 0 (.snapshot .empty)), .act (.resume 0 2),
    .act (.serve 0 (.completion false)), .act (.resume 0 3), .act (.deliver 0), .stop]

theorem displayName_setUp_oneAttempt :
    ∃ p, exec Process.step (fun p h => decide (ByAccount 0 h ∧ Settled p h))
        ⟨unregistered, false⟩ oneAttempt = some p ∧
      p.config.store.displayName 0 = some "gamer1" ∧
      SetUp .empty 0 p.config.store := by
  have hend : (exec Process.step (fun p h => decide (ByAccount 0 h ∧ Settled p h))
      ⟨unregistered, false⟩ oneAttempt).map
        (fun p => (p.config.store.displayName 0, p.stopped)) = some (some "gamer1", true) := by
    decide +kernel
  obtain ⟨p, hp, hpair⟩ := Option.map_eq_some_iff.mp hend
  obtain ⟨hname, hstopped⟩ := Prod.mk.inj hpair
  have run := run_of_exec (fun _ _ h => of_decide_eq_true h) hp
  exact ⟨p, hp, hname, displayName_setUp ⟨rfl, rfl, rfl⟩ rfl run (Or.inl hstopped)⟩

/-- The account goes back from the bio screen and sets up another name. -/
def secondThoughts : List Happening :=
  oneAttempt.dropLast ++
    [.act (.start 0 { gamer with username := "gamer2" } 4), .act (.serve 0 (.snapshot .empty)),
      .act (.resume 0 5), .act (.serve 0 (.completion false)), .act (.resume 0 6),
      .act (.deliver 0)]

theorem not_always_set_up :
    ¬ ∀ (account : Nat) (s : State) (happenings : List Happening) (p : Process),
      s.Quiescent → s.store.displayName account = none →
      Run Process.step (fun _ h => ByAccount account h) ⟨s, false⟩ happenings p → p.Final →
      SetUp s.store.database account p.config.store := by
  intro hall
  have hend : (exec Process.step (fun _ h => decide (ByAccount 0 h)) ⟨unregistered, false⟩
      secondThoughts).map (fun p => (decide p.config.Quiescent, p.config.store.displayName 0,
        p.config.store.database.has (userRef "gamer1"))) =
      some (true, some "gamer2", true) := by
    decide +kernel
  obtain ⟨p, hp, hfacts⟩ := Option.map_eq_some_iff.mp hend
  simp only [Prod.mk.injEq, decide_eq_true_eq] at hfacts
  obtain ⟨hquiet, hname, hhas⟩ := hfacts
  have run : Run Process.step (fun _ h => ByAccount 0 h) ⟨unregistered, false⟩ secondThoughts p :=
    run_of_exec (fun _ _ h => of_decide_eq_true h) hp
  have hsetUp := hall 0 unregistered secondThoughts p ⟨rfl, rfl, rfl⟩ rfl run (Or.inr hquiet)
  have hsame := hsetUp.single "gamer2" "gamer1" hname hhas rfl
  simp at hsame

/-- A process that stops right after the commit leaves a display name without a record. -/
example : (exec Process.step (fun _ _ => true) ⟨unregistered, false⟩
    (oneAttempt.take 4 ++ [.stop])).map (fun p => (p.stopped, p.config.store.displayName 0,
      p.config.store.database.has (userRef "gamer1"))) = some (true, some "gamer1", false) := by
  decide +kernel

end SetupProfile

end TeamUp
