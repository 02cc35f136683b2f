import Mathlib.Data.List.Induction
import TeamUp.Atomicity

/-!
# Registers that one client writes

If only one client gives a register values, and its writes arrive in their order, then the
store goes through these values one by one.  The client itself sees the last one at once,
with its outstanding writes on top of the store.  Every other client sees one of them, and
never an earlier one than it has seen before.
-/

namespace TeamUp

namespace Register

variable {Client Op Store Write Request Callback Response Id β : Type}
variable {P : Protocol Client Op Store Write Request Callback Response Id}
variable (R : Register Store Write β) {W : Write → Prop}
variable {s t : Config Client Store Write Request Callback Response Id}
variable {v : β} {values new : List β} {n : Nat} {writer client : Client} {writes : List Write}

/-- The value after the first `n` of the values given, `v` being the one before them. -/
def valueAt (v : β) (values : List β) (n : Nat) : β := (values.take n).getLast?.getD v

theorem valueAt_append (h : n ≤ values.length) :
    valueAt v (values ++ new) n = valueAt v values n := by
  rw [valueAt, List.take_append_of_le_length h, valueAt]

theorem updateAll_eq_last (v : β) (writes : List Write) :
    R.updateAll v writes = (writes.filterMap R.target).getLast?.getD v := by
  induction writes using List.reverseRecOn with
  | nil => rfl
  | append_singleton ws w ih =>
    rw [updateAll_append, ih, updateAll_cons, updateAll_nil, update, List.filterMap_append]
    cases hw : R.target w with
    | none => simp [hw]
    | some x => simp [hw]

/-- What comes after the first values given makes the last one of them. -/
theorem updateAll_valueAt (h : values.drop n = writes.filterMap R.target) :
    R.updateAll (valueAt v values n) writes = valueAt v values values.length := by
  have hlast : (values.take n ++ values.drop n).getLast?.getD v =
      (values.drop n).getLast?.getD ((values.take n).getLast?.getD v) := by
    rw [List.getLast?_append]
    cases (values.drop n).getLast? <;> rfl
  rw [List.take_append_drop] at hlast
  rw [updateAll_eq_last, ← h, valueAt, valueAt, List.take_length, hlast]

theorem read_applyAll (hR : R.Follows P W) (hW : ∀ w ∈ writes, W w) (st : Store) :
    R.read (P.applyAll writes st) = R.updateAll (R.read st) writes := by
  induction writes generalizing st with
  | nil => rfl
  | cons w ws ih =>
    have hrest := ih (fun w' hw' => hW w' (by simp [hw'])) (P.apply w st)
    rw [hR w (hW w (by simp)) st] at hrest
    exact hrest

/-- Only the writer has writes outstanding that touch the register; the store holds one of the
    values given, and the later ones are outstanding. -/
structure Written (writer : Client) (v : β) (values : List β) (n : Nat)
    (s : Config Client Store Write Request Callback Response Id) : Prop where
  own : ∀ e ∈ s.outstanding, e.client ≠ writer → R.target e.write = none
  arrived : n ≤ values.length
  outstanding : values.drop n = (s.outstanding.map Issue.write).filterMap R.target
  read : R.read s.store = valueAt v values n

variable {R}

theorem Written.of_rest (hrest : s.outstanding = []) (writer : Client) :
    R.Written writer (R.read s.store) [] 0 s where
  own := by simp [hrest]
  arrived := Nat.le_refl _
  outstanding := by simp [hrest]
  read := rfl

/-- Commands of which only the writer's touch the register. -/
theorem Written.issue (h : R.Written writer v values n s)
    {commands : List (Command Write Request Callback)}
    (hown : client ≠ writer → ∀ w ∈ commands.filterMap Command.write?, R.target w = none)
    (id : Id) :
    R.Written writer v
      (values ++ (commands.filterMap Command.write?).filterMap R.target) n
      (s.issue client id commands) where
  own := fun e he hne => by
    rcases List.mem_append.mp he with hold | hnew
    · exact h.own e hold hne
    · obtain ⟨w, hw, rfl⟩ := List.mem_map.mp hnew
      exact hown hne w hw
  arrived := Nat.le_trans h.arrived (by simp)
  outstanding := by
    rw [List.drop_append_of_le_length h.arrived, h.outstanding, Config.writes_issue,
      List.filterMap_append]
  read := h.read.trans (valueAt_append h.arrived).symm

variable [DecidableEq Client]

/-- **The next value arrives**, or a write that does not touch the register. -/
theorem Written.deliver (h : R.Written writer v values n s) (hR : R.Follows P W)
    (hW : ∀ e ∈ s.outstanding, W e.write) [DecidableEq Id] {index : Nat}
    (horder : Protocol.InOrder s (.deliver index : Action Client Op Response Id))
    (hst : P.step s (.deliver index) = some t) :
    ∃ n', n ≤ n' ∧ R.Written writer v values n' t := by
  obtain ⟨before, e, after, hout, hlen, rfl⟩ := P.step_deliver hst
  have hmem : e ∈ s.outstanding := mem_of_split hout
  have hread : R.read (P.apply e.write s.store) = R.update (R.read s.store) e.write :=
    hR e.write (hW e hmem) s.store
  have hown : ∀ e' ∈ before ++ after, e'.client ≠ writer → R.target e'.write = none :=
    fun e' he' => h.own e' (rest_of_split hout he')
  have hrest := h.outstanding
  rw [hout, List.map_append, List.map_cons, List.filterMap_append, List.filterMap_cons] at hrest
  cases hx : R.target e.write with
  | none =>
    refine ⟨n, Nat.le_refl n, hown, h.arrived, ?_, ?_⟩
    · rw [hrest, hx, List.map_append, List.filterMap_append]
    · rw [hread, update_of_none R hx]
      exact h.read
  | some x =>
    -- the write is the writer's, so none before it touches the register
    have hwriter : e.client = writer := by
      by_contra hne
      cases (h.own e hmem hne).symm.trans hx
    have hbefore : (before.map Issue.write).filterMap R.target = [] := by
      refine List.filterMap_eq_nil_iff.mpr fun w hw => ?_
      obtain ⟨e', he', rfl⟩ := List.mem_map.mp hw
      exact hown e' (List.mem_append_left _ he') (hwriter ▸ horder.before hout hlen e' he')
    rw [hbefore, hx, List.nil_append] at hrest
    have hlt : n < values.length := by
      have hlength := congrArg List.length hrest
      rw [List.length_drop, List.length_cons] at hlength
      omega
    have hget : values[n] = x := by
      rw [List.drop_eq_getElem_cons hlt] at hrest
      exact (List.cons.inj hrest).1
    refine ⟨n + 1, Nat.le_succ n, hown, hlt, ?_, ?_⟩
    · rw [List.map_append, List.filterMap_append, hbefore, List.nil_append]
      rw [List.drop_eq_getElem_cons hlt] at hrest
      exact (List.cons.inj hrest).2
    · rw [hread, update_of_some R hx, valueAt, List.take_succ_eq_append_getElem hlt, hget]
      simp

/-- **The writer sees the last value it gave**, wherever its writes are. -/
theorem Written.view_own (h : R.Written writer v values n s) (hR : R.Follows P W)
    (hW : ∀ e ∈ s.outstanding, W e.write) :
    R.read (P.view s writer) = valueAt v values values.length := by
  have htargets : ((s.outstanding.filter fun e => e.client = writer).map Issue.write).filterMap
      R.target = (s.outstanding.map Issue.write).filterMap R.target := by
    have hown := h.own
    generalize s.outstanding = es at hown
    induction es with
    | nil => rfl
    | cons e rest ih =>
      have hrest := ih fun e' he' => hown e' (by simp [he'])
      by_cases hclient : e.client = writer
      · rw [List.filter_cons_of_pos (by simpa using hclient), List.map_cons, List.map_cons,
          List.filterMap_cons, List.filterMap_cons, hrest]
      · rw [List.filter_cons_of_neg (by simpa using hclient), hrest, List.map_cons,
          List.filterMap_cons, hown e (by simp) hclient]
  rw [Protocol.view, read_applyAll R hR, h.read]
  · exact updateAll_valueAt R (h.outstanding.trans htargets.symm)
  · intro w hw
    obtain ⟨e, he, rfl⟩ := List.mem_map.mp hw
    exact hW e (List.mem_filter.mp he).1

/-- Another client sees the value in the store. -/
theorem Written.view_other (h : R.Written writer v values n s) (hR : R.Follows P W)
    (hW : ∀ e ∈ s.outstanding, W e.write) (hne : client ≠ writer) :
    R.read (P.view s client) = valueAt v values n := by
  rw [Protocol.view, read_applyAll R hR, updateAll_of_none, h.read]
  · intro w hw
    obtain ⟨e, he, rfl⟩ := List.mem_map.mp hw
    obtain ⟨hmem, hclient⟩ := List.mem_filter.mp he
    exact h.own e hmem (of_decide_eq_true hclient ▸ hne)
  · intro w hw
    obtain ⟨e, he, rfl⟩ := List.mem_map.mp hw
    exact hW e (List.mem_filter.mp he).1

/-- What the clients were shown so far, with the number of values each view goes back to: they
    never go back to fewer than before. -/
structure Watched (R : Register Store Write β) (writer : Client) (v : β) (values : List β) (n : Nat)
    (log : List (Nat × Client × Store))
    (s : Config Client Store Write Request Callback Response Id) : Prop where
  written : R.Written writer v values n s
  views : log.map Prod.snd = s.seen
  reads : ∀ l ∈ log, R.read l.2.2 = valueAt v values l.1
  past : ∀ l ∈ log, l.1 ≤ if l.2.1 = writer then values.length else n
  ordered : log.Pairwise fun l l' => l.2.1 = l'.2.1 → l.1 ≤ l'.1

variable {log : List (Nat × Client × Store)}

theorem Watched.of_rest (hrest : s.outstanding = []) (hseen : s.seen = []) (writer : Client) :
    R.Watched writer (R.read s.store) [] 0 [] s where
  written := .of_rest hrest writer
  views := hseen.symm
  reads := by simp
  past := by simp
  ordered := List.Pairwise.nil

theorem Watched.counts_le (h : R.Watched writer v values n log s) {l : Nat × Client × Store}
    (hl : l ∈ log) : l.1 ≤ values.length := by
  have hpast := h.past l hl
  split at hpast
  · exact hpast
  · exact Nat.le_trans hpast h.written.arrived

/-- What was shown stays as it is when more values are given, or more have arrived. -/
theorem Watched.mono (h : R.Watched writer v values n log s) {n' : Nat} (hn : n ≤ n')
    (hwritten : R.Written writer v (values ++ new) n' t) (hseen : t.seen = s.seen) :
    R.Watched writer v (values ++ new) n' log t where
  written := hwritten
  views := h.views.trans hseen.symm
  reads := fun l hl => by rw [h.reads l hl, valueAt_append (h.counts_le hl)]
  past := fun l hl => by
    have hpast := h.past l hl
    split at hpast
    · rename_i hwriter
      rw [if_pos hwriter, List.length_append]
      omega
    · rename_i hwriter
      rw [if_neg hwriter]
      omega
  ordered := h.ordered

theorem Watched.observe (h : R.Watched writer v values n log s) (hR : R.Follows P W)
    (hW : ∀ e ∈ s.outstanding, W e.write) (client : Client) :
    ∃ m, R.Watched writer v values n (log ++ [(m, client, P.view s client)])
      { s with seen := s.seen ++ [(client, P.view s client)] } := by
  have hshown : ∃ m, R.read (P.view s client) = valueAt v values m ∧
      m = if client = writer then values.length else n := by
    by_cases hwriter : client = writer
    · exact ⟨_, hwriter ▸ h.written.view_own hR hW, by rw [if_pos hwriter]⟩
    · exact ⟨_, h.written.view_other hR hW hwriter, by rw [if_neg hwriter]⟩
  obtain ⟨m, hread, hm⟩ := hshown
  refine ⟨m, ⟨h.written.own, h.written.arrived, h.written.outstanding, h.written.read⟩, ?_,
    ?_, ?_, ?_⟩
  · rw [List.map_append, h.views]
    rfl
  · exact List.forall_mem_append.mpr ⟨h.reads, List.forall_mem_singleton.mpr hread⟩
  · exact List.forall_mem_append.mpr ⟨h.past, List.forall_mem_singleton.mpr (Nat.le_of_eq hm)⟩
  · refine List.pairwise_append.mpr ⟨h.ordered, List.pairwise_singleton _ _, ?_⟩
    intro l hl l' hl' hclient
    obtain rfl := List.mem_singleton.mp hl'
    have hpast := h.past l hl
    simp only at hclient ⊢
    rw [hclient] at hpast
    exact hm ▸ hpast

/-- The values a step gives the register. -/
def given (R : Register Store Write β)
    (P : Protocol Client Op Store Write Request Callback Response Id)
    (s : Config Client Store Write Request Callback Response Id)
    (a : Action Client Op Response Id) : List β :=
  (((P.issues s a).map Prod.snd).getD []).filterMap R.target

/-- Only the writer issues writes that touch the register. -/
def OnlyWriter (R : Register Store Write β)
    (P : Protocol Client Op Store Write Request Callback Response Id) (writer : Client)
    (s : Config Client Store Write Request Callback Response Id)
    (a : Action Client Op Response Id) : Prop :=
  ∀ client ws, P.issues s a = some (client, ws) → client ≠ writer → ∀ w ∈ ws, R.target w = none

/-- **A step** leads from one of the values given to one that is not earlier. -/
theorem Watched.step (h : R.Watched writer v values n log s) (hR : R.Follows P W)
    (hW : ∀ e ∈ s.outstanding, W e.write)
    (heffect : ∀ client r response st, R.read (P.effect client r response st) = R.read st)
    [DecidableEq Id] {a : Action Client Op Response Id} (honly : R.OnlyWriter P writer s a)
    (horder : Protocol.InOrder s a) (hst : P.step s a = some t) :
    ∃ n' log', R.Watched writer v (values ++ R.given P s a) n' log' t := by
  cases a with
  | start client op id =>
    obtain ⟨-, -, rfl⟩ := P.step_start hst
    have hissue := h.written.issue (honly client _ rfl) id
    exact ⟨n, log, h.mono (Nat.le_refl n) hissue rfl⟩
  | deliver index =>
    obtain ⟨n', hn, hwritten⟩ := h.written.deliver hR hW horder hst
    obtain ⟨before, e, after, hout, -, rfl⟩ := P.step_deliver hst
    exact ⟨n', log, h.mono hn (by simpa [given, Protocol.issues] using hwritten) rfl⟩
  | serve index response =>
    obtain ⟨before, c, after, -, -, -, rfl⟩ := P.step_serve hst
    refine ⟨n, log, h.mono (Nat.le_refl n) ?_ rfl⟩
    have hread : R.read (P.effect c.client c.request response s.store) = valueAt v values n :=
      (heffect _ _ _ _).trans h.written.read
    simpa [given, Protocol.issues] using
      (⟨h.written.own, h.written.arrived, h.written.outstanding, hread⟩ :
        R.Written writer v values n { s with
          store := P.effect c.client c.request response s.store
          calls := before ++ after
          answers := s.answers ++ [⟨c.client, c.request, c.callback, response⟩] })
  | resume index id =>
    obtain ⟨before, a, after, hanswers, hlen, -, -, rfl⟩ := P.step_resume hst
    have hget : s.answers[index]? = some a := by
      rw [hanswers, ← hlen]
      simp
    have hissues : P.issues s (.resume index id) = some (a.client,
        (P.resume a.client a.callback a.response id).filterMap Command.write?) := by
      rw [Protocol.issues, hget]
      rfl
    have hrest : R.Written writer v values n { s with answers := before ++ after } :=
      ⟨h.written.own, h.written.arrived, h.written.outstanding, h.written.read⟩
    have hissue := hrest.issue (honly a.client _ hissues) id
    refine ⟨n, log, h.mono (Nat.le_refl n) ?_ rfl⟩
    rw [given, hissues]
    exact hissue
  | observe client =>
    obtain ⟨m, hwatched⟩ := h.observe hR hW client
    rw [P.step_observe hst]
    exact ⟨n, _, by simpa [given, Protocol.issues] using hwatched⟩

end Register

end TeamUp
