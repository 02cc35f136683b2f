import TeamUp.Interleaving

/-!
# A part of what is on its way

The writes and callbacks of some clients, or of some of their operations, make a
configuration of their own over the same store.  A step of the whole is a step of that
part, or leaves it as it is but for what others have changed in the store.  So what was
proved where nothing else is under way can be carried over to runs with everything else.
-/

namespace TeamUp

namespace Protocol

variable {Client Op Store Write Request Callback Response Id : Type}

/-! ### Steps at a given place -/

section Steps

variable {P : Protocol Client Op Store Write Request Callback Response Id}
variable {s : Config Client Store Write Request Callback Response Id}
variable [DecidableEq Client] [DecidableEq Id]

theorem step_at_write {before after : List (Issue Client Write)} {e : Issue Client Write}
    (hout : s.outstanding = before ++ e :: after) :
    P.step s (.deliver before.length) =
      some { s with store := P.apply e.write s.store, outstanding := before ++ after } := by
  simp [step, hout, eraseIdx_split]

theorem step_at_call {before after : List (Call Client Request Callback)}
    {c : Call Client Request Callback} {response : Response}
    (hcalls : s.calls = before ++ c :: after)
    (hanswers : P.answers c.request (P.view s c.client) response = true) :
    P.step s (.serve before.length response) =
      some { s with
        store := P.effect c.client c.request response s.store
        calls := before ++ after
        answers := s.answers ++ [⟨c.client, c.request, c.callback, response⟩] } := by
  simp [step, hcalls, hanswers, eraseIdx_split]

theorem step_at_answer {before after : List (Answer Client Request Callback Response)}
    {a : Answer Client Request Callback Response} {id : Id}
    (hanswers : s.answers = before ++ a :: after) (hmintable : P.mintable id = true)
    (hfresh : id ∉ s.minted) :
    P.step s (.resume before.length id) =
      some (({ s with answers := before ++ after } :
          Config Client Store Write Request Callback Response Id).issue a.client id
        (P.resume a.client a.callback a.response id)) := by
  simp [step, hanswers, hmintable, hfresh, eraseIdx_split]

end Steps

/-! ### Slices -/

/-- Some of the writes and callbacks. -/
structure Slice (Client Write Callback : Type) where
  writes : Client → Write → Bool
  callbacks : Client → Callback → Bool

namespace Slice

variable (S : Slice Client Write Callback)
variable (s : Config Client Store Write Request Callback Response Id)

/-- What belongs to the part, with the store that it shares with the rest. -/
def of : Config Client Store Write Request Callback Response Id :=
  { s with
    outstanding := s.outstanding.filter fun e => S.writes e.client e.write
    calls := s.calls.filter fun c => S.callbacks c.client c.callback
    answers := s.answers.filter fun a => S.callbacks a.client a.callback }

/-- The commands belong to the part, all or none. -/
def Decides (b : Bool) (client : Client) (commands : List (Command Write Request Callback)) :
    Prop :=
  (∀ w, .write w ∈ commands → S.writes client w = b) ∧
    ∀ request callback, .call request callback ∈ commands → S.callbacks client callback = b

variable {S s}
variable {t : Config Client Store Write Request Callback Response Id} {client : Client}
variable {commands : List (Command Write Request Callback)}

theorem filter_writes {b : Bool} (h : S.Decides b client commands) :
    (((commands.filterMap Command.write?).map fun w => (⟨client, w⟩ : Issue Client Write)).filter
      fun e => S.writes e.client e.write) =
      if b then (commands.filterMap Command.write?).map fun w => ⟨client, w⟩ else [] := by
  have hall : ∀ e ∈ (commands.filterMap Command.write?).map fun w => (⟨client, w⟩ : Issue _ _),
      S.writes e.client e.write = b := by
    intro e he
    obtain ⟨w, hw, rfl⟩ := List.mem_map.mp he
    exact h.1 w (mem_writes.mp hw)
  cases b with
  | true => exact List.filter_eq_self.mpr hall
  | false => exact List.filter_eq_nil_iff.mpr fun e he => Bool.eq_false_iff.mp (hall e he)

theorem filter_calls {b : Bool} (h : S.Decides b client commands) :
    (((commands.filterMap Command.call?).map fun c =>
      (⟨client, c.1, c.2⟩ : Call Client Request Callback)).filter
        fun c => S.callbacks c.client c.callback) =
      if b then (commands.filterMap Command.call?).map fun c => ⟨client, c.1, c.2⟩ else [] := by
  have hall : ∀ c ∈ (commands.filterMap Command.call?).map fun c =>
      (⟨client, c.1, c.2⟩ : Call Client Request Callback), S.callbacks c.client c.callback = b := by
    intro c hc
    obtain ⟨d, hd, rfl⟩ := List.mem_map.mp hc
    exact h.2 d.1 d.2 (mem_calls.mp hd)
  cases b with
  | true => exact List.filter_eq_self.mpr hall
  | false => exact List.filter_eq_nil_iff.mpr fun c hc => Bool.eq_false_iff.mp (hall c hc)

/-- What is issued for the part is issued in it. -/
theorem of_issue (h : S.Decides true client commands) (id : Id) :
    S.of (s.issue client id commands) = (S.of s).issue client id commands := by
  simp only [of, Config.issue, List.filter_append, filter_writes h, filter_calls h, if_true]

/-- What is issued beside the part leaves it as it is. -/
theorem of_issue_beside (h : S.Decides false client commands) (id : Id) :
    S.of (s.issue client id commands) = { S.of s with minted := id :: s.minted } := by
  simp only [of, Config.issue, List.filter_append, filter_writes h, filter_calls h,
    Bool.false_eq_true, if_false, List.append_nil]

variable {P : Protocol Client Op Store Write Request Callback Response Id}
variable [DecidableEq Client] [DecidableEq Id] {index : Nat} {id : Id}

theorem start {op : Op} (h : S.Decides true client (P.begin client op id))
    (hst : P.step s (.start client op id) = some t) :
    P.step (S.of s) (.start client op id) = some (S.of t) := by
  obtain ⟨hmintable, hfresh, rfl⟩ := P.step_start hst
  rw [of_issue h]
  exact if_pos ⟨hmintable, hfresh⟩

/-- A write that arrives is one of the part, or one of others. -/
theorem deliver (horder : InOrder s (.deliver index : Action Client Op Response Id))
    (hst : P.step s (.deliver index) = some t) :
    (∃ i, InOrder (S.of s) (.deliver i : Action Client Op Response Id) ∧
        P.step (S.of s) (.deliver i) = some (S.of t)) ∨
      ∃ e ∈ s.outstanding, S.writes e.client e.write = false ∧
        S.of t = { S.of s with store := P.apply e.write s.store } := by
  obtain ⟨before, e, after, hout, hlen, rfl⟩ := P.step_deliver hst
  have hbefore := horder.before hout hlen
  cases he : S.writes e.client e.write with
  | false =>
    refine Or.inr ⟨e, mem_of_split hout, he, ?_⟩
    simp [of, hout, he]
  | true =>
    have hpart : (S.of s).outstanding = before.filter (fun e => S.writes e.client e.write) ++
        e :: after.filter fun e => S.writes e.client e.write := by
      simp [of, hout, he]
    refine Or.inl ⟨(before.filter fun e => S.writes e.client e.write).length, ?_, ?_⟩
    · intro e' he' e'' he''
      rw [hpart] at he' he''
      obtain rfl : e = e' := by simpa using he'
      rw [List.take_left] at he''
      exact hbefore e'' (List.mem_of_mem_filter he'')
    · rw [step_at_write hpart]
      simp [of]

/-- A call that is served is one of the part, with an answer that may depend on the rest. -/
theorem serve {response : Response} (hst : P.step s (.serve index response) = some t) :
    (∃ before c after, (S.of s).calls = before ++ c :: after ∧ c ∈ s.calls ∧
        S.callbacks c.client c.callback = true ∧
        P.answers c.request (P.view s c.client) response = true ∧
        S.of t = { S.of s with
          store := P.effect c.client c.request response s.store
          calls := before ++ after
          answers := (S.of s).answers ++ [⟨c.client, c.request, c.callback, response⟩] }) ∨
      ∃ c ∈ s.calls, S.callbacks c.client c.callback = false ∧
        S.of t = { S.of s with store := P.effect c.client c.request response s.store } := by
  obtain ⟨before, c, after, hcalls, -, hanswers, rfl⟩ := P.step_serve hst
  cases hc : S.callbacks c.client c.callback with
  | false =>
    refine Or.inr ⟨c, mem_of_split hcalls, hc, ?_⟩
    simp [of, hcalls, hc]
  | true =>
    refine Or.inl ⟨before.filter fun c => S.callbacks c.client c.callback, c,
      after.filter fun c => S.callbacks c.client c.callback, ?_, mem_of_split hcalls, hc, hanswers,
      ?_⟩
    · simp [of, hcalls, hc]
    · simp [of, hc]

/-- A callback that runs is one of the part, if what callbacks issue belongs to the part with
    them, or one of others. -/
theorem resume (hclosed : ∀ a ∈ s.answers, S.Decides (S.callbacks a.client a.callback) a.client
      (P.resume a.client a.callback a.response id))
    (hst : P.step s (.resume index id) = some t) :
    ∃ a ∈ s.answers, s.answers[index]? = some a ∧
      ((S.callbacks a.client a.callback = true ∧
          ∃ i, (S.of s).answers[i]? = some a ∧ P.step (S.of s) (.resume i id) = some (S.of t)) ∨
        (S.callbacks a.client a.callback = false ∧ t.store = s.store ∧
          S.of t = { S.of s with minted := id :: s.minted })) := by
  obtain ⟨before, a, after, hanswers, hlen, hmintable, hfresh, rfl⟩ := P.step_resume hst
  have hmem := mem_of_split hanswers
  have hdecides := hclosed a hmem
  refine ⟨a, hmem, by simp [hanswers, ← hlen], ?_⟩
  cases ha : S.callbacks a.client a.callback with
  | false =>
    rw [ha] at hdecides
    refine Or.inr ⟨rfl, rfl, ?_⟩
    rw [of_issue_beside hdecides]
    simp [of, hanswers, ha]
  | true =>
    rw [ha] at hdecides
    have hpart : (S.of s).answers = before.filter (fun a => S.callbacks a.client a.callback) ++
        a :: after.filter fun a => S.callbacks a.client a.callback := by
      simp [of, hanswers, ha]
    refine Or.inl ⟨rfl, (before.filter fun a => S.callbacks a.client a.callback).length, ?_, ?_⟩
    · simp [hpart]
    · rw [step_at_answer hpart hmintable hfresh, of_issue hdecides]
      simp [of]

omit [DecidableEq Id] in
/-- What a client sees is what it would see of the part alone, as far as the rest of its own
    writes does not matter. -/
theorem view_agrees (agree : Store → Store → Prop)
    (hboth : ∀ w st st', agree st st' → agree (P.apply w st) (P.apply w st'))
    (hbeside : ∀ e ∈ s.outstanding, e.client = client → S.writes e.client e.write = false →
      ∀ st st', agree st st' → agree (P.apply e.write st) st')
    (hstore : agree s.store s.store) : agree (P.view s client) (P.view (S.of s) client) := by
  have hall : ∀ (es : List (Issue Client Write)) (st st' : Store), agree st st' →
      (∀ e ∈ es, e ∈ s.outstanding) →
      agree (P.applyAll ((es.filter fun e => e.client = client).map Issue.write) st)
        (P.applyAll (((es.filter fun e => S.writes e.client e.write).filter
          fun e => e.client = client).map Issue.write) st') := by
    intro es
    induction es with
    | nil => exact fun st st' h _ => h
    | cons e rest ih =>
      intro st st' h hes
      have hrest : ∀ e' ∈ rest, e' ∈ s.outstanding := fun e' he' => hes e' (by simp [he'])
      by_cases hclient : e.client = client
      · subst hclient
        cases he : S.writes e.client e.write with
        | true => simpa [he, applyAll] using ih _ _ (hboth e.write st st' h) hrest
        | false =>
          have hskip := hbeside e (hes e (by simp)) rfl he st st' h
          simpa [he, applyAll] using ih _ _ hskip hrest
      · cases he : S.writes e.client e.write <;> simpa [hclient, he] using ih _ _ h hrest
  exact hall s.outstanding s.store s.store hstore fun e he => he

end Slice

end Protocol

end TeamUp
