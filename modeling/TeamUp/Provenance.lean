import TeamUp.Interleaving

/-!
# Where facts about a store come from

Only the clients write to the store.  What comes to hold of it was put there by a write,
the write was issued by an operation or by a callback, and a callback waits because of an
operation that was started before.  `Sources` says which of them may make a fact true.
Every fact that ever holds, of the store or of a view of it, then held from the start or
has an operation of the run behind it.
-/

namespace TeamUp

namespace Protocol

variable {Client Op Store Write Request Callback Response Id Fact : Type}

/-- What may make facts about the store true.  Answers are taken from valid stores. -/
structure Sources (P : Protocol Client Op Store Write Request Callback Response Id)
    (Fact : Type) where
  valid : Store → Prop
  holds : Fact → Store → Prop
  makes : Fact → Write → Prop
  /-- Operations, callbacks that wait and callbacks that were answered may make the fact true. -/
  starts : Fact → Client → Op → Id → Prop
  asks : Fact → Client → Request → Callback → Prop
  told : Fact → Client → Request → Callback → Response → Prop
  apply : ∀ {f w st}, holds f (P.apply w st) → holds f st ∨ makes f w
  effect : ∀ {f client r response st}, holds f (P.effect client r response st) → holds f st
  begin_write : ∀ {f client op id w}, .write w ∈ P.begin client op id → makes f w →
    starts f client op id
  begin_call : ∀ {f client op id r k}, .call r k ∈ P.begin client op id → asks f client r k →
    starts f client op id
  serve : ∀ {f client r k response st}, valid st → P.answers r st response = true →
    told f client r k response → asks f client r k
  resume_write : ∀ {f client r k response id w}, .write w ∈ P.resume client k response id →
    makes f w → told f client r k response
  resume_call : ∀ {f client r k response id r' k'},
    .call r' k' ∈ P.resume client k response id → asks f client r' k' →
    told f client r k response

namespace Sources

variable {P : Protocol Client Op Store Write Request Callback Response Id}
variable (S : P.Sources Fact)
variable {origin origin' : Fact → Prop}
variable {s t : Config Client Store Write Request Callback Response Id}

/-- Whatever holds, or may come to hold by what is on its way, has an origin. -/
structure Attributed (origin : Fact → Prop)
    (s : Config Client Store Write Request Callback Response Id) : Prop where
  stored : ∀ f, S.holds f s.store → origin f
  writes : ∀ e ∈ s.outstanding, ∀ f, S.makes f e.write → origin f
  calls : ∀ c ∈ s.calls, ∀ f, S.asks f c.client c.request c.callback → origin f
  answers : ∀ a ∈ s.answers, ∀ f, S.told f a.client a.request a.callback a.response → origin f
  seen : ∀ view ∈ s.seen, ∀ f, S.holds f view.2 → origin f

/-- A fact held from the start, or an operation that was started may make it true. -/
def Origin (old : Fact → Prop) (actions : List (Action Client Op Response Id)) (f : Fact) :
    Prop :=
  old f ∨ ∃ client op id, .start client op id ∈ actions ∧ S.starts f client op id

variable {S}

theorem holds_applyAll {f : Fact} {ws : List Write} {st : Store}
    (h : S.holds f (P.applyAll ws st)) : S.holds f st ∨ ∃ w ∈ ws, S.makes f w := by
  induction ws generalizing st with
  | nil => exact Or.inl h
  | cons w rest ih =>
    rcases ih h with hst | ⟨w', hw', hmakes⟩
    · rcases S.apply hst with hold | hnew
      · exact Or.inl hold
      · exact Or.inr ⟨w, List.mem_cons_self, hnew⟩
    · exact Or.inr ⟨w', List.mem_cons_of_mem _ hw', hmakes⟩

namespace Attributed

theorem of_quiescent (h : s.Quiescent) (hstored : ∀ f, S.holds f s.store → origin f)
    (hseen : s.seen = []) : S.Attributed origin s := by
  obtain ⟨ho, hc, ha⟩ := h
  exact ⟨hstored, by simp [ho], by simp [hc], by simp [ha], by simp [hseen]⟩

theorem mono (h : S.Attributed origin s) (hle : ∀ f, origin f → origin' f) :
    S.Attributed origin' s where
  stored := fun f hf => hle f (h.stored f hf)
  writes := fun e he f hf => hle f (h.writes e he f hf)
  calls := fun c hc f hf => hle f (h.calls c hc f hf)
  answers := fun a ha f hf => hle f (h.answers a ha f hf)
  seen := fun view hview f hf => hle f (h.seen view hview f hf)

theorem view [DecidableEq Client] (h : S.Attributed origin s) {client : Client} {f : Fact}
    (hf : S.holds f (P.view s client)) : origin f := by
  rcases holds_applyAll hf with hst | ⟨w, hw, hmakes⟩
  · exact h.stored f hst
  · obtain ⟨e, he, rfl⟩ := List.mem_map.mp hw
    exact h.writes e (List.mem_filter.mp he).1 f hmakes

theorem issue (h : S.Attributed origin s) {client : Client}
    {commands : List (Command Write Request Callback)}
    (hwrites : ∀ w, .write w ∈ commands → ∀ f, S.makes f w → origin f)
    (hcalls : ∀ r k, .call r k ∈ commands → ∀ f, S.asks f client r k → origin f) (id : Id) :
    S.Attributed origin (s.issue client id commands) := by
  refine ⟨h.stored, fun e he f hf => ?_, fun c hc f hf => ?_, h.answers, h.seen⟩
  · rcases List.mem_append.mp he with hold | hnew
    · exact h.writes e hold f hf
    · obtain ⟨w, hw, rfl⟩ := List.mem_map.mp hnew
      exact hwrites w (mem_writes.mp hw) f hf
  · rcases List.mem_append.mp hc with hold | hnew
    · exact h.calls c hold f hf
    · obtain ⟨d, hd, rfl⟩ := List.mem_map.mp hnew
      exact hcalls d.1 d.2 (mem_calls.mp hd) f hf

variable [DecidableEq Client] [DecidableEq Id]

/-- **A step makes nothing true that has no origin**, if what it starts has one. -/
theorem step (h : S.Attributed origin s) {a : Action Client Op Response Id}
    (hvalid : ∀ client, S.valid (P.view s client))
    (hstart : ∀ client op id, a = .start client op id → ∀ f, S.starts f client op id → origin f)
    (hst : P.step s a = some t) : S.Attributed origin t := by
  cases a with
  | start client op id =>
    obtain ⟨-, -, rfl⟩ := P.step_start hst
    exact h.issue (fun w hw f hf => hstart client op id rfl f (S.begin_write hw hf))
      (fun r k hk f hf => hstart client op id rfl f (S.begin_call hk hf)) id
  | deliver index =>
    obtain ⟨before, e, after, hout, -, rfl⟩ := P.step_deliver hst
    refine ⟨fun f hf => ?_, fun e' he' => h.writes e' (rest_of_split hout he'), h.calls,
      h.answers, h.seen⟩
    rcases S.apply hf with hold | hnew
    · exact h.stored f hold
    · exact h.writes e (mem_of_split hout) f hnew
  | serve index response =>
    obtain ⟨before, c, after, hcalls, -, hanswer, rfl⟩ := P.step_serve hst
    refine ⟨fun f hf => h.stored f (S.effect hf), h.writes,
      fun c' hc' => h.calls c' (rest_of_split hcalls hc'), fun a ha f hf => ?_, h.seen⟩
    rcases List.mem_append.mp ha with hold | hnew
    · exact h.answers a hold f hf
    · rw [List.mem_singleton.mp hnew] at hf
      exact h.calls c (mem_of_split hcalls) f (S.serve (hvalid c.client) hanswer hf)
  | resume index id =>
    obtain ⟨before, a, after, hanswers, -, -, -, rfl⟩ := P.step_resume hst
    have htold : ∀ f, S.told f a.client a.request a.callback a.response → origin f :=
      h.answers a (mem_of_split hanswers)
    have hrest : S.Attributed origin { s with answers := before ++ after } :=
      ⟨h.stored, h.writes, h.calls, fun a' ha' => h.answers a' (rest_of_split hanswers ha'),
        h.seen⟩
    exact hrest.issue (fun w hw f hf => htold f (S.resume_write hw hf))
      (fun r k hk f hf => htold f (S.resume_call hk hf)) id
  | observe client =>
    obtain rfl := P.step_observe hst
    refine ⟨h.stored, h.writes, h.calls, h.answers, fun view hview f hf => ?_⟩
    rcases List.mem_append.mp hview with hold | hnew
    · exact h.seen view hold f hf
    · rw [List.mem_singleton.mp hnew] at hf
      exact h.view hf

/-- **Every fact that ever holds was there from the start or has an operation of the run
    behind it**, if a store whose facts could all come about so is valid. -/
theorem of_run {old : Fact → Prop}
    (hvalid : ∀ st, (∀ f, S.holds f st → old f ∨ ∃ client op id, S.starts f client op id) →
      S.valid st)
    {ok : Config Client Store Write Request Callback Response Id →
      Action Client Op Response Id → Prop}
    {actions : List (Action Client Op Response Id)} (hs : S.Attributed old s)
    (run : P.Run ok s actions t) : S.Attributed (S.Origin old actions) t := by
  refine run.history (fun done u => S.Attributed (S.Origin old done) u) ?_
    (hs.mono fun f hf => Or.inl hf)
  intro done u a v hu _ hst
  have hlater : S.Attributed (S.Origin old (done ++ [a])) u := by
    refine hu.mono fun f hf => hf.imp_right ?_
    rintro ⟨client, op, id, hmem, hstarts⟩
    exact ⟨client, op, id, List.mem_append_left _ hmem, hstarts⟩
  refine hlater.step (fun client => hvalid _ fun f hf => ?_) ?_ hst
  · refine (hu.view hf).imp_right ?_
    rintro ⟨c, op, id, -, hstarts⟩
    exact ⟨c, op, id, hstarts⟩
  · rintro client op id rfl f hf
    exact Or.inr ⟨client, op, id, List.mem_append_right _ (by simp), hf⟩

end Attributed

end Sources

end Protocol

end TeamUp
