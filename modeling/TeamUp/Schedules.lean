import TeamUp.Interleaving

/-!
# Running to the end

What is under way can always be brought to its end: the calls are served, the callbacks of
all answers run, and the writes are delivered in the order they were issued.  A property of
all runs that come to an end fails if it fails of one of these.
-/

namespace TeamUp.Protocol

variable {Client Op Store Write Request Callback Response Id : Type}
variable {P : Protocol Client Op Store Write Request Callback Response Id}

/-- Every call served, with the response made for it. -/
def served (s : Config Client Store Write Request Callback Response Id)
    (respond : Call Client Request Callback → Response) :
    Config Client Store Write Request Callback Response Id :=
  { s with
    calls := []
    answers := s.answers ++ s.calls.map fun c => ⟨c.client, c.request, c.callback, respond c⟩ }

variable (P) in
/-- The callbacks of these answers run one after the other, each with its identifier. -/
def resumed (answers : List (Answer Client Request Callback Response × Id))
    (s : Config Client Store Write Request Callback Response Id) :
    Config Client Store Write Request Callback Response Id :=
  answers.foldl (fun v x =>
    v.issue x.1.client x.2 (P.resume x.1.client x.1.callback x.1.response x.2)) s

/-- What the callbacks issue reaches the flushed store in the same order. -/
theorem flush_resumed (answers : List (Answer Client Request Callback Response × Id))
    (s : Config Client Store Write Request Callback Response Id) :
    P.flush (P.resumed answers s) =
      answers.foldl (fun store x => P.applyAll
        ((P.resume x.1.client x.1.callback x.1.response x.2).filterMap Command.write?) store)
        (P.flush s) := by
  induction answers generalizing s with
  | nil => rfl
  | cons x rest ih =>
    rw [resumed, List.foldl_cons, List.foldl_cons, ← flush_issue]
    exact ih _

/-- Callbacks that ask for nothing leave the calls as they are. -/
theorem calls_resumed {answers : List (Answer Client Request Callback Response × Id)}
    (h : ∀ x ∈ answers,
      (P.resume x.1.client x.1.callback x.1.response x.2).filterMap Command.call? = [])
    (s : Config Client Store Write Request Callback Response Id) :
    (P.resumed answers s).calls = s.calls ∧ (P.resumed answers s).answers = s.answers := by
  induction answers generalizing s with
  | nil => exact ⟨rfl, rfl⟩
  | cons x rest ih =>
    obtain ⟨hcalls, hanswers⟩ := ih (fun y hy => h y (List.mem_cons_of_mem x hy))
      (s.issue x.1.client x.2 (P.resume x.1.client x.1.callback x.1.response x.2))
    refine ⟨hcalls.trans ?_, hanswers⟩
    simp [Config.issue, h x List.mem_cons_self]

section Runs

variable [DecidableEq Client] [DecidableEq Id]
variable {ok : Config Client Store Write Request Callback Response Id →
  Action Client Op Response Id → Prop}

variable (ok) in
theorem serve_all (heffect : ∀ client r response store, P.effect client r response store = store)
    (hok : ∀ s response, ok s (.serve 0 response))
    (s : Config Client Store Write Request Callback Response Id)
    (respond : Call Client Request Callback → Response)
    (hanswers : ∀ c ∈ s.calls, P.answers c.request (P.view s c.client) (respond c) = true) :
    ∃ actions, P.Run ok s actions (served s respond) := by
  obtain ⟨store, outstanding, calls, answers, seen, minted⟩ := s
  induction calls generalizing answers with
  | nil => exact ⟨[], by simpa [served] using Run.nil⟩
  | cons c rest ih =>
    obtain ⟨actions, run⟩ := ih (answers ++ [⟨c.client, c.request, c.callback, respond c⟩])
      fun c' hc' => hanswers c' (List.mem_cons_of_mem c hc')
    refine ⟨.serve 0 (respond c) :: actions, Run.cons (hok _ _) ?_
      (by simpa [served] using run)⟩
    have hanswer := hanswers c List.mem_cons_self
    simp only [view] at hanswer
    simp [step, view, hanswer, heffect]

variable (ok) in
theorem resume_all (hfresh : ∀ ids : List Id, ∃ id, P.mintable id = true ∧ id ∉ ids)
    (hok : ∀ s id, ok s (.resume 0 id))
    (s : Config Client Store Write Request Callback Response Id) :
    ∃ ids : List Id, ids.length = s.answers.length ∧ ids.Nodup ∧
      (∀ id ∈ ids, P.mintable id = true ∧ id ∉ s.minted) ∧
      ∃ actions, P.Run ok s actions (P.resumed (s.answers.zip ids) { s with answers := [] }) := by
  obtain ⟨store, outstanding, calls, answers, seen, minted⟩ := s
  induction answers generalizing outstanding calls minted with
  | nil => exact ⟨[], rfl, List.nodup_nil, by simp, [], Run.nil⟩
  | cons a rest ih =>
    obtain ⟨id, hmintable, hnew⟩ := hfresh minted
    let commands := P.resume a.client a.callback a.response id
    obtain ⟨ids, hlength, hnodup, hids, actions, run⟩ := ih
      (outstanding ++ (commands.filterMap Command.write?).map fun w => ⟨a.client, w⟩)
      (calls ++ (commands.filterMap Command.call?).map fun c => ⟨a.client, c.1, c.2⟩)
      (id :: minted)
    have hnotin : id ∉ ids := fun hmem => (hids id hmem).2 List.mem_cons_self
    refine ⟨id :: ids, by simpa using hlength, List.nodup_cons.mpr ⟨hnotin, hnodup⟩,
      fun id' hid' => ?_, .resume 0 id :: actions, Run.cons (hok _ _) ?_ run⟩
    · rcases List.mem_cons.mp hid' with rfl | hrest
      · exact ⟨hmintable, hnew⟩
      · obtain ⟨hmint, hout⟩ := hids id' hrest
        exact ⟨hmint, fun hmem => hout (List.mem_cons_of_mem id hmem)⟩
    · simp [step, hmintable, hnew, Config.issue, commands]

variable (ok) in
theorem deliver_all (hok : ∀ s, ok s (.deliver 0))
    (s : Config Client Store Write Request Callback Response Id) :
    ∃ actions, P.Run ok s actions { s with store := P.flush s, outstanding := [] } := by
  obtain ⟨store, outstanding, calls, answers, seen, minted⟩ := s
  induction outstanding generalizing store with
  | nil => exact ⟨[], Run.nil⟩
  | cons e rest ih =>
    obtain ⟨actions, run⟩ := ih (P.apply e.write store)
    exact ⟨.deliver 0 :: actions, Run.cons (hok _) (by simp [step]) run⟩

end Runs

end TeamUp.Protocol
