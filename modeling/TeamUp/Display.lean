import TeamUp.Runs

/-!
# Results that overwrite each other

A display shows a result and takes inputs.  An input asks a query, whose answer is shown
whenever it arrives; or has its result shown at once; or has a result that is not written.
Queries are answered in any order.

Once nothing is under way the display shows the result of the latest input, if no answer is
shown over it, and no input whose result is not written comes in over another result.
-/

namespace TeamUp

structure Display (Query Result : Type) where
  shown : Result
  /-- The queries under way, with the numbers of their inputs. -/
  pending : List (Nat × Query)
  /-- How many inputs there have been. -/
  inputs : Nat
  /-- The query of the latest input, if it asked one. -/
  latest : Option Query
  /-- The result of the latest input, once it is known. -/
  result : Option Result
deriving DecidableEq

namespace Display

variable {Query Result : Type}

/-- Nothing was asked yet. -/
def initial (shown : Result) : Display Query Result :=
  { shown, pending := [], inputs := 0, latest := none, result := some shown }

def ask (d : Display Query Result) (query : Query) : Display Query Result :=
  { d with
    pending := d.pending ++ [(d.inputs + 1, query)]
    inputs := d.inputs + 1, latest := some query, result := none }

/-- An input whose result is shown at once. -/
def put (d : Display Query Result) (result : Result) : Display Query Result :=
  { d with shown := result, inputs := d.inputs + 1, latest := none, result := some result }

/-- An input whose result is not written. -/
def leave (d : Display Query Result) (result : Result) : Display Query Result :=
  { d with inputs := d.inputs + 1, latest := none, result := some result }

def answer (d : Display Query Result) (index : Nat) (result : Result) :
    Option (Display Query Result) :=
  match d.pending[index]? with
  | some (number, _) =>
      some { d with
        shown := result
        pending := d.pending.eraseIdx index
        result := if number = d.inputs then some result else d.result }
  | none => none

/-- The latest input has asked a query that is still under way. -/
def Waiting (d : Display Query Result) : Prop := ∃ q ∈ d.pending, q.1 = d.inputs

instance (d : Display Query Result) : Decidable d.Waiting :=
  inferInstanceAs (Decidable (∃ q ∈ d.pending, q.1 = d.inputs))

/-- The answer belongs to the latest input, or will be overwritten by the one that does, or
    changes nothing. -/
def InTurn (d : Display Query Result) (index : Nat) (result : Result) : Prop :=
  (∀ q ∈ d.pending[index]?, q.1 = d.inputs) ∨ d.Waiting ∨ result = d.shown

instance [DecidableEq Result] (d : Display Query Result) (index : Nat) (result : Result) :
    Decidable (d.InTurn index result) :=
  inferInstanceAs (Decidable (_ ∨ _ ∨ _))

/-- The result of the latest input is shown, or on its way. -/
def Following (d : Display Query Result) : Prop := d.Waiting ∨ d.result = some d.shown

/-- The queries under way belong to inputs there have been. -/
def Counted (d : Display Query Result) : Prop := ∀ q ∈ d.pending, q.1 ≤ d.inputs

/-- The latest input has asked nothing, and has this result. -/
def Known (d : Display Query Result) (result : Result) : Prop :=
  ¬ d.Waiting ∧ d.result = some result

variable {d t : Display Query Result} {index : Nat} {result shown : Result}

theorem following_initial (shown : Result) :
    (initial shown : Display Query Result).Following := Or.inr rfl

theorem following_ask (d : Display Query Result) (query : Query) : (d.ask query).Following :=
  Or.inl ⟨_, List.mem_append_right _ (List.mem_singleton.mpr rfl), rfl⟩

theorem following_put (d : Display Query Result) (result : Result) : (d.put result).Following :=
  Or.inr rfl

theorem following_leave (h : d.shown = result) : (d.leave result).Following :=
  Or.inr (congrArg some h.symm)

/-- An answer takes its query out of those under way. -/
theorem answer_split (hst : d.answer index result = some t) :
    ∃ before number query after, d.pending[index]? = some (number, query) ∧
      d.pending = before ++ (number, query) :: after ∧
      t = { d with
        shown := result, pending := before ++ after
        result := if number = d.inputs then some result else d.result } := by
  unfold answer at hst
  split at hst
  · rename_i number query hget
    obtain ⟨before, after, hsplit, hlength⟩ := split_at hget
    have herase : d.pending.eraseIdx index = before ++ after := by
      rw [hsplit, ← hlength, eraseIdx_split]
    rw [herase] at hst
    exact ⟨before, number, query, after, hget, hsplit, (Option.some.inj hst).symm⟩
  · cases hst

/-- **An answer in turn** leaves the result of the latest input shown, or on its way. -/
theorem Following.answer (h : d.Following) (hturn : d.InTurn index result)
    (hst : d.answer index result = some t) : t.Following := by
  obtain ⟨before, number, query, after, hget, hsplit, rfl⟩ := answer_split hst
  by_cases hlatest : number = d.inputs
  · exact Or.inr (if_pos hlatest)
  · -- the answer is not the latest one: it is overwritten, or changes nothing
    have hkept : d.Waiting → ∃ q ∈ before ++ after, q.1 = d.inputs := by
      rintro ⟨q, hq, hnumber⟩
      rw [hsplit] at hq
      rcases List.mem_append.mp hq with hbefore | hrest
      · exact ⟨q, List.mem_append_left _ hbefore, hnumber⟩
      · rcases List.mem_cons.mp hrest with rfl | hafter
        · exact (hlatest hnumber).elim
        · exact ⟨q, List.mem_append_right _ hafter, hnumber⟩
    rcases hturn with hown | hwaiting | hsame
    · exact (hlatest (hown _ hget)).elim
    · exact Or.inl (hkept hwaiting)
    · rcases h with hwaiting | hshown
      · exact Or.inl (hkept hwaiting)
      · refine Or.inr ?_
        simp only [if_neg hlatest, hsame]
        exact hshown

theorem latest_answer (hst : d.answer index result = some t) : t.latest = d.latest := by
  obtain ⟨-, -, -, -, -, -, rfl⟩ := answer_split hst
  rfl

theorem counted_initial (shown : Result) : (initial shown : Display Query Result).Counted :=
  fun _ hq => by cases hq

theorem Counted.ask (h : d.Counted) (query : Query) : (d.ask query).Counted := by
  intro q hq
  rcases List.mem_append.mp hq with hearlier | hown
  · exact Nat.le_succ_of_le (h q hearlier)
  · rw [List.mem_singleton.mp hown]
    exact Nat.le_refl _

theorem Counted.put (h : d.Counted) (result : Result) : (d.put result).Counted :=
  fun q hq => Nat.le_succ_of_le (h q hq)

theorem Counted.leave (h : d.Counted) (result : Result) : (d.leave result).Counted :=
  fun q hq => Nat.le_succ_of_le (h q hq)

theorem Counted.answer (h : d.Counted) (hst : d.answer index result = some t) : t.Counted := by
  obtain ⟨before, number, query, after, -, hsplit, rfl⟩ := answer_split hst
  intro q hq
  exact h q (rest_of_split hsplit hq)

/-- No query is under way for an input that has not been made yet. -/
theorem Counted.none_ahead (h : d.Counted) : ¬ ∃ q ∈ d.pending, q.1 = d.inputs + 1 := by
  rintro ⟨q, hq, hnumber⟩
  have hbound := h q hq
  omega

theorem known_put (h : d.Counted) (result : Result) : (d.put result).Known result :=
  ⟨h.none_ahead, rfl⟩

theorem known_leave (h : d.Counted) (result : Result) : (d.leave result).Known result :=
  ⟨h.none_ahead, rfl⟩

theorem Known.answer (h : d.Known shown) (hst : d.answer index result = some t) :
    t.Known shown := by
  obtain ⟨before, number, query, after, -, hsplit, rfl⟩ := answer_split hst
  have hearlier : number ≠ d.inputs := fun hlatest =>
    h.1 ⟨(number, query), mem_of_split hsplit, hlatest⟩
  refine ⟨?_, (if_neg hearlier).trans h.2⟩
  rintro ⟨q, hq, hnumber⟩
  exact h.1 ⟨q, rest_of_split hsplit hq, hnumber⟩

/-- Once nothing is under way, the result of the latest input is shown. -/
theorem Following.settled (h : d.Following) (hpending : d.pending = []) :
    d.result = some d.shown := by
  refine h.resolve_left ?_
  rintro ⟨q, hq, -⟩
  rw [hpending] at hq
  cases hq

end Display

end TeamUp
