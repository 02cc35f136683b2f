import Mathlib.Algebra.GroupWithZero.Nat
import TeamUp.ForkJoin

/-!
# Loops that reads return into

The loop of an observer starts its reads one after the other.  A read may return before the
loop has come to the later elements, so a group may have been left as often as it was entered
in the middle of the loop.  It is joined only after the loop has handed over the block, and
the rest of the loop does not depend on what has returned.  Taking that rest at once therefore
turns a run of interrupted loops into one of loops that run in one go.

The answers are kept beside their group, so that what is published can be told from them.
-/

namespace TeamUp

/-- A snapshot with the group its loop fills. -/
structure OpenFork (Snapshot Element Item Response Entry Value : Type) where
  snapshot : Snapshot
  /-- The elements the loop has not come to; none once it is over. -/
  rest : Option (List Element)
  group : Group Item Entry
  /-- The reads that have returned, in that order, with their responses. -/
  answers : List (Item × Response)
  published : List Value
deriving DecidableEq

namespace OpenFork

variable {Snapshot Element Item Response Entry Value : Type}

/-- The loop is over, and every read has returned. -/
def Returned (f : OpenFork Snapshot Element Item Response Entry Value) : Prop :=
  f.rest = none ∧ f.group.waiting = []

/-- Moreover no block waits to run. -/
def Settled (f : OpenFork Snapshot Element Item Response Entry Value) : Prop :=
  f.Returned ∧ f.group.joinable = false

instance [DecidableEq Element] [DecidableEq Item]
    (f : OpenFork Snapshot Element Item Response Entry Value) : Decidable f.Settled :=
  inferInstanceAs (Decidable ((f.rest = none ∧ f.group.waiting = []) ∧ f.group.joinable = false))

/-- The steps a fork can still take: two for each element to come, one for each read under way,
    and those of the block. -/
def stepsLeft (f : OpenFork Snapshot Element Item Response Entry Value) : Nat :=
  (match f.rest with
    | some rest => 2 * rest.length + 2
    | none => if f.group.notified then 1 else 0) + f.group.waiting.length

end OpenFork

structure OpenBoard (Snapshot Element Item Response Entry Value : Type) where
  forks : List (OpenFork Snapshot Element Item Response Entry Value)
  mirror : Value
deriving DecidableEq

namespace OpenBoard

variable {Snapshot Element Item Response Entry Value : Type}

def initial (mirror : Value) : OpenBoard Snapshot Element Item Response Entry Value :=
  { forks := [], mirror }

def stepsLeft (b : OpenBoard Snapshot Element Item Response Entry Value) : Nat :=
  (b.forks.map OpenFork.stepsLeft).sum

end OpenBoard

inductive OpenEvent (Snapshot Response : Type) where
  | observed (snapshot : Snapshot)
  /-- The loop takes its next element, or hands over the block. -/
  | advanced (fork : Nat)
  | returned (fork index : Nat) (response : Response)
  | joined (fork : Nat)
deriving DecidableEq

/-- What happens if loops run in one go. -/
def OpenEvent.closed? {Snapshot Response : Type} :
    OpenEvent Snapshot Response → Option (BoardEvent Snapshot Response)
  | .observed snapshot => some (.observed snapshot)
  | .advanced _ => none
  | .returned fork index response => some (.returned fork index response)
  | .joined fork => some (.joined fork)

namespace Observer

variable {Snapshot Element Item Response Entry Value : Type}
variable (O : Observer Snapshot Element Item Response Entry Value)

def advance (f : OpenFork Snapshot Element Item Response Entry Value) :
    Option (OpenFork Snapshot Element Item Response Entry Value) :=
  match f.rest with
  | some (e :: rest) =>
      match O.start e with
      | some item => some { f with rest := some rest, group := f.group.enter item }
      | none => some { f with rest := none }
  | some [] => some { f with rest := none, group := f.group.notify }
  | none => none

def answer (f : OpenFork Snapshot Element Item Response Entry Value) (index : Nat)
    (response : Response) : Option (OpenFork Snapshot Element Item Response Entry Value) :=
  match f.group.waiting[index]? with
  | some item =>
      let rest := { f.group with waiting := f.group.waiting.eraseIdx index }
      some { f with
        group := O.finish rest item response, answers := f.answers ++ [(item, response)] }
  | none => none

def openObserve (b : OpenBoard Snapshot Element Item Response Entry Value) (snapshot : Snapshot) :
    OpenBoard Snapshot Element Item Response Entry Value :=
  match O.react snapshot with
  | .inl value => { forks := b.forks ++ [⟨snapshot, none, .new, [], [value]⟩], mirror := value }
  | .inr elements => { b with forks := b.forks ++ [⟨snapshot, some elements, .new, [], []⟩] }

def openStep (b : OpenBoard Snapshot Element Item Response Entry Value) :
    OpenEvent Snapshot Response → Option (OpenBoard Snapshot Element Item Response Entry Value)
  | .observed x => some (O.openObserve b x)
  | .advanced i =>
      (b.forks[i]?.bind O.advance).map fun f => { b with forks := b.forks.set i f }
  | .returned i index response =>
      (b.forks[i]?.bind fun f => O.answer f index response).map fun f =>
        { b with forks := b.forks.set i f }
  | .joined i =>
      match b.forks[i]? with
      | some f =>
          if f.group.joinable then
            let value := O.join f.group.gathered
            some {
              forks := b.forks.set i { f with
                group := { f.group with notified := false }
                published := f.published ++ [value] }
              mirror := value }
          else none
      | none => none

/-! ### What a step can do -/

variable {O}
variable {f g : OpenFork Snapshot Element Item Response Entry Value}
variable {b c : OpenBoard Snapshot Element Item Response Entry Value}

theorem advance_cases (h : O.advance f = some g) :
    (∃ e rest item, f.rest = some (e :: rest) ∧ O.start e = some item ∧
      g = { f with rest := some rest, group := f.group.enter item }) ∨
    (∃ e rest, f.rest = some (e :: rest) ∧ O.start e = none ∧ g = { f with rest := none }) ∨
    (f.rest = some [] ∧ g = { f with rest := none, group := f.group.notify }) := by
  unfold advance at h
  split at h
  · rename_i e rest hrest
    split at h
    · rename_i item hitem
      exact Or.inl ⟨e, rest, item, hrest, hitem, (Option.some.inj h).symm⟩
    · rename_i hnone
      exact Or.inr (Or.inl ⟨e, rest, hrest, hnone, (Option.some.inj h).symm⟩)
  · rename_i hrest
    exact Or.inr (Or.inr ⟨hrest, (Option.some.inj h).symm⟩)
  · cases h

theorem openStep_advanced {i : Nat} (h : O.openStep b (.advanced i) = some c) :
    ∃ before f after g, b.forks = before ++ f :: after ∧ before.length = i ∧
      O.advance f = some g ∧ c = { b with forks := before ++ g :: after } := by
  obtain ⟨g, hg, rfl⟩ := Option.map_eq_some_iff.mp h
  obtain ⟨f, hf, hadvance⟩ := Option.bind_eq_some_iff.mp hg
  obtain ⟨before, after, hforks, hi⟩ := split_at hf
  refine ⟨before, f, after, g, hforks, hi, hadvance, ?_⟩
  rw [hforks, ← hi, set_split]

theorem openStep_returned {i index : Nat} {response : Response}
    (h : O.openStep b (.returned i index response) = some c) :
    ∃ before f after earlier item later, b.forks = before ++ f :: after ∧ before.length = i ∧
      f.group.waiting = earlier ++ item :: later ∧ earlier.length = index ∧
      c = { b with forks := before ++ { f with
        group := O.finish { f.group with waiting := earlier ++ later } item response
        answers := f.answers ++ [(item, response)] } :: after } := by
  obtain ⟨g, hg, rfl⟩ := Option.map_eq_some_iff.mp h
  obtain ⟨f, hf, hanswer⟩ := Option.bind_eq_some_iff.mp hg
  obtain ⟨before, after, hforks, hi⟩ := split_at hf
  simp only [answer] at hanswer
  split at hanswer
  · rename_i item hitem
    obtain ⟨earlier, later, hwaiting, hindex⟩ := split_at hitem
    refine ⟨before, f, after, earlier, item, later, hforks, hi, hwaiting, hindex, ?_⟩
    rw [← Option.some.inj hanswer, hforks, ← hi, set_split, hwaiting, ← hindex, eraseIdx_split]
  · cases hanswer

theorem openStep_joined {i : Nat} (h : O.openStep b (.joined i) = some c) :
    ∃ before f after, b.forks = before ++ f :: after ∧ before.length = i ∧
      f.group.joinable = true ∧
      c = {
        forks := before ++ { f with
          group := { f.group with notified := false }
          published := f.published ++ [O.join f.group.gathered] } :: after
        mirror := O.join f.group.gathered } := by
  simp only [openStep] at h
  split at h
  · rename_i f hf
    obtain ⟨hjoin, rfl⟩ := of_guarded h
    obtain ⟨before, after, hforks, hi⟩ := split_at hf
    refine ⟨before, f, after, hforks, hi, hjoin, ?_⟩
    rw [hforks, ← hi, set_split]
  · cases h

/-! ### Loops taken at once -/

variable (O) in
/-- The fork when the rest of its loop is taken at once. -/
def closed (f : OpenFork Snapshot Element Item Response Entry Value) :
    Fork Snapshot Item Entry Value :=
  { snapshot := f.snapshot
    group := match f.rest with
      | some rest => O.loop rest f.group
      | none => f.group
    published := f.published }

variable (O) in
def closedBoard (b : OpenBoard Snapshot Element Item Response Entry Value) :
    Board Snapshot Item Entry Value :=
  { forks := b.forks.map O.closed, mirror := b.mirror }

theorem group_closed (h : f.rest = none) : (O.closed f).group = f.group := by simp [closed, h]

/-- A step of the loop is no step of a loop that is taken at once. -/
theorem closed_advance (h : O.advance f = some g) : O.closed g = O.closed f := by
  rcases advance_cases h with ⟨e, rest, item, hrest, hitem, rfl⟩ | ⟨e, rest, hrest, hnone, rfl⟩ |
    ⟨hrest, rfl⟩
  · simp [closed, hrest, loop, hitem]
  · simp [closed, hrest, loop, hnone]
  · simp [closed, hrest, loop]

theorem enter_finish {g : Group Item Entry} (hcount : 0 < g.count) (waiting : List Item)
    (item next : Item) (response : Response) :
    (O.finish { g with waiting } item response).enter next =
      O.finish { g.enter next with waiting := waiting ++ [next] } item response := by
  unfold finish
  split
  · simp only [Group.enter, Group.leave, Group.mk.injEq, true_and, and_true]
    omega
  · rfl

/-- **The rest of the loop does not depend on what returns.** -/
theorem loop_finish (rest : List Element) {g : Group Item Entry} {earlier later : List Item}
    {item : Item} (hwaiting : g.waiting = earlier ++ item :: later) (hcount : 0 < g.count)
    (response : Response) :
    ∃ more, (O.loop rest g).waiting = earlier ++ item :: more ∧
      O.loop rest (O.finish { g with waiting := earlier ++ later } item response) =
        O.finish { O.loop rest g with waiting := earlier ++ more } item response := by
  induction rest generalizing g later with
  | nil =>
    refine ⟨later, hwaiting, ?_⟩
    simp only [loop, finish]
    split <;> rfl
  | cons e rest ih =>
    cases hstart : O.start e with
    | none =>
      refine ⟨later, ?_, ?_⟩
      · simpa [loop, hstart] using hwaiting
      · simp [loop, hstart]
    | some next =>
      have hentered : (g.enter next).waiting = earlier ++ item :: (later ++ [next]) := by
        simp [Group.enter, hwaiting]
      obtain ⟨more, hmore, hloop⟩ := ih hentered (Nat.succ_pos g.count)
      refine ⟨more, ?_, ?_⟩
      · simpa [loop, hstart] using hmore
      · simp only [loop, hstart]
        rw [enter_finish hcount, List.append_assoc]
        exact hloop

/-- Where a fork stands while its loop may be running. -/
structure OpenSound (O : Observer Snapshot Element Item Response Entry Value)
    (R : Item → Response → Prop) (f : OpenFork Snapshot Element Item Response Entry Value) :
    Prop where
  counted : f.group.waiting.length ≤ f.group.count
  running : f.rest ≠ none → f.group.notified = false
  ended : ∀ value, O.react f.snapshot = .inl value → f.rest = none
  suffix : ∀ elements, O.react f.snapshot = .inr elements →
    ∀ rest, f.rest = some rest → rest <:+ elements
  accounts : ∀ elements, O.react f.snapshot = .inr elements → (∀ e ∈ elements, O.start e ≠ none) →
    Accounts O R (elements.filterMap O.start) (O.closed f).group f.answers

variable {R : Item → Response → Prop}

/-- An answer to a fork is one to the fork whose loop is taken at once. -/
theorem OpenSound.closed_answer (h : OpenSound O R f) {earlier later : List Item} {item : Item}
    (hwaiting : f.group.waiting = earlier ++ item :: later) (response : Response)
    (answers : List (Item × Response)) :
    ∃ more, (O.closed f).group.waiting = earlier ++ item :: more ∧
      O.closed { f with
        group := O.finish { f.group with waiting := earlier ++ later } item response, answers } =
        { O.closed f with
          group :=
            O.finish { (O.closed f).group with waiting := earlier ++ more } item response } := by
  have hcount : 0 < f.group.count := by
    have hcounted := h.counted
    rw [hwaiting, List.length_append, List.length_cons] at hcounted
    omega
  cases hrest : f.rest with
  | none =>
    refine ⟨later, ?_, ?_⟩
    · simpa [closed, hrest] using hwaiting
    · simp [closed, hrest]
  | some rest =>
    obtain ⟨more, hmore, hloop⟩ := loop_finish (O := O) rest hwaiting hcount response
    refine ⟨more, ?_, ?_⟩
    · simpa [closed, hrest] using hmore
    · simp only [closed, hrest, hloop]

theorem OpenSound.loop_ended (h : OpenSound O R f) {group : Group Item Entry}
    (hcounted : group.waiting.length ≤ group.count)
    (hclosed : O.closed { f with rest := none, group } = O.closed f) :
    OpenSound O R { f with rest := none, group } where
  counted := hcounted
  running := fun hrunning => (hrunning rfl).elim
  ended := fun _ _ => rfl
  suffix := fun _ _ _ hrest => by cases hrest
  accounts := by
    intro elements hreact hstarts
    rw [hclosed]
    exact h.accounts elements hreact hstarts

theorem OpenSound.advance (h : OpenSound O R f) (hst : O.advance f = some g) :
    OpenSound O R g := by
  have hclosed := closed_advance hst
  rcases advance_cases hst with ⟨e, rest, item, hrest, hitem, rfl⟩ | ⟨e, rest, hrest, hnone, rfl⟩ |
    ⟨hrest, rfl⟩
  · refine ⟨?_, fun _ => h.running (by simp [hrest]), fun value hreact => ?_,
      fun elements hreact rest' hrest' => ?_, fun elements hreact hstarts => ?_⟩
    · simpa [Group.enter] using h.counted
    · rw [h.ended value hreact] at hrest
      cases hrest
    · obtain rfl := Option.some.inj hrest'
      exact (List.suffix_cons e rest).trans (h.suffix elements hreact _ hrest)
    · rw [hclosed]
      exact h.accounts elements hreact hstarts
  · exact h.loop_ended h.counted hclosed
  · exact h.loop_ended h.counted hclosed

theorem OpenSound.answer (h : OpenSound O R f) {earlier later : List Item} {item : Item}
    (hwaiting : f.group.waiting = earlier ++ item :: later) {response : Response}
    (hR : R item response) :
    OpenSound O R { f with
      group := O.finish { f.group with waiting := earlier ++ later } item response
      answers := f.answers ++ [(item, response)] } := by
  obtain ⟨more, hmore, hclosed⟩ :=
    h.closed_answer hwaiting response (f.answers ++ [(item, response)])
  refine ⟨?_, fun hrunning => ?_, h.ended, h.suffix, fun elements hreact hstarts => ?_⟩
  · have hcounted := h.counted
    rw [hwaiting, List.length_append, List.length_cons] at hcounted
    unfold finish
    split <;> simp [Group.leave] <;> omega
  · rw [notified_finish]
    exact h.running hrunning
  · rw [hclosed]
    exact (h.accounts elements hreact hstarts).finish hmore hR

theorem OpenSound.over_of_joinable (h : OpenSound O R f) (hjoin : f.group.joinable = true) :
    f.rest = none := by
  by_contra hrunning
  simp [Group.joinable, h.running hrunning] at hjoin

theorem OpenSound.join (h : OpenSound O R f) (hjoin : f.group.joinable = true)
    (published : List Value) :
    OpenSound O R { f with group := { f.group with notified := false }, published } := by
  have hover := h.over_of_joinable hjoin
  refine ⟨h.counted, fun _ => rfl, h.ended, h.suffix, fun elements hreact hstarts => ?_⟩
  have haccounts := h.accounts elements hreact hstarts
  rw [group_closed hover] at haccounts
  rw [group_closed (by exact hover)]
  exact ⟨haccounts.items, haccounts.permitted, haccounts.gathered, haccounts.count⟩

/-! ### Steps -/

/-- The snapshots satisfy `V`, and the responses of the reads `R`. -/
def OpenPermitted (V : Snapshot → Prop) (R : Item → Response → Prop)
    (b : OpenBoard Snapshot Element Item Response Entry Value) :
    OpenEvent Snapshot Response → Prop
  | .observed x => V x
  | .returned i index response =>
      ∀ f ∈ b.forks[i]?, ∀ item ∈ f.group.waiting[index]?, R item response
  | .advanced _ | .joined _ => True

instance (V : Snapshot → Prop) (R : Item → Response → Prop) [DecidablePred V]
    [∀ item response, Decidable (R item response)]
    (b : OpenBoard Snapshot Element Item Response Entry Value) (e : OpenEvent Snapshot Response) :
    Decidable (OpenPermitted V R b e) := by
  cases e <;> unfold OpenPermitted <;> infer_instance

theorem OpenPermitted.response {V : Snapshot → Prop} {i index : Nat} {response : Response}
    (hok : OpenPermitted V R b (.returned i index response))
    {before after : List (OpenFork Snapshot Element Item Response Entry Value)}
    (hforks : b.forks = before ++ f :: after) (hi : before.length = i)
    {earlier later : List Item} {item : Item}
    (hwaiting : f.group.waiting = earlier ++ item :: later) (hindex : earlier.length = index) :
    R item response := by
  refine hok f ?_ item ?_
  · rw [hforks, ← hi]
    simp
  · rw [hwaiting, ← hindex]
    simp

def AllOpenSound (O : Observer Snapshot Element Item Response Entry Value)
    (R : Item → Response → Prop) (b : OpenBoard Snapshot Element Item Response Entry Value) :
    Prop :=
  ∀ f ∈ b.forks, OpenSound O R f

variable {V : Snapshot → Prop} {e : OpenEvent Snapshot Response}

theorem OpenPermitted.mono {V' : Snapshot → Prop} (hok : OpenPermitted V R b e)
    (h : ∀ x, V x → V' x) : OpenPermitted V' R b e := by
  cases e with
  | observed x => exact h x hok
  | advanced i | returned i index response | joined i => exact hok

theorem openSound_answered {x : Snapshot} {value : Value} (h : O.react x = .inl value) :
    OpenSound O R ⟨x, none, .new, [], [value]⟩ where
  counted := Nat.le_refl _
  running := fun hrunning => (hrunning rfl).elim
  ended := fun _ _ => rfl
  suffix := fun _ _ _ hrest => by cases hrest
  accounts := fun _ hreact => by cases h.symm.trans hreact

theorem openSound_forked {x : Snapshot} {elements : List Element}
    (h : O.react x = .inr elements) : OpenSound O R ⟨x, some elements, .new, [], []⟩ where
  counted := Nat.le_refl _
  running := fun _ => rfl
  ended := fun _ hreact => by cases h.symm.trans hreact
  suffix := by
    intro elements' hreact rest hrest
    obtain rfl := Sum.inr.inj (h.symm.trans hreact)
    obtain rfl := Option.some.inj hrest
    exact List.suffix_refl _
  accounts := by
    intro elements' hreact hstarts
    obtain rfl := Sum.inr.inj (h.symm.trans hreact)
    exact accounts_loop hstarts

theorem AllOpenSound.step (h : AllOpenSound O R b) (hok : OpenPermitted V R b e)
    (hst : O.openStep b e = some c) : AllOpenSound O R c := by
  cases e with
  | observed x =>
    obtain rfl := Option.some.inj hst
    unfold openObserve
    split
    · rename_i value hreact
      exact List.forall_mem_append.mpr
        ⟨h, List.forall_mem_singleton.mpr (openSound_answered hreact)⟩
    · rename_i elements hreact
      exact List.forall_mem_append.mpr ⟨h, List.forall_mem_singleton.mpr (openSound_forked hreact)⟩
  | advanced i =>
    obtain ⟨before, f, after, g, hforks, -, hadvance, rfl⟩ := openStep_advanced hst
    exact forall_of_split h hforks ((h f (mem_of_split hforks)).advance hadvance)
  | returned i index response =>
    obtain ⟨before, f, after, earlier, item, later, hforks, hi, hwaiting, hindex, rfl⟩ :=
      openStep_returned hst
    have hR := hok.response hforks hi hwaiting hindex
    exact forall_of_split h hforks ((h f (mem_of_split hforks)).answer hwaiting hR)
  | joined i =>
    obtain ⟨before, f, after, hforks, -, hjoin, rfl⟩ := openStep_joined hst
    exact forall_of_split h hforks ((h f (mem_of_split hforks)).join hjoin _)

/-- A step of the loop changes nothing, if loops are taken at once. -/
theorem closedBoard_of_advanced (hst : O.openStep b e = some c) (he : e.closed? = none) :
    O.closedBoard c = O.closedBoard b := by
  cases e with
  | advanced i =>
    obtain ⟨before, f, after, g, hforks, -, hadvance, rfl⟩ := openStep_advanced hst
    simp [closedBoard, hforks, closed_advance hadvance]
  | observed x | returned i index response | joined i => cases he

/-- **Any other step is one of loops that are taken at once.** -/
theorem step_closedBoard (h : AllOpenSound O R b) (hok : OpenPermitted V R b e)
    (hst : O.openStep b e = some c) {e' : BoardEvent Snapshot Response}
    (he : e.closed? = some e') :
    Permitted V R (O.closedBoard b) e' ∧ O.step (O.closedBoard b) e' = some (O.closedBoard c) := by
  cases e with
  | observed x =>
    obtain rfl := Option.some.inj he
    obtain rfl := Option.some.inj hst
    refine ⟨hok, congrArg some ?_⟩
    cases hreact : O.react x with
    | inl value => simp [observe, openObserve, hreact, closedBoard, closed]
    | inr elements => simp [observe, openObserve, hreact, closedBoard, closed]
  | advanced i => cases he
  | returned i index response =>
    obtain rfl := Option.some.inj he
    obtain ⟨before, f, after, earlier, item, later, hforks, rfl, hwaiting, rfl, rfl⟩ :=
      openStep_returned hst
    obtain ⟨more, hmore, hclosed⟩ := (h f (mem_of_split hforks)).closed_answer hwaiting response
      (f.answers ++ [(item, response)])
    have hfork : (O.closedBoard b).forks[before.length]? = some (O.closed f) := by
      simp [closedBoard, hforks]
    have hitem : (O.closed f).group.waiting[earlier.length]? = some item := by
      simp [hmore]
    constructor
    · intro g hg item' hitem'
      obtain rfl := Option.some.inj (hfork.symm.trans hg)
      obtain rfl := Option.some.inj (hitem.symm.trans hitem')
      exact hok.response hforks rfl hwaiting rfl
    · have herase : (O.closed f).group.waiting.eraseIdx earlier.length = earlier ++ more := by
        rw [hmore, eraseIdx_split]
      simp only [step, hfork, hitem, herase]
      simp [closedBoard, hforks, hclosed]
  | joined i =>
    obtain rfl := Option.some.inj he
    obtain ⟨before, f, after, hforks, rfl, hjoin, rfl⟩ := openStep_joined hst
    have hover := (h f (mem_of_split hforks)).over_of_joinable hjoin
    have hfork : (O.closedBoard b).forks[before.length]? =
        some ⟨f.snapshot, f.group, f.published⟩ := by
      simp [closedBoard, hforks, closed, hover]
    refine ⟨trivial, ?_⟩
    simp only [step, hfork, hjoin, if_true]
    simp [closedBoard, hforks, closed, hover]

/-! ### Runs -/

section Runs

variable {mirror : Value} {events : List (OpenEvent Snapshot Response)}

theorem allOpenSound_run
    (run : Run O.openStep (OpenPermitted V R) (OpenBoard.initial mirror) events b) :
    AllOpenSound O R b :=
  run.invariant (AllOpenSound O R) (fun _ _ _ hu hok hst => hu.step hok hst)
    fun _ hf => by cases hf

/-- **A run of interrupted loops is one of loops that run in one go**, with the same answers and
    the same publications. -/
theorem closed_run
    (run : Run O.openStep (OpenPermitted V R) (OpenBoard.initial mirror) events b) :
    Run O.step (Permitted V R) (Board.initial mirror) (events.filterMap OpenEvent.closed?)
      (O.closedBoard b) := by
  have hkeeping := run.keeping (AllOpenSound O R) (fun _ _ _ hu hok hst => hu.step hok hst)
    fun _ hf => by cases hf
  exact hkeeping.project O.closedBoard OpenEvent.closed?
    (fun _ _ _ hst he => closedBoard_of_advanced hst he)
    (fun _ _ _ _ hok hst he => step_closedBoard hok.2 hok.1 hst he)

theorem sound_closed (run : Run O.openStep (OpenPermitted V R) (OpenBoard.initial mirror) events b)
    (hf : f ∈ b.forks) : V f.snapshot ∧ Sound O R (O.closed f) :=
  allSound_run (closed_run run) (O.closed f) (List.mem_map_of_mem hf)

/-- What is published at once. -/
theorem published_of_answered
    (run : Run O.openStep (OpenPermitted V R) (OpenBoard.initial mirror) events b)
    (hf : f ∈ b.forks) {value : Value} (hreact : O.react f.snapshot = .inl value) :
    f.Returned ∧ f.published = [value] := by
  obtain ⟨-, hsound⟩ := sound_closed run hf
  have hover := (allOpenSound_run run f hf).ended value hreact
  have hgroup := hsound.group_of_answer hreact
  rw [group_closed hover] at hgroup
  refine ⟨⟨hover, ?_⟩, hsound.published_of_answer hreact⟩
  rw [hgroup]
  rfl

/-- **A group publishes nothing before every read has returned, and then once**, what is joined
    from one answer for each element. -/
theorem published_of_forked
    (run : Run O.openStep (OpenPermitted V R) (OpenBoard.initial mirror) events b)
    (hf : f ∈ b.forks) {elements : List Element} (hreact : O.react f.snapshot = .inr elements)
    (hstarts : ∀ e ∈ elements, O.start e ≠ none)
    (hleaves : ∀ item response, (O.completion item response).isSome) :
    f.published = [] ∧ ¬ f.Settled ∨
      f.Returned ∧ (f.answers.map Prod.fst).Perm (elements.filterMap O.start) ∧
        f.published = [O.join (f.answers.filterMap fun a => (O.completion a.1 a.2).join)] := by
  have hopen := allOpenSound_run run f hf
  have haccounts := hopen.accounts elements hreact hstarts
  have hcount : (O.closed f).group.count = (O.closed f).group.waiting.length := by
    rw [haccounts.count, Nat.add_eq_left, List.countP_eq_zero]
    intro a _
    simp [Option.isSome_iff_ne_none.mp (hleaves a.1 a.2)]
  rcases (sound_closed run hf).2.published_cases hreact hstarts with ⟨hnone, hnotified⟩ |
    ⟨hone, hzero, hjoined⟩
  · refine Or.inl ⟨hnone, ?_⟩
    rintro ⟨⟨hover, hwaiting⟩, hjoin⟩
    rw [group_closed hover] at hcount hnotified
    rw [hwaiting, List.length_nil] at hcount
    simp [Group.joinable, hcount, hnotified] at hjoin
  · have hwaiting : (O.closed f).group.waiting = [] :=
      List.length_eq_zero_iff.mp (hcount.symm.trans hzero)
    have hover : f.rest = none := by
      cases hrest : f.rest with
      | none => rfl
      | some rest =>
        -- the rest of a running loop would hand over the block
        have hsuffix := hopen.suffix elements hreact rest hrest
        have hloop := loop_of_starts (fun e he => hstarts e (hsuffix.subset he)) f.group
        simp [closed, hrest, hloop] at hjoined
    have hitems := haccounts.items
    rw [hwaiting, List.append_nil] at hitems
    rw [haccounts.gathered] at hone
    rw [group_closed hover] at hwaiting
    exact Or.inr ⟨⟨hover, hwaiting⟩, hitems, hone⟩

end Runs

/-! ### The end of a run -/

theorem stepsLeft_advance (h : O.advance f = some g) : g.stepsLeft < f.stepsLeft := by
  rcases advance_cases h with ⟨e, rest, item, hrest, -, rfl⟩ | ⟨e, rest, hrest, -, rfl⟩ |
    ⟨hrest, rfl⟩
  · simp only [OpenFork.stepsLeft, hrest, Group.enter, List.length_append, List.length_cons,
      List.length_nil]
    omega
  · simp only [OpenFork.stepsLeft, hrest, List.length_cons]
    split <;> omega
  · simp only [OpenFork.stepsLeft, hrest, Group.notify, if_true, List.length_nil]
    omega

theorem sum_stepsLeft_lt
    {before after : List (OpenFork Snapshot Element Item Response Entry Value)}
    (h : g.stepsLeft < f.stepsLeft) :
    ((before ++ g :: after).map OpenFork.stepsLeft).sum <
      ((before ++ f :: after).map OpenFork.stepsLeft).sum := by
  simp only [List.map_append, List.map_cons, List.sum_append, List.sum_cons]
  omega

/-- Every step but a new snapshot leaves fewer. -/
theorem stepsLeft_openStep (h : AllOpenSound O R b)
    (hok : OpenPermitted (fun _ => False) R b e) (hst : O.openStep b e = some c) :
    c.stepsLeft < b.stepsLeft := by
  cases e with
  | observed x => exact hok.elim
  | advanced i =>
    obtain ⟨before, f, after, g, hforks, -, hadvance, rfl⟩ := openStep_advanced hst
    simp only [OpenBoard.stepsLeft, hforks]
    exact sum_stepsLeft_lt (stepsLeft_advance hadvance)
  | returned i index response =>
    obtain ⟨before, f, after, earlier, item, later, hforks, -, hwaiting, -, rfl⟩ :=
      openStep_returned hst
    simp only [OpenBoard.stepsLeft, hforks]
    refine sum_stepsLeft_lt ?_
    simp only [OpenFork.stepsLeft, notified_finish, waiting_finish, hwaiting, List.length_append,
      List.length_cons]
    omega
  | joined i =>
    obtain ⟨before, f, after, hforks, -, hjoin, rfl⟩ := openStep_joined hst
    have hover := (h f (mem_of_split hforks)).over_of_joinable hjoin
    have hnotified : f.group.notified = true := ((Bool.and_eq_true _ _).mp hjoin).1
    simp only [OpenBoard.stepsLeft, hforks]
    refine sum_stepsLeft_lt ?_
    simp [OpenFork.stepsLeft, hover, hnotified]

/-- **Without new snapshots a run ends.** -/
theorem length_add_stepsLeft_le (h : AllOpenSound O R b)
    {events : List (OpenEvent Snapshot Response)}
    (run : Run O.openStep (OpenPermitted (fun _ => False) R) b events c) :
    events.length + c.stepsLeft ≤ b.stepsLeft := by
  have hboth := run.history
    (fun done u => AllOpenSound O R u ∧ done.length + u.stepsLeft ≤ b.stepsLeft)
    (by
      rintro done u e v ⟨hu, hle⟩ hok hst
      have hless := stepsLeft_openStep hu hok hst
      refine ⟨hu.step hok hst, ?_⟩
      rw [List.length_append, List.length_singleton]
      omega)
    ⟨h, Nat.le_of_eq (Nat.zero_add _)⟩
  exact hboth.2

/-- Where no step is possible everything is settled. -/
theorem settled_of_stuck (response : Response)
    (h : ∀ e : OpenEvent Snapshot Response, (∀ x, e ≠ .observed x) → O.openStep b e = none) :
    ∀ f ∈ b.forks, f.Settled := by
  intro f hf
  obtain ⟨i, hi⟩ := List.getElem?_of_mem hf
  have hadvanced := h (.advanced i) (fun _ heq => by cases heq)
  have hreturned := h (.returned i 0 response) (fun _ heq => by cases heq)
  have hjoined := h (.joined i) (fun _ heq => by cases heq)
  simp only [openStep, hi, Option.bind_some, Option.map_eq_none_iff] at hadvanced hreturned hjoined
  refine ⟨⟨?_, ?_⟩, ?_⟩
  · unfold advance at hadvanced
    split at hadvanced
    · split at hadvanced <;> cases hadvanced
    · cases hadvanced
    · rename_i hover
      exact hover
  · unfold answer at hreturned
    split at hreturned
    · cases hreturned
    · rename_i hnone
      exact List.length_eq_zero_iff.mp (Nat.le_zero.mp (List.getElem?_eq_none_iff.mp hnone))
  · split at hjoined
    · cases hjoined
    · rename_i hnot
      exact Bool.eq_false_iff.mpr hnot

end Observer

end TeamUp
