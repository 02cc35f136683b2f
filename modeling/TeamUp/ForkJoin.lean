import TeamUp.Runs
import Mathlib.Data.List.Perm.Basic
import Mathlib.Data.List.Basic

/-!
# Groups of reads that are joined

An observer is handed one snapshot after the other.  For each it publishes a value
at once, or runs a loop that starts one read for each element of the snapshot and
publishes what they found when the group they entered has been left as often.  Reads
return in any order, also those of different snapshots.

Two things can go wrong.  A loop body that returns from the observer, or a read that
returns without leaving its group, keeps the group from being joined; and a group
that is joined late overwrites what a newer snapshot has published.
-/

namespace TeamUp

/-- The body of an observer that forks a group of reads. -/
structure Observer (Snapshot Element Item Response Entry Value : Type) where
  /-- What is published at once, or the elements the loop runs over. -/
  react : Snapshot → Value ⊕ List Element
  /-- The read started for an element; none if the body returns from the observer. -/
  start : Element → Option Item
  /-- What a read that leaves its group appends; none if it does not leave. -/
  completion : Item → Response → Option (Option Entry)
  join : List Entry → Value

structure Group (Item Entry : Type) where
  /-- The reads that have not returned yet. -/
  waiting : List Item
  /-- How many more times the group was entered than left. -/
  count : Nat
  gathered : List Entry
  /-- The block to run at the join was handed over, and has not run. -/
  notified : Bool
deriving DecidableEq

namespace Group

variable {Item Entry : Type}

def new : Group Item Entry := { waiting := [], count := 0, gathered := [], notified := false }

def enter (g : Group Item Entry) (item : Item) : Group Item Entry :=
  { g with waiting := g.waiting ++ [item], count := g.count + 1 }

def leave (g : Group Item Entry) (entry : Option Entry) : Group Item Entry :=
  { g with gathered := g.gathered ++ entry.toList, count := g.count - 1 }

def notify (g : Group Item Entry) : Group Item Entry := { g with notified := true }

def joinable (g : Group Item Entry) : Bool := g.notified && decide (g.count = 0)

end Group

/-- A snapshot with the group it started and what was published for it. -/
structure Fork (Snapshot Item Entry Value : Type) where
  snapshot : Snapshot
  group : Group Item Entry
  published : List Value
deriving DecidableEq

/-- No read of the fork is under way, and no block waits to run. -/
def Fork.Settled {Snapshot Item Entry Value : Type} (f : Fork Snapshot Item Entry Value) : Prop :=
  f.group.waiting = [] ∧ f.group.joinable = false

/-- What was published last, and the snapshots received so far. -/
structure Board (Snapshot Item Entry Value : Type) where
  forks : List (Fork Snapshot Item Entry Value)
  mirror : Value
deriving DecidableEq

namespace Board

variable {Snapshot Item Entry Value : Type}

def initial (mirror : Value) : Board Snapshot Item Entry Value := { forks := [], mirror }

def Settled (b : Board Snapshot Item Entry Value) : Prop := ∀ f ∈ b.forks, f.Settled

instance [DecidableEq Item] (b : Board Snapshot Item Entry Value) : Decidable b.Settled :=
  inferInstanceAs (Decidable (∀ f ∈ b.forks, f.group.waiting = [] ∧ f.group.joinable = false))

/-- Everything published, in the order of the snapshots. -/
def publications (b : Board Snapshot Item Entry Value) : List Value :=
  b.forks.flatMap Fork.published

end Board

inductive BoardEvent (Snapshot Response : Type) where
  | observed (snapshot : Snapshot)
  | returned (fork index : Nat) (response : Response)
  | joined (fork : Nat)
deriving DecidableEq

namespace Observer

variable {Snapshot Element Item Response Entry Value : Type}
variable (O : Observer Snapshot Element Item Response Entry Value)

/-- The loop over the elements, and the call of `notify` after it. -/
def loop : List Element → Group Item Entry → Group Item Entry
  | [], g => g.notify
  | e :: rest, g =>
      match O.start e with
      | some item => loop rest (g.enter item)
      | none => g

/-- The completion of one read. -/
def finish (g : Group Item Entry) (item : Item) (response : Response) : Group Item Entry :=
  match O.completion item response with
  | some entry => g.leave entry
  | none => g

def observe (b : Board Snapshot Item Entry Value) (snapshot : Snapshot) :
    Board Snapshot Item Entry Value :=
  match O.react snapshot with
  | .inl value => { forks := b.forks ++ [⟨snapshot, .new, [value]⟩], mirror := value }
  | .inr elements => { b with forks := b.forks ++ [⟨snapshot, O.loop elements .new, []⟩] }

def step (b : Board Snapshot Item Entry Value) :
    BoardEvent Snapshot Response → Option (Board Snapshot Item Entry Value)
  | .observed snapshot => some (O.observe b snapshot)
  | .returned i index response =>
      match b.forks[i]? with
      | some f =>
          match f.group.waiting[index]? with
          | some item =>
              let rest := { f.group with waiting := f.group.waiting.eraseIdx index }
              some { b with
                forks := b.forks.set i { f with group := O.finish rest item response } }
          | none => none
      | none => none
  | .joined i =>
      match b.forks[i]? with
      | some f =>
          if f.group.joinable then
            let value := O.join f.group.gathered
            some {
              forks := b.forks.set i { f with
                group := { f.group with notified := false }
                published := f.published ++ [value] }
              mirror := value }
          else none
      | none => none

/-! ### What a step can do -/

variable {O}
variable {b c : Board Snapshot Item Entry Value}

theorem step_returned {i index : Nat} {response : Response}
    (h : O.step b (.returned i index response) = some c) :
    ∃ before f after earlier item later,
      b.forks = before ++ f :: after ∧ before.length = i ∧
      f.group.waiting = earlier ++ item :: later ∧ earlier.length = index ∧
      c = { b with forks := before ++ { f with
        group := O.finish { f.group with waiting := earlier ++ later } item response } ::
          after } := by
  simp only [step] at h
  split at h
  · rename_i f hf
    split at h
    · rename_i item hitem
      obtain ⟨before, after, hforks, hi⟩ := split_at hf
      obtain ⟨earlier, later, hwaiting, hindex⟩ := split_at hitem
      refine ⟨before, f, after, earlier, item, later, hforks, hi, hwaiting, hindex, ?_⟩
      rw [← Option.some.inj h, hforks, ← hi, set_split, hwaiting, ← hindex, eraseIdx_split]
    · cases h
  · cases h

theorem step_joined {i : Nat} (h : O.step b (.joined i) = some c) :
    ∃ before f after, b.forks = before ++ f :: after ∧ before.length = i ∧
      f.group.joinable = true ∧
      c = {
        forks := before ++ { f with
          group := { f.group with notified := false }
          published := f.published ++ [O.join f.group.gathered] } :: after
        mirror := O.join f.group.gathered } := by
  simp only [step] at h
  split at h
  · rename_i f hf
    split at h
    · rename_i hjoin
      obtain ⟨before, after, hforks, hi⟩ := split_at hf
      refine ⟨before, f, after, hforks, hi, hjoin, ?_⟩
      rw [← Option.some.inj h, hforks, ← hi, set_split]
    · cases h
  · cases h

/-! ### One group -/

/-- The reads of a group: those that have returned, each with its response, and those
    it waits for are the ones that were started. -/
structure Accounts (O : Observer Snapshot Element Item Response Entry Value)
    (R : Item → Response → Prop) (started : List Item) (g : Group Item Entry)
    (done : List (Item × Response)) : Prop where
  items : (done.map Prod.fst ++ g.waiting).Perm started
  permitted : ∀ d ∈ done, R d.1 d.2
  gathered : g.gathered = done.filterMap fun d => (O.completion d.1 d.2).join
  count : g.count = g.waiting.length + done.countP fun d => (O.completion d.1 d.2).isNone

variable {R : Item → Response → Prop}

theorem Accounts.finish {started : List Item} {g : Group Item Entry}
    {done : List (Item × Response)} (h : Accounts O R started g done)
    {earlier later : List Item} {item : Item} (hwaiting : g.waiting = earlier ++ item :: later)
    {response : Response} (hR : R item response) :
    Accounts O R started (O.finish { g with waiting := earlier ++ later } item response)
      (done ++ [(item, response)]) := by
  have hitems : ((done ++ [(item, response)]).map Prod.fst ++ (earlier ++ later)).Perm started := by
    refine List.Perm.trans ?_ h.items
    rw [hwaiting, List.map_append, List.append_assoc, List.map_singleton, List.singleton_append]
    exact List.perm_middle.symm.append_left _
  have hpermitted : ∀ d ∈ done ++ [(item, response)], R d.1 d.2 := by
    intro d hd
    rcases List.mem_append.mp hd with hold | hnew
    · exact h.permitted d hold
    · rw [List.mem_singleton.mp hnew]
      exact hR
  have hcount := h.count
  simp only [hwaiting, List.length_append, List.length_cons] at hcount
  unfold Observer.finish
  cases hentry : O.completion item response with
  | some entry =>
    refine ⟨hitems, hpermitted, ?_, ?_⟩
    · cases entry <;> simp [Group.leave, h.gathered, hentry]
    · simp only [Group.leave, List.length_append, List.countP_append, List.countP_singleton, hentry,
        Option.isNone_some, Bool.false_eq_true, if_false]
      omega
  | none =>
    refine ⟨hitems, hpermitted, ?_, ?_⟩
    · simp [h.gathered, hentry]
    · simp only [List.length_append, List.countP_append, List.countP_singleton, hentry,
        Option.isNone_none, if_true]
      omega

/-- The loop that no element stops has started all its reads. -/
theorem loop_of_starts {elements : List Element} (h : ∀ e ∈ elements, O.start e ≠ none)
    (g : Group Item Entry) :
    O.loop elements g =
      { waiting := g.waiting ++ elements.filterMap O.start,
        count := g.count + (elements.filterMap O.start).length,
        gathered := g.gathered, notified := true } := by
  induction elements generalizing g with
  | nil => simp [loop, Group.notify]
  | cons e rest ih =>
    obtain ⟨item, hitem⟩ := Option.ne_none_iff_exists'.mp (h e (by simp))
    rw [loop, hitem]
    simp only [ih (fun e' he' => h e' (by simp [he'])), Group.enter,
      List.filterMap_cons_some hitem, List.append_assoc, List.singleton_append, List.length_cons]
    congr 1
    omega

/-- No read of a new group has returned. -/
theorem accounts_loop {elements : List Element} (h : ∀ e ∈ elements, O.start e ≠ none) :
    Accounts O R (elements.filterMap O.start) (O.loop elements .new) [] := by
  rw [loop_of_starts h]
  exact ⟨by simp [Group.new], by simp, by simp [Group.new], by simp [Group.new]⟩

/-- The loop that some element stops never hands over the block for the join. -/
theorem loop_of_stop {elements : List Element} {e : Element} (he : e ∈ elements)
    (hstop : O.start e = none) (g : Group Item Entry) :
    (O.loop elements g).notified = g.notified := by
  induction elements generalizing g with
  | nil => cases he
  | cons e' rest ih =>
    rw [loop]
    cases hstart : O.start e' with
    | none => rfl
    | some item =>
      rcases List.mem_cons.mp he with rfl | hrest
      · rw [hstop] at hstart
        cases hstart
      · exact ih hrest (g.enter item)

theorem notified_finish (g : Group Item Entry) (item : Item) (response : Response) :
    (O.finish g item response).notified = g.notified := by
  unfold finish
  split <;> rfl

/-- Where a fork stands. -/
inductive Sound (O : Observer Snapshot Element Item Response Entry Value)
    (R : Item → Response → Prop) : Fork Snapshot Item Entry Value → Prop
  | answered {x : Snapshot} {value : Value} (h : O.react x = .inl value) :
      Sound O R ⟨x, .new, [value]⟩
  | stopped {x : Snapshot} {elements : List Element} {g : Group Item Entry}
      (h : O.react x = .inr elements) (hstop : ∃ e ∈ elements, O.start e = none)
      (hnotified : g.notified = false) : Sound O R ⟨x, g, []⟩
  | gathering {x : Snapshot} {elements : List Element} {g : Group Item Entry}
      {done : List (Item × Response)} (h : O.react x = .inr elements)
      (hstarts : ∀ e ∈ elements, O.start e ≠ none)
      (haccounts : Accounts O R (elements.filterMap O.start) g done)
      (hnotified : g.notified = true) : Sound O R ⟨x, g, []⟩
  | joined {x : Snapshot} {elements : List Element} {g : Group Item Entry}
      {done : List (Item × Response)} (h : O.react x = .inr elements)
      (hstarts : ∀ e ∈ elements, O.start e ≠ none)
      (haccounts : Accounts O R (elements.filterMap O.start) g done)
      (hcount : g.count = 0) (hnotified : g.notified = false) :
      Sound O R ⟨x, g, [O.join g.gathered]⟩

theorem sound_fork {x : Snapshot} {elements : List Element} (h : O.react x = .inr elements) :
    Sound O R ⟨x, O.loop elements .new, []⟩ := by
  by_cases hstop : ∃ e ∈ elements, O.start e = none
  · obtain ⟨e, he, hnone⟩ := hstop
    exact .stopped h ⟨e, he, hnone⟩ (loop_of_stop he hnone _)
  · have hstarts : ∀ e ∈ elements, O.start e ≠ none := fun e he hnone => hstop ⟨e, he, hnone⟩
    exact .gathering h hstarts (accounts_loop hstarts) (by rw [loop_of_starts hstarts])

theorem Sound.finish {f : Fork Snapshot Item Entry Value} (hf : Sound O R f)
    {earlier later : List Item} {item : Item}
    (hwaiting : f.group.waiting = earlier ++ item :: later) {response : Response}
    (hR : R item response) :
    Sound O R { f with
      group := O.finish { f.group with waiting := earlier ++ later } item response } := by
  cases hf with
  | answered h => simp [Group.new] at hwaiting
  | stopped h hstop hnotified => exact .stopped h hstop (by rw [notified_finish]; exact hnotified)
  | gathering h hstarts haccounts hnotified =>
    exact .gathering h hstarts (haccounts.finish hwaiting hR)
      (by rw [notified_finish]; exact hnotified)
  | joined h hstarts haccounts hcount hnotified =>
    have hlength := haccounts.count
    simp only at hwaiting
    rw [hcount, hwaiting] at hlength
    simp only [List.length_append, List.length_cons] at hlength
    omega

theorem Sound.join {f : Fork Snapshot Item Entry Value} (hf : Sound O R f)
    (hjoin : f.group.joinable = true) :
    Sound O R { f with
      group := { f.group with notified := false }
      published := f.published ++ [O.join f.group.gathered] } := by
  obtain ⟨hnotified', hcount'⟩ : f.group.notified = true ∧ f.group.count = 0 := by
    simpa [Group.joinable] using hjoin
  cases hf with
  | answered h => cases hnotified'
  | stopped h hstop hnotified => exact (Bool.false_ne_true (hnotified.symm.trans hnotified')).elim
  | gathering h hstarts haccounts hnotified =>
    refine .joined h hstarts
      ⟨haccounts.items, haccounts.permitted, haccounts.gathered, ?_⟩ hcount' rfl
    exact haccounts.count
  | joined h hstarts haccounts hcount hnotified =>
    exact (Bool.false_ne_true (hnotified.symm.trans hnotified')).elim

/-- A group that some element stops never publishes. -/
theorem Sound.published_of_stop {f : Fork Snapshot Item Entry Value} (hf : Sound O R f)
    {elements : List Element} (h : O.react f.snapshot = .inr elements)
    {e : Element} (he : e ∈ elements) (hstop : O.start e = none) : f.published = [] := by
  cases hf with
  | answered h' => cases h.symm.trans h'
  | stopped h' hstop hnotified => rfl
  | gathering h' hstarts haccounts hnotified => rfl
  | joined h' hstarts haccounts hcount hnotified =>
    obtain rfl := Sum.inr.inj (h.symm.trans h')
    exact (hstarts e he hstop).elim

/-- **A group publishes exactly once if every read leaves it, and never otherwise.** -/
theorem Sound.published_of_starts {f : Fork Snapshot Item Entry Value} (hf : Sound O R f)
    (hsettled : f.Settled) {elements : List Element} (h : O.react f.snapshot = .inr elements)
    (hstarts : ∀ e ∈ elements, O.start e ≠ none) :
    ∃ done : List (Item × Response), (done.map Prod.fst).Perm (elements.filterMap O.start) ∧
      (∀ d ∈ done, R d.1 d.2) ∧
      f.published =
        if ∀ d ∈ done, (O.completion d.1 d.2).isSome then
          [O.join (done.filterMap fun d => (O.completion d.1 d.2).join)]
        else [] := by
  have hdone : ∀ {g : Group Item Entry} {done : List (Item × Response)},
      Accounts O R (elements.filterMap O.start) g done → g.waiting = [] →
      (done.map Prod.fst).Perm (elements.filterMap O.start) ∧
        (g.count = 0 ↔ ∀ d ∈ done, (O.completion d.1 d.2).isSome) := by
    intro g done haccounts hwaiting
    have hitems := haccounts.items
    have hcount := haccounts.count
    rw [hwaiting, List.append_nil] at hitems
    rw [hwaiting, List.length_nil, Nat.zero_add] at hcount
    refine ⟨hitems, ?_⟩
    rw [hcount, List.countP_eq_zero]
    refine forall₂_congr fun d _ => ?_
    cases O.completion d.1 d.2 <;> simp
  obtain ⟨hwaiting, hjoin⟩ := hsettled
  cases hf with
  | answered h' => cases h.symm.trans h'
  | stopped h' hstop hnotified =>
    obtain rfl := Sum.inr.inj (h.symm.trans h')
    obtain ⟨e, he, hnone⟩ := hstop
    exact (hstarts e he hnone).elim
  | @gathering x elements' g done h' hstarts' haccounts hnotified =>
    obtain rfl := Sum.inr.inj (h.symm.trans h')
    obtain ⟨hitems, hleft⟩ := hdone haccounts hwaiting
    refine ⟨done, hitems, haccounts.permitted, ?_⟩
    have hcount : g.count ≠ 0 := by
      intro hzero
      simp [Group.joinable, hnotified, hzero] at hjoin
    rw [if_neg fun hall => hcount (hleft.mpr hall)]
  | @joined x elements' g done h' hstarts' haccounts hcount hnotified =>
    obtain rfl := Sum.inr.inj (h.symm.trans h')
    obtain ⟨hitems, hleft⟩ := hdone haccounts hwaiting
    refine ⟨done, hitems, haccounts.permitted, ?_⟩
    rw [if_pos (hleft.mp hcount), haccounts.gathered]

/-- A group that no element stops has been joined or waits for its join. -/
theorem Sound.published_cases {f : Fork Snapshot Item Entry Value} (hf : Sound O R f)
    {elements : List Element} (h : O.react f.snapshot = .inr elements)
    (hstarts : ∀ e ∈ elements, O.start e ≠ none) :
    f.published = [] ∧ f.group.notified = true ∨
      f.published = [O.join f.group.gathered] ∧ f.group.count = 0 ∧ f.group.notified = false := by
  cases hf with
  | answered h' => cases h.symm.trans h'
  | stopped h' hstop hnotified =>
    obtain rfl := Sum.inr.inj (h.symm.trans h')
    obtain ⟨e, he, hnone⟩ := hstop
    exact (hstarts e he hnone).elim
  | gathering h' hstarts' haccounts hnotified => exact Or.inl ⟨rfl, hnotified⟩
  | joined h' hstarts' haccounts hcount hnotified => exact Or.inr ⟨rfl, hcount, hnotified⟩

theorem Sound.group_of_answer {f : Fork Snapshot Item Entry Value} (hf : Sound O R f)
    {value : Value} (h : O.react f.snapshot = .inl value) : f.group = .new := by
  cases hf with
  | answered h' => rfl
  | stopped h' hstop hnotified => cases h.symm.trans h'
  | gathering h' hstarts haccounts hnotified => cases h.symm.trans h'
  | joined h' hstarts haccounts hcount hnotified => cases h.symm.trans h'

theorem Sound.published_of_answer {f : Fork Snapshot Item Entry Value} (hf : Sound O R f)
    {value : Value} (h : O.react f.snapshot = .inl value) : f.published = [value] := by
  cases hf with
  | answered h' => rw [Sum.inl.inj (h.symm.trans h')]
  | stopped h' hstop hnotified => cases h.symm.trans h'
  | gathering h' hstarts haccounts hnotified => cases h.symm.trans h'
  | joined h' hstarts haccounts hcount hnotified => cases h.symm.trans h'

/-! ### Runs -/

/-- The snapshots satisfy `V`, and the responses of the reads `R`. -/
def Permitted (V : Snapshot → Prop) (R : Item → Response → Prop)
    (b : Board Snapshot Item Entry Value) : BoardEvent Snapshot Response → Prop
  | .observed x => V x
  | .returned i index response =>
      ∀ f ∈ b.forks[i]?, ∀ item ∈ f.group.waiting[index]?, R item response
  | .joined _ => True

instance (V : Snapshot → Prop) (R : Item → Response → Prop) [DecidablePred V]
    [∀ item response, Decidable (R item response)] (b : Board Snapshot Item Entry Value)
    (e : BoardEvent Snapshot Response) : Decidable (Permitted V R b e) := by
  cases e <;> unfold Permitted <;> infer_instance

/-- The response of the read that returns is permitted. -/
theorem Permitted.response {V : Snapshot → Prop} {i index : Nat} {response : Response}
    (hok : Permitted V R b (.returned i index response))
    {before after : List (Fork Snapshot Item Entry Value)} {f : Fork Snapshot Item Entry Value}
    (hforks : b.forks = before ++ f :: after) (hi : before.length = i)
    {earlier later : List Item} {item : Item}
    (hwaiting : f.group.waiting = earlier ++ item :: later) (hindex : earlier.length = index) :
    R item response := by
  refine hok f ?_ item ?_
  · rw [hforks, ← hi]
    simp
  · rw [hwaiting, ← hindex]
    simp

/-- A group is joined only while no newer snapshot has published. -/
def InTurn (b : Board Snapshot Item Entry Value) : BoardEvent Snapshot Response → Prop
  | .joined i => ∀ f ∈ b.forks.drop (i + 1), f.published = []
  | _ => True

instance [DecidableEq Value] (b : Board Snapshot Item Entry Value)
    (e : BoardEvent Snapshot Response) : Decidable (InTurn b e) := by
  cases e <;> unfold InTurn <;> infer_instance

variable {V : Snapshot → Prop}

/-- Every fork is sound, and its snapshot satisfies `V`. -/
def AllSound (O : Observer Snapshot Element Item Response Entry Value) (V : Snapshot → Prop)
    (R : Item → Response → Prop) (b : Board Snapshot Item Entry Value) : Prop :=
  ∀ f ∈ b.forks, V f.snapshot ∧ Sound O R f

theorem AllSound.observe (h : AllSound O V R b) {x : Snapshot} (hx : V x) :
    AllSound O V R (O.observe b x) := by
  unfold Observer.observe
  split
  · rename_i value hreact
    intro f hf
    rcases List.mem_append.mp hf with hold | hnew
    · exact h f hold
    · rw [List.mem_singleton.mp hnew]
      exact ⟨hx, .answered hreact⟩
  · rename_i elements hreact
    intro f hf
    rcases List.mem_append.mp hf with hold | hnew
    · exact h f hold
    · rw [List.mem_singleton.mp hnew]
      exact ⟨hx, sound_fork hreact⟩

theorem AllSound.step (h : AllSound O V R b) {e : BoardEvent Snapshot Response}
    (hok : Permitted V R b e) (hst : O.step b e = some c) : AllSound O V R c := by
  cases e with
  | observed x =>
    obtain rfl := Option.some.inj hst
    exact h.observe hok
  | returned i index response =>
    obtain ⟨before, f, after, earlier, item, later, hforks, hi, hwaiting, hindex, rfl⟩ :=
      step_returned hst
    obtain ⟨hV, hsound⟩ := h f (mem_of_split hforks)
    have hR := hok.response hforks hi hwaiting hindex
    exact forall_of_split h hforks ⟨hV, hsound.finish hwaiting hR⟩
  | joined i =>
    obtain ⟨before, f, after, hforks, -, hjoin, rfl⟩ := step_joined hst
    obtain ⟨hV, hsound⟩ := h f (mem_of_split hforks)
    exact forall_of_split h hforks ⟨hV, hsound.join hjoin⟩

/-- The mirror holds what the newest snapshot published of those that have. -/
def Current (initial : Value) (b : Board Snapshot Item Entry Value) : Prop :=
  b.mirror = b.publications.getLast?.getD initial

theorem Current.step {initial : Value} (h : Current initial b) {e : BoardEvent Snapshot Response}
    (hturn : InTurn b e) (hst : O.step b e = some c) : Current initial c := by
  cases e with
  | observed x =>
    obtain rfl := Option.some.inj hst
    unfold Observer.observe
    split
    · simp [Current, Board.publications]
    · simpa [Current, Board.publications] using h
  | returned i index response =>
    obtain ⟨before, f, after, earlier, item, later, hforks, -, -, -, rfl⟩ := step_returned hst
    simpa [Current, Board.publications, hforks] using h
  | joined i =>
    obtain ⟨before, f, after, hforks, hi, -, rfl⟩ := step_joined hst
    have hlater : after.flatMap Fork.published = [] := by
      refine List.flatMap_eq_nil_iff.mpr fun g hg => hturn g ?_
      rw [hforks, ← hi]
      simpa using hg
    simp [Current, Board.publications, hlater]

/-- **Once everything has returned the mirror holds what the last snapshot published**, if
    every group was joined while no newer snapshot had published. -/
theorem mirror_eq {mirror : Value} {events : List (BoardEvent Snapshot Response)}
    (run : Run O.step (fun b e => Permitted V R b e ∧ InTurn b e) (Board.initial mirror) events b)
    {f : Fork Snapshot Item Entry Value} (hlast : f ∈ b.forks.getLast?) {value : Value}
    (hvalue : f.published = [value]) : b.mirror = value := by
  have hcurrent : Current mirror b :=
    run.invariant (Current mirror) (fun u e v hu hok hst => hu.step hok.2 hst) rfl
  obtain ⟨older, hforks⟩ := List.getLast?_eq_some_iff.mp hlast
  rw [hcurrent, Board.publications, hforks]
  simp [hvalue]

theorem allSound_run {mirror : Value} {events : List (BoardEvent Snapshot Response)}
    (run : Run O.step (Permitted V R) (Board.initial mirror) events b) : AllSound O V R b :=
  run.invariant (AllSound O V R) (fun u e v hu hok hst => hu.step hok hst) (by
    intro f hf
    cases hf)

/-! ### What the groups hold -/

theorem waiting_finish (g : Group Item Entry) (item : Item) (response : Response) :
    (O.finish g item response).waiting = g.waiting := by
  unfold finish
  split <;> rfl

/-- The reads of every group, and what they have found. -/
def Holds (P : Item → Prop) (Q : Entry → Prop) (b : Board Snapshot Item Entry Value) : Prop :=
  ∀ f ∈ b.forks, (∀ item ∈ f.group.waiting, P item) ∧ ∀ entry ∈ f.group.gathered, Q entry

variable {P : Item → Prop} {Q : Entry → Prop}

theorem loop_holds {elements : List Element}
    (h : ∀ e ∈ elements, ∀ item, O.start e = some item → P item) {g : Group Item Entry}
    (hg : (∀ item ∈ g.waiting, P item) ∧ ∀ entry ∈ g.gathered, Q entry) :
    (∀ item ∈ (O.loop elements g).waiting, P item) ∧
      ∀ entry ∈ (O.loop elements g).gathered, Q entry := by
  induction elements generalizing g with
  | nil => exact hg
  | cons e rest ih =>
    rw [loop]
    cases hstart : O.start e with
    | none => exact hg
    | some item =>
      refine ih (fun e' he' => h e' (by simp [he'])) ⟨?_, hg.2⟩
      exact List.forall_mem_append.mpr
        ⟨hg.1, List.forall_mem_singleton.mpr (h e (by simp) item hstart)⟩

theorem Holds.observe (h : Holds P Q b) {x : Snapshot}
    (hx : ∀ elements, O.react x = .inr elements →
      ∀ e ∈ elements, ∀ item, O.start e = some item → P item) : Holds P Q (O.observe b x) := by
  have hnew : (∀ item ∈ (Group.new : Group Item Entry).waiting, P item) ∧
      ∀ entry ∈ (Group.new : Group Item Entry).gathered, Q entry := by simp [Group.new]
  unfold Observer.observe
  split
  · exact List.forall_mem_append.mpr ⟨h, List.forall_mem_singleton.mpr hnew⟩
  · rename_i elements hreact
    exact List.forall_mem_append.mpr
      ⟨h, List.forall_mem_singleton.mpr (loop_holds (hx elements hreact) hnew)⟩

theorem Holds.returned (h : Holds P Q b) {V : Snapshot → Prop} {i index : Nat}
    {response : Response} (hok : Permitted V R b (.returned i index response))
    (hQ : ∀ item entry, P item → R item response →
      O.completion item response = some (some entry) → Q entry)
    (hst : O.step b (.returned i index response) = some c) : Holds P Q c := by
  obtain ⟨before, f, after, earlier, item, later, hforks, hi, hwaiting, hindex, rfl⟩ :=
    step_returned hst
  have hR := hok.response hforks hi hwaiting hindex
  obtain ⟨hitems, hentries⟩ := h f (mem_of_split hforks)
  refine forall_of_split h hforks ⟨?_, ?_⟩
  · rw [waiting_finish]
    exact fun item' hitem' => hitems item' (rest_of_split hwaiting hitem')
  · unfold finish
    split
    · rename_i entry hentry
      refine List.forall_mem_append.mpr ⟨hentries, fun entry' hentry' => ?_⟩
      obtain rfl := Option.mem_toList.mp hentry'
      exact hQ item entry' (hitems item (mem_of_split hwaiting)) hR hentry
    · exact hentries

theorem Holds.joined (h : Holds P Q b) {i : Nat} (hst : O.step b (.joined i) = some c) :
    Holds P Q c ∧ ∃ gathered : List Entry, (∀ entry ∈ gathered, Q entry) ∧
      c.mirror = O.join gathered := by
  obtain ⟨before, f, after, hforks, -, -, rfl⟩ := step_joined hst
  have hf := h f (mem_of_split hforks)
  exact ⟨forall_of_split h hforks hf, f.group.gathered, hf.2, rfl⟩

/-! ### How many groups may still be joined -/

/-- The blocks that were handed over for the join, and have not run. -/
def notified (b : Board Snapshot Item Entry Value) : Nat :=
  b.forks.countP fun f => f.group.notified

theorem notified_observe (b : Board Snapshot Item Entry Value) (x : Snapshot) :
    notified (O.observe b x) ≤ notified b + if (O.react x).isLeft then 0 else 1 := by
  unfold Observer.observe
  split
  · simp [notified, Group.new]
  · rename_i elements hreact
    simp only [notified, List.countP_append, List.countP_singleton, hreact, Sum.isLeft_inr,
      Bool.false_eq_true, if_false]
    split_ifs <;> simp

theorem notified_returned {i index : Nat} {response : Response}
    (hst : O.step b (.returned i index response) = some c) : notified c = notified b := by
  obtain ⟨before, f, after, earlier, item, later, hforks, -, -, -, rfl⟩ := step_returned hst
  simp only [notified, hforks, List.countP_append, List.countP_cons, notified_finish]

theorem notified_joined {i : Nat} (hst : O.step b (.joined i) = some c) :
    notified c + 1 = notified b := by
  obtain ⟨before, f, after, hforks, -, hjoin, rfl⟩ := step_joined hst
  obtain ⟨hnotified, -⟩ : f.group.notified = true ∧ f.group.count = 0 := by
    simpa [Group.joinable] using hjoin
  simp only [notified, hforks, List.countP_append, List.countP_cons, hnotified, if_true,
    Bool.false_eq_true, if_false]
  omega

/-! ### A single snapshot -/

/-- While nothing else is observed, there is one fork, and the mirror holds what it
    published last. -/
theorem single_run {mirror : Value} {x : Snapshot} {events : List (BoardEvent Snapshot Response)}
    (run : Run O.step (Permitted (fun _ => False) R) (O.observe (Board.initial mirror) x)
      events c) :
    ∃ f, c.forks = [f] ∧ f.snapshot = x ∧ Sound O R f ∧
      c.mirror = f.published.getLast?.getD mirror := by
  have hstart : AllSound O (fun y => y = x) R (O.observe (Board.initial mirror) x) ∧
      Current mirror (O.observe (Board.initial mirror) x) ∧
      (O.observe (Board.initial mirror) x).forks.length = 1 := by
    have hempty : AllSound O (fun y => y = x) R (Board.initial mirror) := by
      intro f hf
      cases hf
    have hturn : InTurn (Board.initial mirror : Board Snapshot Item Entry Value)
        (.observed x : BoardEvent Snapshot Response) := trivial
    have hmirror : Current mirror (Board.initial mirror : Board Snapshot Item Entry Value) := rfl
    refine ⟨hempty.observe rfl, hmirror.step hturn rfl, ?_⟩
    unfold Observer.observe
    split <;> rfl
  obtain ⟨hsound, hcurrent, hlength⟩ := run.invariant
    (fun u => AllSound O (fun y => y = x) R u ∧ Current mirror u ∧ u.forks.length = 1)
    (by
      rintro u e v ⟨hsound, hcurrent, hlength⟩ hok hst
      have hturn : InTurn u e := by
        cases e with
        | joined i =>
          intro f hf
          rw [List.drop_eq_nil_of_le (by omega)] at hf
          cases hf
        | observed y => trivial
        | returned i index response => trivial
      have hpermitted : Permitted (fun y => y = x) R u e := by
        cases e with
        | observed y => exact hok.elim
        | returned i index response => exact hok
        | joined i => trivial
      refine ⟨hsound.step hpermitted hst, hcurrent.step hturn hst, ?_⟩
      cases e with
      | observed y => exact hok.elim
      | returned i index response =>
        obtain ⟨before, f, after, earlier, item, later, hforks, -, -, -, rfl⟩ := step_returned hst
        simpa [hforks] using hlength
      | joined i =>
        obtain ⟨before, f, after, hforks, -, -, rfl⟩ := step_joined hst
        simpa [hforks] using hlength)
    hstart
  obtain ⟨f, hforks⟩ := List.length_eq_one_iff.mp hlength
  obtain ⟨hsnapshot, hf⟩ := hsound f (by rw [hforks]; simp)
  refine ⟨f, hforks, hsnapshot, hf, ?_⟩
  rw [hcurrent, Board.publications, hforks]
  simp

/-- Whatever the reads answer, the group of a single snapshot comes to rest. -/
theorem exists_settled (answer : Item → Response) (waiting : List Item)
    {f : Fork Snapshot Item Entry Value} (hforks : b.forks = [f])
    (hwaiting : f.group.waiting = waiting) :
    ∃ (events : List (BoardEvent Snapshot Response)) (c : Board Snapshot Item Entry Value),
      Run O.step (Permitted (fun _ => False) fun item response => response = answer item)
        b events c ∧ c.Settled := by
  induction waiting generalizing b f with
  | nil =>
    cases hjoin : f.group.joinable with
    | false =>
      refine ⟨[], b, .nil, fun g hg => ?_⟩
      rw [hforks, List.mem_singleton] at hg
      exact hg ▸ ⟨hwaiting, hjoin⟩
    | true =>
      have hst : O.step b (.joined 0 : BoardEvent Snapshot Response) = some {
          forks := [{ f with
            group := { f.group with notified := false }
            published := f.published ++ [O.join f.group.gathered] }]
          mirror := O.join f.group.gathered } := by
        simp [step, hforks, hjoin]
      refine ⟨[.joined 0], _, .cons trivial hst .nil, fun g hg => ?_⟩
      obtain rfl := List.mem_singleton.mp hg
      exact ⟨hwaiting, rfl⟩
  | cons item rest ih =>
    have hst : O.step b (.returned 0 0 (answer item)) = some { b with forks := [{ f with
        group := O.finish { f.group with waiting := rest } item (answer item) }] } := by
      simp [step, hforks, hwaiting]
    obtain ⟨events, c, run, hsettled⟩ := ih (b := { b with forks := [{ f with
      group := O.finish { f.group with waiting := rest } item (answer item) }] }) rfl
      (waiting_finish _ item (answer item))
    refine ⟨_, c, .cons ?_ hst run, hsettled⟩
    intro g hg item' hitem'
    rw [hforks] at hg
    obtain rfl : f = g := by simpa using hg
    rw [hwaiting] at hitem'
    obtain rfl : item = item' := by simpa using hitem'
    rfl

end Observer

end TeamUp
