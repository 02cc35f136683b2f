import TeamUp.Commuting
import TeamUp.Teammates

/-!
# The database as written

A session issues several writes at once, and they reach the database one after the other,
between the writes of others.  Where no session writes to what another has just written and
not yet delivered, nothing comes of that: the database ends up as if every write had been
applied in the moment it was issued.
-/

namespace TeamUp

open Protocol

/-- What the writes replace lies apart. -/
def Write.Apart (w w' : Write) : Prop := ∀ e ∈ w.puts, ∀ e' ∈ w'.puts, Incomparable e.1 e'.1

instance (w w' : Write) : Decidable (w.Apart w') :=
  inferInstanceAs (Decidable (∀ e ∈ w.puts, ∀ e' ∈ w'.puts, Incomparable e.1 e'.1))

variable {w w' : Write} {catalogue : List Game} {db : Tree} {ids : List String}

theorem same_puts (puts : List (Ref × Tree)) {t u : Tree} (h : PathTree.Same t u) :
    PathTree.Same (puts.foldl (fun t e => t.put e.1 e.2) t)
      (puts.foldl (fun t e => t.put e.1 e.2) u) := by
  induction puts generalizing t u with
  | nil => exact h
  | cons e rest ih => exact ih (h.put e.1 e.2)

theorem Write.same_apply (w : Write) {t u : Tree} (h : PathTree.Same t u) :
    PathTree.Same (w.apply t) (w.apply u) := by
  rw [Write.apply_eq_puts, Write.apply_eq_puts]
  exact same_puts w.puts h

/-- A put apart from all that a write replaces may come after it or before. -/
theorem Write.apply_put (w : Write) {p : Ref} (h : ∀ e ∈ w.puts, Incomparable e.1 p)
    (n t : Tree) : PathTree.Same (w.apply (t.put p n)) ((w.apply t).put p n) := by
  rw [Write.apply_eq_puts, Write.apply_eq_puts]
  generalize w.puts = puts at h
  induction puts generalizing t with
  | nil => exact PathTree.Same.refl _
  | cons e rest ih =>
    have hswap := PathTree.put_comm t n e.2 (h e (by simp)).symm
    exact (same_puts rest hswap).trans (ih (t.put e.1 e.2) fun x hx => h x (by simp [hx]))

/-- **Writes that lie apart commute.** -/
theorem Write.Apart.comm (h : w.Apart w') (t : Tree) :
    PathTree.Same (w.apply (w'.apply t)) (w'.apply (w.apply t)) := by
  have hputs : ∀ e' ∈ w'.puts, ∀ e ∈ w.puts, Incomparable e.1 e'.1 :=
    fun e' he' e he => h e he e' he'
  rw [Write.apply_eq_puts w', Write.apply_eq_puts w']
  generalize w'.puts = puts at hputs
  induction puts generalizing t with
  | nil => exact PathTree.Same.refl _
  | cons e' rest ih =>
    have hrest := ih (t.put e'.1 e'.2) fun x hx => hputs x (by simp [hx])
    exact hrest.trans (same_puts rest (w.apply_put (hputs e' (by simp)) e'.2 t))

theorem commutes_apart : (app catalogue).Commutes PathTree.Same Write.Apart where
  equivalence := ⟨PathTree.Same.refl, PathTree.Same.symm, PathTree.Same.trans⟩
  congr := Write.same_apply
  swap := fun t h => h.comm t
  effect := fun _ _ _ _ => rfl

/-- Each session's writes arrive in order, and those under way of different sessions are apart. -/
def Separate (catalogue : List Game) (s : State) (e : Event) : Prop :=
  InOrder s e ∧ (app catalogue).IssuedApart Write.Apart s e

instance (s : State) (e : Event) : Decidable (Separate catalogue s e) :=
  inferInstanceAs (Decidable (_ ∧ _))

/-- The writes of a run, in the order in which they are issued. -/
def writesIssued (catalogue : List Game) (s : State) (events : List Event) : List Write :=
  (chronicle (app catalogue).step (app catalogue).issued s events).1

/-- **The database ends up as if every write had been applied when it was issued**, in whatever
    order the writes of different sessions arrive, as long as those that are under way at
    the same time are apart. -/
theorem store_as_issued {events : List Event} {t : State}
    (run : (app catalogue).Run (Separate catalogue) (State.initial db ids) events t)
    (hrest : t.outstanding = []) :
    PathTree.Same t.store ((writesIssued catalogue (State.initial db ids) events).foldl
      (fun db w => w.apply db) db) := by
  have hinitial : OutstandingApart Write.Apart (State.initial db ids) := List.Pairwise.nil
  have hflush := commutes_apart.flush_run hinitial run
  have hstore : (app catalogue).flush t = t.store := by
    rw [flush, hrest]
    rfl
  rwa [hstore] at hflush

/-- Bob accepts a request of alice while she writes to carol and requests her; then alice
    removes him again. -/
def befriended : List Event :=
  [.observe ⟨"bobbob", 1⟩, .start ⟨"bobbob", 1⟩ (.acceptTeammateRequest (somebody "alice1")) "-1",
    .start ⟨"alice1", 1⟩ (.sendDirectMessage "hi" (somebody "carol1") 0) "-2",
    .deliver 4, .deliver 0,
    .start ⟨"alice1", 1⟩ (.requestPlayerToTeamUp "carol1") "-3", .serve 0 .empty, .resume 0 "-4",
    .deliver 0, .deliver 0, .deliver 1, .deliver 0, .deliver 0,
    .start ⟨"alice1", 1⟩ (.removeTeammate (somebody "bobbob")) "-5",
    .deliver 0, .deliver 0, .deliver 0, .deliver 0]

theorem store_as_issued_befriended :
    ∃ t, (app []).exec (fun s e => decide (Separate [] s e)) (State.initial requested [])
        befriended = some t ∧
      PathTree.Same t.store ((writesIssued [] (State.initial requested []) befriended).foldl
        (fun db w => w.apply db) requested) := by
  have hrest : ((app []).exec (fun s e => decide (Separate [] s e)) (State.initial requested [])
      befriended).map Config.outstanding = some [] := by
    decide +kernel
  obtain ⟨t, ht, hout⟩ := Option.map_eq_some_iff.mp hrest
  exact ⟨t, ht, store_as_issued (run_of_exec (fun s e h => of_decide_eq_true h) ht) hout⟩

end TeamUp
