import TeamUp.CollectionView

/-!
# Rows and their cells

A cell is given its item when it comes onto the screen, and keeps it until the view is laid out
after a reload.  What is done with a cell goes by its row, and so to the item that is in the
list by then.  If every change of the list posts a reload, the two are the same whenever no
reload is due.
-/

namespace TeamUp

/-- A view of a list, with its cells on the screen. -/
structure Rows (Item : Type) where
  view : CollectionView
  /-- The rows that have a cell, with the item it was given. -/
  cells : List (Nat × Item)

namespace Rows

variable {Item : Type} {r t : Rows Item} {items : List Item} {row : Nat} {item : Item}

def created : Rows Item := { view := .created, cells := [] }

def post (r : Rows Item) : Rows Item := { r with view := r.view.post }

def reload (r : Rows Item) : Option (Rows Item) := r.view.reload.map fun view => { r with view }

def layout (r : Rows Item) (items : List Item) : Option (Rows Item) :=
  (r.view.layout items.length).map fun view => { view, cells := [] }

/-- `cellForItemAt`: a row below the number obtained gets a cell for its item; the program stops
    if there is none. -/
def cellForItemAt (r : Rows Item) (items : List Item) (row : Nat) : Option (Rows Item) :=
  if r.view.needsReload = false ∧ row < r.view.itemCount then
    items[row]?.map fun item => { r with cells := (row, item) :: r.cells }
  else none

/-- The item shown in a row, if the row has a cell. -/
def shown (r : Rows Item) (row : Nat) : Option Item := r.cells.lookup row

/-- No reload is due. -/
def Idle (r : Rows Item) : Prop := r.view.reloads = 0 ∧ r.view.needsReload = false

instance (r : Rows Item) : Decidable r.Idle := inferInstanceAs (Decidable (_ ∧ _))

/-- When no reload is due, there are as many rows as items, and every cell has its item. -/
def Current (r : Rows Item) (items : List Item) : Prop :=
  r.Idle → r.view.itemCount = items.length ∧ ∀ c ∈ r.cells, items[c.1]? = some c.2

theorem current_created (items : List Item) : created.Current items :=
  fun hidle => by cases hidle.2

theorem current_post (r : Rows Item) (items : List Item) : r.post.Current items :=
  fun hidle => (Nat.succ_ne_zero _ hidle.1).elim

theorem current_reload (h : r.reload = some t) : t.Current items := by
  obtain ⟨view, hview, rfl⟩ := Option.map_eq_some_iff.mp h
  intro hidle
  unfold CollectionView.reload at hview
  split at hview
  · obtain rfl := Option.some.inj hview
    cases hidle.2
  · cases hview

theorem current_layout (h : r.layout items = some t) : t.Current items := by
  obtain ⟨view, hview, rfl⟩ := Option.map_eq_some_iff.mp h
  intro _
  unfold CollectionView.layout at hview
  split at hview
  · obtain rfl := Option.some.inj hview
    exact ⟨rfl, fun c hc => by cases hc⟩
  · cases hview

theorem Current.cellForItemAt (h : r.Current items) (hst : r.cellForItemAt items row = some t) :
    t.Current items := by
  unfold Rows.cellForItemAt at hst
  split at hst
  · obtain ⟨item, hitem, rfl⟩ := Option.map_eq_some_iff.mp hst
    intro hidle
    obtain ⟨hcount, hcells⟩ := h hidle
    exact ⟨hcount, List.forall_mem_cons.mpr ⟨hitem, hcells⟩⟩
  · cases hst

/-- **When no reload is due, what is done with a cell is done with the item it shows.** -/
theorem Current.shown (h : r.Current items) (hidle : r.Idle) (hshown : r.shown row = some item) :
    items[row]? = some item := by
  obtain ⟨before, after, hcells, -⟩ := List.lookup_eq_some_iff.mp hshown
  exact (h hidle).2 (row, item) (by simp [hcells])

end Rows

end TeamUp
