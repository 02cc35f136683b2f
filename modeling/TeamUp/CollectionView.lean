import TeamUp.Runs

/-!
# Collection views

A collection view obtains the number of its items when it is laid out first, and whenever it
is laid out after a reload; a reload is put on the main queue and runs later.  In between the
list behind it may change.  The view asks for the items below the number it obtained, so these
have to be indexes of the list.
-/

namespace TeamUp

structure CollectionView where
  /-- The reloads on the main queue. -/
  reloads : Nat
  /-- The number of items is obtained at the next layout. -/
  needsReload : Bool
  /-- The number of items obtained last. -/
  itemCount : Nat
deriving DecidableEq

namespace CollectionView

/-- Not laid out yet. -/
def created : CollectionView := { reloads := 0, needsReload := true, itemCount := 0 }

/-- Put a reload on the main queue. -/
def post (v : CollectionView) : CollectionView := { v with reloads := v.reloads + 1 }

/-- A reload on the main queue runs. -/
def reload (v : CollectionView) : Option CollectionView :=
  if 0 < v.reloads then some { v with reloads := v.reloads - 1, needsReload := true } else none

/-- Obtain the number of items if that is due. -/
def layout (v : CollectionView) (numberOfItems : Nat) : Option CollectionView :=
  if v.needsReload then some { v with needsReload := false, itemCount := numberOfItems } else none

variable {Item : Type} {v w : CollectionView} {dataSource : List Item}

/-- Every item below the number obtained last is in the list. -/
def Covered (v : CollectionView) (dataSource : List Item) : Prop :=
  ∀ item < v.itemCount, (dataSource[item]?).isSome

theorem covered_iff : v.Covered dataSource ↔ v.itemCount ≤ dataSource.length := by
  simp only [Covered, isSome_getElem?]
  constructor
  · intro h
    by_contra hlt
    exact absurd (h dataSource.length (Nat.not_le.mp hlt)) (Nat.lt_irrefl _)
  · intro h item hitem
    exact Nat.lt_of_lt_of_le hitem h

theorem covered_created (dataSource : List Item) : created.Covered dataSource :=
  covered_iff.mpr (Nat.zero_le _)

theorem covered_reload (h : v.reload = some w) : w.Covered dataSource ↔ v.Covered dataSource := by
  unfold reload at h
  split at h
  · obtain rfl := Option.some.inj h
    exact Iff.rfl
  · cases h

theorem covered_layout (h : v.layout dataSource.length = some w) : w.Covered dataSource := by
  unfold layout at h
  split at h
  · obtain rfl := Option.some.inj h
    exact covered_iff.mpr (Nat.le_refl _)
  · cases h

end CollectionView

end TeamUp
