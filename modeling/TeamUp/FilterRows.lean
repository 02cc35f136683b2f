import TeamUp.Models
import TeamUp.Runs

/-!
# The rows of the filters

`LFGFiltersViewController` lists the regions and the platforms of its game in a table that
allows several rows to be selected, and keeps to one in each section itself: before a row is
selected it deselects the others of the section, for which the table calls nothing, and the
choice it stores is overwritten right after.
-/

namespace TeamUp

/-- `Region.allCases` -/
def Region.allCases : List Region := [.naWest, .naEast, .europe, .asia, .australia]

structure IndexPath where
  /-- `section` -/
  sectionIndex : Nat
  row : Nat
deriving DecidableEq

structure LFGFiltersViewController where
  game : Option Game
  /-- `tableView.indexPathsForSelectedRows` -/
  selectedRows : List IndexPath
  selectedRegion : Option Region
  selectedPlatform : Option String
  /-- What the delegate was called with. -/
  filtered : List (Option String × Option Region)
deriving DecidableEq

inductive FilterEvent where
  | tap (indexPath : IndexPath)
  | doneButtonTapped
deriving DecidableEq

namespace LFGFiltersViewController

def opened (game : Option Game) : LFGFiltersViewController :=
  { game, selectedRows := [], selectedRegion := none, selectedPlatform := none, filtered := [] }

def platforms (s : LFGFiltersViewController) : List String :=
  (s.game.map Game.platforms).getD []

def numberOfRowsInSection (s : LFGFiltersViewController) : Nat → Nat
  | 0 => Region.allCases.length
  | 1 => s.platforms.length
  | _ => 0

def deselectRow (s : LFGFiltersViewController) (indexPath : IndexPath) :
    LFGFiltersViewController :=
  { s with selectedRows := s.selectedRows.filter fun p => p ≠ indexPath }

def willSelectRowAt (s : LFGFiltersViewController) (indexPath : IndexPath) :
    LFGFiltersViewController :=
  s.selectedRows.foldl (fun s selectedIndexPath =>
    if selectedIndexPath.sectionIndex = indexPath.sectionIndex then
      s.deselectRow selectedIndexPath
    else s) s

/-- None if the row is out of range. -/
def didSelectRowAt (s : LFGFiltersViewController) (indexPath : IndexPath) :
    Option LFGFiltersViewController :=
  if indexPath.sectionIndex = 0 then
    Region.allCases[indexPath.row]?.map fun region => { s with selectedRegion := some region }
  else if indexPath.sectionIndex = 1 then
    match s.game with
    | some game =>
        game.platforms[indexPath.row]?.map fun platform =>
          { s with selectedPlatform := some platform }
    | none => some s
  else some s

def didDeselectRowAt (s : LFGFiltersViewController) (indexPath : IndexPath) :
    LFGFiltersViewController :=
  if indexPath.sectionIndex = 0 then { s with selectedRegion := none }
  else if indexPath.sectionIndex = 1 then { s with selectedPlatform := none }
  else s

/-- A tap on a row: a selected row is deselected, any other is selected. -/
def tap (s : LFGFiltersViewController) (indexPath : IndexPath) :
    Option LFGFiltersViewController :=
  if indexPath ∈ s.selectedRows then
    some ((s.deselectRow indexPath).didDeselectRowAt indexPath)
  else
    let s := s.willSelectRowAt indexPath
    { s with selectedRows := s.selectedRows ++ [indexPath] }.didSelectRowAt indexPath

def doneButtonTapped (s : LFGFiltersViewController) : LFGFiltersViewController :=
  { s with filtered := s.filtered ++ [(s.selectedPlatform, s.selectedRegion)] }

def step (s : LFGFiltersViewController) : FilterEvent → Option LFGFiltersViewController
  | .tap indexPath =>
      if indexPath.row < s.numberOfRowsInSection indexPath.sectionIndex then s.tap indexPath
      else none
  | .doneButtonTapped => some s.doneButtonTapped

/-- The choice is the value of a selected row of the section, and none if no row is selected. -/
def Chosen {α : Type} (selectedRows : List IndexPath) (sectionIndex : Nat) (values : List α)
    (choice : Option α) : Prop :=
  ∀ v, choice = some v ↔ ∃ row, ⟨sectionIndex, row⟩ ∈ selectedRows ∧ values[row]? = some v

/-- These are the platform and the region of the selected rows, and none where none is. -/
structure Highlights (s : LFGFiltersViewController) (platform : Option String)
    (region : Option Region) : Prop where
  region : Chosen s.selectedRows 0 Region.allCases region
  platform : Chosen s.selectedRows 1 s.platforms platform

/-- At most one row of each section is selected, all of them are rows of the table, and the
    choices are theirs. -/
structure Shown (s : LFGFiltersViewController) : Prop where
  single : (s.selectedRows.map IndexPath.sectionIndex).Nodup
  real : ∀ p ∈ s.selectedRows, p.row < s.numberOfRowsInSection p.sectionIndex
  chosen : s.Highlights s.selectedPlatform s.selectedRegion

variable {s t : LFGFiltersViewController} {indexPath : IndexPath} {e : FilterEvent}
variable {α : Type} {selectedRows : List IndexPath} {sectionIndex : Nat} {values : List α}
variable {choice : Option α}

/-! ### Choices -/

/-- The only selected row of the section is deselected. -/
theorem chosen_deselect (h : (selectedRows.map IndexPath.sectionIndex).Nodup)
    (hselected : indexPath ∈ selectedRows) (hsection : indexPath.sectionIndex = sectionIndex) :
    Chosen (selectedRows.filter fun p => p ≠ indexPath) sectionIndex values none := by
  intro v
  refine iff_of_false (fun heq => by cases heq) ?_
  rintro ⟨row, hrow, -⟩
  obtain ⟨hin, hne⟩ := List.mem_filter.mp hrow
  exact of_decide_eq_true hne (List.inj_on_of_nodup_map h hin hselected hsection.symm)

theorem Chosen.deselect_other (h : Chosen selectedRows sectionIndex values choice)
    (hother : indexPath.sectionIndex ≠ sectionIndex) :
    Chosen (selectedRows.filter fun p => p ≠ indexPath) sectionIndex values choice := by
  intro v
  rw [h v]
  refine exists_congr fun row => and_congr_left' ?_
  have hne : (⟨sectionIndex, row⟩ : IndexPath) ≠ indexPath := fun heq =>
    hother (congrArg IndexPath.sectionIndex heq).symm
  simp [hne]

/-- The row that is selected is the only one of its section. -/
theorem chosen_select {v : α} (hvalue : values[indexPath.row]? = some v)
    (hsection : indexPath.sectionIndex = sectionIndex) :
    Chosen ((selectedRows.filter fun p => p.sectionIndex ≠ indexPath.sectionIndex) ++ [indexPath])
      sectionIndex values (some v) := by
  subst hsection
  intro w
  constructor
  · intro heq
    refine ⟨indexPath.row, List.mem_append_right _ (List.mem_singleton.mpr rfl), ?_⟩
    rw [hvalue, heq]
  · rintro ⟨row, hrow, hw⟩
    rcases List.mem_append.mp hrow with hearlier | hown
    · exact (of_decide_eq_true (List.mem_filter.mp hearlier).2 rfl).elim
    · rw [← List.mem_singleton.mp hown] at hvalue
      rw [← hvalue]
      exact hw

theorem Chosen.select_other (h : Chosen selectedRows sectionIndex values choice)
    (hother : indexPath.sectionIndex ≠ sectionIndex) :
    Chosen ((selectedRows.filter fun p => p.sectionIndex ≠ indexPath.sectionIndex) ++ [indexPath])
      sectionIndex values choice := by
  intro v
  rw [h v]
  refine exists_congr fun row => and_congr_left' ?_
  have hne : (⟨sectionIndex, row⟩ : IndexPath) ≠ indexPath := fun heq =>
    hother (congrArg IndexPath.sectionIndex heq).symm
  simp [hne, hother.symm]

theorem platforms_eq {game : Game} (h : s.game = some game) : s.platforms = game.platforms := by
  rw [platforms, h]
  rfl

theorem platforms_eq_nil (h : s.game = none) : s.platforms = [] := by
  rw [platforms, h]
  rfl

/-! ### Taps -/

/-- All rows of the section are deselected. -/
theorem willSelectRowAt_eq : s.willSelectRowAt indexPath = { s with
    selectedRows := s.selectedRows.filter fun p => p.sectionIndex ≠ indexPath.sectionIndex } := by
  have hloop : ∀ (paths : List IndexPath) (s : LFGFiltersViewController),
      paths.foldl (fun s p =>
          if p.sectionIndex = indexPath.sectionIndex then s.deselectRow p else s) s =
        { s with selectedRows := s.selectedRows.filter fun p =>
          ¬ (p.sectionIndex = indexPath.sectionIndex ∧ p ∈ paths) } := by
    intro paths
    induction paths with
    | nil =>
      intro s
      simp
    | cons path rest ih =>
      intro s
      rw [List.foldl_cons, ih]
      split
      · rename_i hsection
        simp only [deselectRow, List.filter_filter]
        congr 1
        refine List.filter_congr fun p _ => ?_
        by_cases hp : p = path
        · subst hp
          simp [hsection]
        · simp [hp]
      · rename_i hsection
        congr 1
        refine List.filter_congr fun p _ => ?_
        by_cases hp : p = path
        · subst hp
          simp [hsection]
        · simp [hp]
  unfold willSelectRowAt
  rw [hloop]
  congr 1
  refine List.filter_congr fun p hp => ?_
  simp [hp]

theorem Shown.deselect (h : s.Shown) (hselected : indexPath ∈ s.selectedRows) :
    ((s.deselectRow indexPath).didDeselectRowAt indexPath).Shown := by
  have hsingle := h.single.sublist
    ((List.filter_sublist (p := fun p => decide (p ≠ indexPath))).map IndexPath.sectionIndex)
  have hreal : ∀ p ∈ s.selectedRows.filter (fun p => p ≠ indexPath),
      p.row < s.numberOfRowsInSection p.sectionIndex := fun p hp =>
    h.real p (List.mem_of_mem_filter hp)
  unfold didDeselectRowAt
  split_ifs with hregion hplatform
  · exact ⟨hsingle, hreal, chosen_deselect h.single hselected hregion,
      h.chosen.platform.deselect_other (by omega)⟩
  · exact ⟨hsingle, hreal, h.chosen.region.deselect_other hregion,
      chosen_deselect h.single hselected hplatform⟩
  · exact ⟨hsingle, hreal, h.chosen.region.deselect_other hregion,
      h.chosen.platform.deselect_other hplatform⟩

/-- A row of the table that is selected in place of the others of its section. -/
theorem Shown.select (h : s.Shown)
    (hrow : indexPath.row < s.numberOfRowsInSection indexPath.sectionIndex)
    (hselected : indexPath ∉ s.selectedRows) (hst : s.tap indexPath = some t) : t.Shown := by
  rw [tap, if_neg hselected, willSelectRowAt_eq] at hst
  have hsingle : (((s.selectedRows.filter fun p => p.sectionIndex ≠ indexPath.sectionIndex) ++
      [indexPath]).map IndexPath.sectionIndex).Nodup := by
    rw [List.map_append, List.nodup_append]
    refine ⟨h.single.sublist (List.filter_sublist.map _), List.nodup_singleton _, ?_⟩
    intro i hi j hj
    obtain ⟨p, hp, rfl⟩ := List.mem_map.mp hi
    rw [List.mem_singleton.mp hj]
    exact of_decide_eq_true (List.mem_filter.mp hp).2
  have hreal : ∀ p ∈ (s.selectedRows.filter fun p => p.sectionIndex ≠ indexPath.sectionIndex) ++
      [indexPath], p.row < s.numberOfRowsInSection p.sectionIndex := by
    intro p hp
    rcases List.mem_append.mp hp with hearlier | hown
    · exact h.real p (List.mem_of_mem_filter hearlier)
    · rw [List.mem_singleton.mp hown]
      exact hrow
  simp only [didSelectRowAt] at hst
  split_ifs at hst with hregion hplatform
  · obtain ⟨region, hvalue, rfl⟩ := Option.map_eq_some_iff.mp hst
    exact ⟨hsingle, hreal, chosen_select hvalue hregion,
      h.chosen.platform.select_other (by omega)⟩
  · split at hst
    · rename_i game hgame
      obtain ⟨platform, hvalue, rfl⟩ := Option.map_eq_some_iff.mp hst
      have hplatforms : s.platforms = game.platforms := platforms_eq hgame
      exact ⟨hsingle, hreal, h.chosen.region.select_other hregion,
        chosen_select (hplatforms ▸ hvalue) hplatform⟩
    · -- without a game there are no platforms to tap
      rename_i hgame
      rw [hplatform, numberOfRowsInSection, platforms_eq_nil hgame] at hrow
      exact (Nat.not_lt_zero _ hrow).elim
  · obtain rfl := Option.some.inj hst
    exact ⟨hsingle, hreal, h.chosen.region.select_other hregion,
      h.chosen.platform.select_other hplatform⟩

/-- **One event** keeps one row selected in each section at most, and the choices those of the
    rows. -/
theorem Shown.step (h : s.Shown) (hst : s.step e = some t) : t.Shown := by
  cases e with
  | tap indexPath =>
    obtain ⟨hrow, htap⟩ := Option.ite_none_right_eq_some.mp hst
    by_cases hselected : indexPath ∈ s.selectedRows
    · rw [tap, if_pos hselected] at htap
      obtain rfl := Option.some.inj htap
      exact h.deselect hselected
    · exact h.select hrow hselected htap
  | doneButtonTapped =>
    obtain rfl := Option.some.inj hst
    exact ⟨h.single, h.real, ⟨h.chosen.region, h.chosen.platform⟩⟩

theorem shown_opened (game : Option Game) : (opened game).Shown where
  single := List.nodup_nil
  real := fun p hp => by cases hp
  chosen := by
    constructor <;>
    · intro v
      refine iff_of_false (fun heq => by cases heq) ?_
      rintro ⟨row, hrow, -⟩
      cases hrow

/-- A tap on a row of the table never runs out of range. -/
theorem tap_isSome (h : indexPath.row < s.numberOfRowsInSection indexPath.sectionIndex) :
    (s.tap indexPath).isSome := by
  unfold tap
  split
  · rfl
  · rw [willSelectRowAt_eq]
    simp only [didSelectRowAt]
    split_ifs with hregion hplatform
    · rw [hregion, numberOfRowsInSection] at h
      rw [Option.isSome_map, List.getElem?_eq_getElem h]
      rfl
    · rw [hplatform] at h
      split
      · rename_i game hgame
        rw [numberOfRowsInSection, platforms_eq hgame] at h
        rw [Option.isSome_map, List.getElem?_eq_getElem h]
        rfl
      · rfl
    · rfl

/-- **At each moment** at most one row of each section is selected, the choices are the region and
    the platform of the selected rows, and these are what Done passes on. -/
theorem filters_shown {game : Option Game} {events : List FilterEvent}
    (run : Run step (fun _ _ => True) (opened game) events s) :
    s.Shown ∧ ∀ t, s.step .doneButtonTapped = some t →
      ∃ platform region, t.filtered = s.filtered ++ [(platform, region)] ∧
        s.Highlights platform region := by
  have hshown : s.Shown :=
    run.invariant Shown (fun _ _ _ h _ hst => h.step hst) (shown_opened game)
  refine ⟨hshown, fun t hst => ?_⟩
  obtain rfl := Option.some.inj hst
  exact ⟨_, _, rfl, hshown.chosen⟩

/-- A region is tapped, then another one; a platform is tapped twice. -/
def anotherRegion : List FilterEvent :=
  [.tap ⟨0, 0⟩, .tap ⟨1, 0⟩, .tap ⟨0, 2⟩, .tap ⟨1, 0⟩, .doneButtonTapped]

theorem filters_shown_anotherRegion :
    ∃ s, Run step (fun _ _ => True) (opened (some chess)) anotherRegion s ∧
      s.selectedRows = [⟨0, 2⟩] ∧ s.filtered = [(none, some .europe)] ∧
      (s.Shown ∧ ∀ t, s.step .doneButtonTapped = some t →
        ∃ platform region, t.filtered = s.filtered ++ [(platform, region)] ∧
          s.Highlights platform region) := by
  have hend : (exec step (fun _ _ => true) (opened (some chess)) anotherRegion).map
      (fun s => (s.selectedRows, s.filtered)) = some ([⟨0, 2⟩], [(none, some .europe)]) := by
    decide +kernel
  obtain ⟨s, hexec, hs⟩ := Option.map_eq_some_iff.mp hend
  have run : Run step (fun _ _ => True) (opened (some chess)) anotherRegion s :=
    run_of_exec (fun _ _ _ => trivial) hexec
  exact ⟨s, run, congrArg Prod.fst hs, congrArg Prod.snd hs, filters_shown run⟩

end LFGFiltersViewController

end TeamUp
