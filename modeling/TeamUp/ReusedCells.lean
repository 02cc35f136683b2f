import TeamUp.Images

/-!
# Pictures in reused cells

`PlayerCell` and `GameCell` empty their image views when they are given a user or a game, and
fetch the pictures.  A picture on disk or in memory is there at once; a download answers
later, and its closure writes into the image view whatever the cell represents by then.  The
picture of an earlier user or game stays away only if no answer comes late.
-/

namespace TeamUp

/-- The image views of a `PlayerCell` and of a `GameCell`. -/
inductive CellView where
  | profilePic | background | logo
deriving DecidableEq

structure CellImage (Image : Type) where
  image : Option Image
  /-- How often the cell was given a user or a game. -/
  assignments : Nat
  /-- What was obtained for the latest of them, once it is known. -/
  obtained : Option (Option Image)
deriving DecidableEq

namespace CellImage

variable {Image : Type}

/-- `imageView.image = nil`, for a new assignment. -/
def cleared (v : CellImage Image) : CellImage Image :=
  { image := none, assignments := v.assignments + 1, obtained := some none }

def loading (v : CellImage Image) : CellImage Image := { v with obtained := none }

/-- The closure of an assignment is called, and writes its picture or not. -/
def called (v : CellImage Image) (assignment : Nat) (picture : Option Image) (writes : Bool) :
    CellImage Image :=
  { v with
    image := if writes then picture else v.image
    obtained := if assignment = v.assignments then some picture else v.obtained }

end CellImage

/-- A closure handed to a fetch: the image view it writes into, and the number of the
    assignment that started it. -/
structure CellClosure where
  view : CellView
  assignment : Nat
deriving DecidableEq

/-- A `PlayerCell` and a `GameCell`, over the images of the app. -/
structure ReusedCells (Image Data Path : Type) where
  store : ImageStore Image Data Path
  /-- The closures of the store's downloads and completions; other callers have none here. -/
  downloading : List (Option CellClosure)
  completing : List (Option CellClosure)
  views : CellView → CellImage Image

/-- What the cells make of an image. -/
structure CellLook (Image Size : Type) where
  /-- `CGSize(width: length, height: length)` -/
  square : Nat → Size
  defaultProfilePic : Image

inductive CellEvent where
  | setUser (user : Option User) (written : Bool)
  | setGame (game : Option Game) (backgroundWritten logoWritten : Bool)
  /-- A fetch of another cell or screen. -/
  | fetch (request : ImageRequest) (written : Bool)
  | downloaded (index : Nat) (success : Bool)
  | completed (index : Nat) (written : Bool)
  | evicted (url : String)
deriving DecidableEq

namespace ReusedCells

variable {Image Data Size Path : Type} [DecidableEq Path]
variable (U : Platform Image Data Size Path) (look : CellLook Image Size)

/-- The cells before they were given anything. -/
def created (store : ImageStore Image Data Path) : ReusedCells Image Data Path :=
  { store
    downloading := store.downloads.map fun _ => none
    completing := store.completions.map fun _ => none
    views := fun _ => { image := none, assignments := 0, obtained := some none } }

/-- The image a closure makes of what it is called with. -/
def picture (view : CellView) (delivery : Delivery Image) : Option Image :=
  match view, delivery with
  | .profilePic, .image image => some (U.resize image (look.square 60))
  | .profilePic, .defaultProfilePic => some (U.resize look.defaultProfilePic (look.square 60))
  | .background, .image image => some image
  | .logo, .image image => some (U.resize image (look.square 75))
  | _, _ => none

/-- The closure of the logo returns without an image. -/
def writes (view : CellView) (picture : Option Image) : Bool :=
  view ≠ .logo || picture.isSome

def setView (s : ReusedCells Image Data Path) (view : CellView) (v : CellImage Image) :
    ReusedCells Image Data Path :=
  { s with views := Function.update s.views view v }

/-- A closure is called. -/
def call (s : ReusedCells Image Data Path) (closure : Option CellClosure)
    (delivery : Delivery Image) : ReusedCells Image Data Path :=
  match closure with
  | some closure =>
      let picture := picture U look closure.view delivery
      s.setView closure.view
        ((s.views closure.view).called closure.assignment picture (writes closure.view picture))
  | none => s

/-- What the store delivered between two of its states. -/
def delivery (before after : ImageStore Image Data Path) : Option (Delivery Image) :=
  after.delivered[before.delivered.length]?.map Prod.snd

/-- A fetch calls its closure at once, or leaves it to the download. -/
def fetch (s : ReusedCells Image Data Path) (closure : Option CellClosure)
    (request : ImageRequest) (written : Bool) : ReusedCells Image Data Path :=
  let store := s.store.fetch U request written
  match delivery s.store store with
  | some delivery => { s with store }.call U look closure delivery
  | none => { s with store, downloading := s.downloading ++ [closure] }

def clear (s : ReusedCells Image Data Path) (view : CellView) : ReusedCells Image Data Path :=
  s.setView view (s.views view).cleared

/-- Fetch the image of a view for its latest assignment. -/
def load (s : ReusedCells Image Data Path) (view : CellView) (request : ImageRequest)
    (written : Bool) : ReusedCells Image Data Path :=
  (s.setView view (s.views view).loading).fetch U look
    (some ⟨view, (s.views view).assignments⟩) request written

/-- `PlayerCell.setData` -/
def setUser (s : ReusedCells Image Data Path) (user : Option User) (written : Bool) :
    ReusedCells Image Data Path :=
  match user with
  | some user =>
      (s.clear .profilePic).load U look .profilePic (.profilePicture user.profilePicUrl) written
  | none => s.clear .profilePic

/-- `GameCell.setData` -/
def setGame (s : ReusedCells Image Data Path) (game : Option Game)
    (backgroundWritten logoWritten : Bool) : ReusedCells Image Data Path :=
  let s := (s.clear .background).clear .logo
  match game with
  | some game =>
      (s.load U look .background (.gameBackground game) backgroundWritten).load U look .logo
        (.gameLogo game) logoWritten
  | none => s

def step (s : ReusedCells Image Data Path) : CellEvent → Option (ReusedCells Image Data Path)
  | .setUser user written => some (s.setUser U look user written)
  | .setGame game backgroundWritten logoWritten =>
      some (s.setGame U look game backgroundWritten logoWritten)
  | .fetch request written => some (s.fetch U look none request written)
  | .downloaded index success =>
      (s.store.step U (.downloaded index success)).map fun store =>
        { s with
          store
          downloading := s.downloading.eraseIdx index
          completing := s.completing ++ [s.downloading[index]?.join] }
  | .completed index written =>
      (s.store.step U (.completed index written)).map fun store =>
        let t := { s with store, completing := s.completing.eraseIdx index }
        match delivery s.store store with
        | some delivery => t.call U look s.completing[index]?.join delivery
        | none => t
  | .evicted url => (s.store.step U (.evicted url)).map fun store => { s with store }

/-- The closures that have not been called. -/
def underWay (s : ReusedCells Image Data Path) : List (Option CellClosure) :=
  s.downloading ++ s.completing

/-- The closure of the latest assignment of the view has not been called. -/
def Waiting (s : ReusedCells Image Data Path) (view : CellView) : Prop :=
  some ⟨view, (s.views view).assignments⟩ ∈ s.underWay

/-- What was obtained for the latest assignment is shown, or on its way. -/
def Following (s : ReusedCells Image Data Path) (view : CellView) : Prop :=
  s.Waiting view ∨ (s.views view).obtained = some (s.views view).image

/-- What the completion of a download is called with. -/
def brought (request : ImageRequest) (image : Option Image) : Delivery Image :=
  match image, request with
  | none, request => ImageStore.missing request
  | some image, .gameBackground _ => .image (U.resize image U.backgroundSize)
  | some image, _ => .image image

/-- A closure of the latest assignment that writes nothing finds its view empty; one of an
    earlier assignment is called before that of the latest, writes nothing, or changes nothing. -/
def CalledInTurn (s : ReusedCells Image Data Path) (closure : CellClosure)
    (picture : Option Image) : Prop :=
  if closure.assignment = (s.views closure.view).assignments then
    writes closure.view picture = true ∨ (s.views closure.view).image = none
  else
    s.Waiting closure.view ∨ writes closure.view picture = false ∨
      picture = (s.views closure.view).image

/-- The closure of a completed download is called in turn. -/
def InTurn (s : ReusedCells Image Data Path) : CellEvent → Prop
  | .completed index _ =>
      ∀ closure ∈ s.completing[index]?.join, ∀ completion ∈ s.store.completions[index]?,
        s.CalledInTurn closure
          (picture U look closure.view (brought U completion.1 completion.2))
  | _ => True

instance (s : ReusedCells Image Data Path) (view : CellView) : Decidable (s.Waiting view) :=
  inferInstanceAs (Decidable (_ ∈ s.underWay))

instance [DecidableEq Image] (s : ReusedCells Image Data Path) (e : CellEvent) :
    Decidable (s.InTurn U look e) := by
  unfold InTurn CalledInTurn
  split <;> infer_instance

variable {U look}
variable {s t : ReusedCells Image Data Path} {closure : Option CellClosure} {view : CellView}

/-! ### What is called -/

omit [DecidableEq Path] in
@[simp] theorem setView_self (v : CellImage Image) : (s.setView view v).views view = v :=
  Function.update_self ..

omit [DecidableEq Path] in
theorem setView_of_ne {other : CellView} (h : other ≠ view) (v : CellImage Image) :
    (s.setView view v).views other = s.views other :=
  Function.update_of_ne h ..

omit [DecidableEq Path] in
@[simp] theorem underWay_call (closure : Option CellClosure) (d : Delivery Image) :
    (s.call U look closure d).underWay = s.underWay := by
  cases closure <;> rfl

omit [DecidableEq Path] in
theorem views_call_of_ne (h : ∀ c ∈ closure, view ≠ c.view) (d : Delivery Image) :
    (s.call U look closure d).views view = s.views view := by
  cases closure with
  | none => rfl
  | some c => exact setView_of_ne (h c rfl) _

@[simp] theorem delivered_write (store : ImageStore Image Data Path) (pathComponent : String)
    (data : Option Data) (written : Bool) :
    (store.write U pathComponent data written).delivered = store.delivered := by
  unfold ImageStore.write
  split
  · split <;> rfl
  · rfl

/-- The completion of a download delivers what it brought. -/
theorem delivered_complete (store : ImageStore Image Data Path) (request : ImageRequest)
    (image : Option Image) (written : Bool) :
    (store.complete U request image written).delivered =
      store.delivered ++ [(request, brought U request image)] := by
  cases image with
  | none => rfl
  | some image =>
    have hwrite : ∀ pathComponent (data : Option Data) (d : Delivery Image),
        ((store.write U pathComponent data written).deliver request d).delivered =
          store.delivered ++ [(request, d)] := fun pathComponent data d =>
      congrArg (· ++ [(request, d)]) (delivered_write store pathComponent data written)
    cases request <;> exact hwrite _ _ _

theorem complete_frame (store : ImageStore Image Data Path) (request : ImageRequest)
    (image : Option Image) (written : Bool) :
    (store.complete U request image written).downloads = store.downloads ∧
      (store.complete U request image written).completions = store.completions := by
  have hwrite : ∀ pathComponent (data : Option Data),
      (store.write U pathComponent data written).downloads = store.downloads ∧
        (store.write U pathComponent data written).completions = store.completions := by
    intro pathComponent data
    unfold ImageStore.write
    split
    · split <;> exact ⟨rfl, rfl⟩
    · exact ⟨rfl, rfl⟩
  cases image with
  | none => exact ⟨rfl, rfl⟩
  | some image => cases request <;> exact hwrite _ _

omit [DecidableEq Path] in
theorem delivery_eq {before after : ImageStore Image Data Path} {request : ImageRequest}
    {d : Delivery Image} (h : after.delivered = before.delivered ++ [(request, d)]) :
    delivery before after = some d := by
  unfold delivery
  rw [h, List.getElem?_append_right (Nat.le_refl _), Nat.sub_self]
  rfl

theorem delivered_completed {store after : ImageStore Image Data Path} {index : Nat}
    {written : Bool} (hst : store.step U (.completed index written) = some after) :
    ∃ request image, store.completions[index]? = some (request, image) ∧
      after.delivered = store.delivered ++ [(request, brought U request image)] ∧
      after.downloads = store.downloads ∧
      after.completions = store.completions.eraseIdx index := by
  simp only [ImageStore.step] at hst
  split at hst
  · rename_i request image hcompletion
    obtain rfl := Option.some.inj hst
    exact ⟨request, image, hcompletion, delivered_complete _ request image written,
      complete_frame _ request image written⟩
  · cases hst

/-- A completed download calls its closure, which is under way no longer. -/
theorem step_completed {index : Nat} {written : Bool}
    (hst : s.step U look (.completed index written) = some t) :
    ∃ request image store, s.store.completions[index]? = some (request, image) ∧
      store.downloads = s.store.downloads ∧
      store.completions = s.store.completions.eraseIdx index ∧
      t = { s with store, completing := s.completing.eraseIdx index }.call U look
        s.completing[index]?.join (brought U request image) := by
  obtain ⟨store, hstore, rfl⟩ := Option.map_eq_some_iff.mp hst
  obtain ⟨request, image, hcompletion, hdelivered, hframe⟩ := delivered_completed hstore
  refine ⟨request, image, store, hcompletion, hframe.1, hframe.2, ?_⟩
  simp only [delivery_eq hdelivered]

variable (U look) in
/-- A fetch calls its closure at once, or has it under way. -/
theorem fetch_cases (s : ReusedCells Image Data Path) (closure : Option CellClosure)
    (request : ImageRequest) (written : Bool) :
    (∃ store d, s.fetch U look closure request written = { s with store }.call U look closure d) ∨
      ∃ store, s.fetch U look closure request written =
        { s with store, downloading := s.downloading ++ [closure] } := by
  unfold fetch
  cases hdelivery : delivery s.store (s.store.fetch U request written) with
  | some d => exact Or.inl ⟨_, d, by simp only [hdelivery]; rfl⟩
  | none => exact Or.inr ⟨_, by simp only [hdelivery]; rfl⟩

/-- A fetch delivers at once, or starts a download. -/
theorem fetch_delivers (store : ImageStore Image Data Path) (request : ImageRequest)
    (written : Bool) :
    (∃ d, (store.fetch U request written).delivered = store.delivered ++ [(request, d)] ∧
        (store.fetch U request written).downloads = store.downloads ∧
        (store.fetch U request written).completions = store.completions) ∨
      ∃ url, (store.fetch U request written).delivered = store.delivered ∧
        (store.fetch U request written).downloads = store.downloads ++ [(request, url)] ∧
        (store.fetch U request written).completions = store.completions := by
  simp only [ImageStore.fetch]
  split
  · exact Or.inl ⟨_, rfl, rfl, rfl⟩
  · split
    · rename_i url _
      unfold ImageStore.getImage
      split
      · exact Or.inl ⟨_, delivered_complete _ request _ written, complete_frame _ request _ written⟩
      · exact Or.inr ⟨url, rfl, rfl, rfl⟩
    · exact Or.inl ⟨_, rfl, rfl, rfl⟩

/-- Every download and every completion has its closure, or none of these cells. -/
structure Tracked (s : ReusedCells Image Data Path) : Prop where
  downloading : s.downloading.length = s.store.downloads.length
  completing : s.completing.length = s.store.completions.length

omit [DecidableEq Path] in
theorem tracked_created (store : ImageStore Image Data Path) : (created store).Tracked :=
  ⟨List.length_map _, List.length_map _⟩

omit [DecidableEq Path] in
theorem Tracked.call (h : s.Tracked) (closure : Option CellClosure) (d : Delivery Image) :
    (s.call U look closure d).Tracked := by
  cases closure with
  | none => exact h
  | some c => exact ⟨h.downloading, h.completing⟩

theorem Tracked.fetch (h : s.Tracked) (closure : Option CellClosure) (request : ImageRequest)
    (written : Bool) : (s.fetch U look closure request written).Tracked := by
  unfold ReusedCells.fetch
  rcases fetch_delivers (U := U) s.store request written with
    ⟨d, hdelivered, hdownloads, hcompletions⟩ | ⟨url, hdelivered, hdownloads, hcompletions⟩
  · simp only [delivery_eq hdelivered]
    exact Tracked.call (s := { s with store := s.store.fetch U request written })
      ⟨h.downloading.trans (congrArg List.length hdownloads.symm),
        h.completing.trans (congrArg List.length hcompletions.symm)⟩ closure d
  · have hnone : delivery s.store (s.store.fetch U request written) = none := by
      unfold delivery
      rw [hdelivered, List.getElem?_eq_none (Nat.le_refl _)]
      rfl
    simp only [hnone]
    refine ⟨?_, h.completing.trans (congrArg List.length hcompletions.symm)⟩
    simp only [hdownloads, List.length_append, h.downloading, List.length_singleton]

theorem Tracked.load (h : s.Tracked) (view : CellView) (request : ImageRequest) (written : Bool) :
    (s.load U look view request written).Tracked :=
  Tracked.fetch (s := s.setView view (s.views view).loading) ⟨h.downloading, h.completing⟩ _
    request written

theorem Tracked.step {e : CellEvent} (h : s.Tracked) (hst : s.step U look e = some t) :
    t.Tracked := by
  have hcleared : ∀ view, (s.clear view).Tracked := fun view => ⟨h.downloading, h.completing⟩
  cases e with
  | setUser user written =>
    obtain rfl := Option.some.inj hst
    cases user with
    | none => exact hcleared .profilePic
    | some user => exact (hcleared .profilePic).load _ _ written
  | setGame game backgroundWritten logoWritten =>
    obtain rfl := Option.some.inj hst
    have hboth : ((s.clear .background).clear .logo).Tracked :=
      ⟨h.downloading, h.completing⟩
    cases game with
    | none => exact hboth
    | some game => exact (hboth.load _ _ backgroundWritten).load _ _ logoWritten
  | fetch request written =>
    obtain rfl := Option.some.inj hst
    exact h.fetch none request written
  | downloaded index success =>
    obtain ⟨store, hstore, rfl⟩ := Option.map_eq_some_iff.mp hst
    simp only [ImageStore.step] at hstore
    split at hstore
    · rename_i request url hdownload
      obtain rfl := Option.some.inj hstore
      refine ⟨?_, ?_⟩
      · simp only [List.length_eraseIdx, h.downloading]
      · simp only [List.length_append, h.completing, List.length_singleton]
    · cases hstore
  | completed index written =>
    obtain ⟨request, image, store, -, hdownloads, hcompletions, rfl⟩ := step_completed hst
    refine Tracked.call (s := { s with store, completing := s.completing.eraseIdx index })
      ⟨h.downloading.trans (congrArg List.length hdownloads.symm), ?_⟩ _ _
    simp only [hcompletions, List.length_eraseIdx, h.completing]
  | evicted url =>
    obtain rfl := Option.some.inj hst
    exact ⟨h.downloading, h.completing⟩

/-! ### What is shown -/

omit [DecidableEq Path] in
/-- More closures are under way, and the view is as it was. -/
theorem Following.mono (h : s.Following view) (hviews : t.views view = s.views view)
    (hunderWay : s.Waiting view → some ⟨view, (s.views view).assignments⟩ ∈ t.underWay) :
    t.Following view := by
  unfold Following Waiting
  rw [hviews]
  exact h.imp_left hunderWay

omit [DecidableEq Path] in
theorem following_clear (s : ReusedCells Image Data Path) (view : CellView) :
    (s.clear view).Following view := by
  refine Or.inr ?_
  unfold clear
  rw [setView_self]
  rfl

omit [DecidableEq Path] in
theorem Following.setView {other : CellView} (h : s.Following view) (hne : view ≠ other)
    (v : CellImage Image) : (s.setView other v).Following view :=
  h.mono (setView_of_ne hne v) id

omit [DecidableEq Path] in
/-- The closure of the latest assignment writes, or finds its view empty. -/
theorem following_call_latest {c : CellClosure} {d : Delivery Image}
    (hlatest : c.assignment = (s.views c.view).assignments)
    (hshown : writes c.view (picture U look c.view d) = true ∨ (s.views c.view).image = none) :
    (s.call U look (some c) d).Following c.view := by
  refine Or.inr ?_
  simp only [call, setView_self, CellImage.called, if_pos hlatest]
  by_cases hwrites : writes c.view (picture U look c.view d) = true
  · rw [if_pos hwrites]
  · -- only the logo's closure does not write, and it has no image then
    rw [if_neg hwrites, hshown.resolve_left hwrites]
    unfold writes at hwrites
    simp only [Bool.or_eq_true, not_or, Bool.not_eq_true, Option.isSome_eq_false_iff] at hwrites
    rw [Option.isNone_iff_eq_none.mp hwrites.2]

omit [DecidableEq Path] in
/-- The closure of an earlier assignment comes before that of the latest, writes nothing or
    changes nothing. -/
theorem Following.call_earlier {c : CellClosure} {d : Delivery Image} (h : s.Following c.view)
    (hearlier : c.assignment ≠ (s.views c.view).assignments)
    (hshown : s.Waiting c.view ∨ writes c.view (picture U look c.view d) = false ∨
      picture U look c.view d = (s.views c.view).image) :
    (s.call U look (some c) d).Following c.view := by
  unfold Following Waiting
  rw [underWay_call]
  simp only [call, setView_self, CellImage.called, if_neg hearlier]
  rcases h with hwaiting | hobtained
  · exact Or.inl hwaiting
  · rcases hshown with hwaiting | hnothing | hsame
    · exact Or.inl hwaiting
    · refine Or.inr ?_
      rw [hnothing]
      exact hobtained
    · refine Or.inr ?_
      rw [hsame, ite_self]
      exact hobtained

/-- A fetch for another view, or for another caller. -/
theorem Following.fetch (h : s.Following view) (hne : ∀ c ∈ closure, view ≠ c.view)
    (request : ImageRequest) (written : Bool) :
    (s.fetch U look closure request written).Following view := by
  rcases fetch_cases U look s closure request written with ⟨store, d, heq⟩ | ⟨store, heq⟩
  · rw [heq]
    refine h.mono (views_call_of_ne hne d) fun hwaiting => ?_
    rw [underWay_call]
    exact hwaiting
  · rw [heq]
    refine h.mono rfl fun hwaiting => ?_
    rcases List.mem_append.mp hwaiting with hdownloading | hcompleting
    · exact List.mem_append_left _ (List.mem_append_left _ hdownloading)
    · exact List.mem_append_right _ hcompleting

theorem views_fetch_of_ne (hne : ∀ c ∈ closure, view ≠ c.view) (request : ImageRequest)
    (written : Bool) : (s.fetch U look closure request written).views view = s.views view := by
  rcases fetch_cases U look s closure request written with ⟨store, d, heq⟩ | ⟨store, heq⟩
  · rw [heq]
    exact views_call_of_ne hne d
  · rw [heq]

/-- The fetch of an empty view is answered at once, or under way. -/
theorem following_load (hempty : (s.views view).image = none) (request : ImageRequest)
    (written : Bool) : (s.load U look view request written).Following view := by
  have hloading : (s.setView view (s.views view).loading).views view = (s.views view).loading :=
    setView_self _
  unfold load
  rcases fetch_cases U look (s.setView view (s.views view).loading)
    (some ⟨view, (s.views view).assignments⟩) request written with ⟨store, d, heq⟩ | ⟨store, heq⟩
  · rw [heq]
    refine following_call_latest (c := ⟨view, (s.views view).assignments⟩) ?_ (Or.inr ?_)
    · exact (congrArg CellImage.assignments hloading).symm
    · exact (congrArg CellImage.image hloading).trans hempty
  · rw [heq]
    refine Or.inl (List.mem_append_left _ (List.mem_append_right _ (List.mem_singleton.mpr ?_)))
    have hassignments := congrArg CellImage.assignments hloading
    exact congrArg (fun n => some (CellClosure.mk view n)) hassignments

theorem Following.load {other : CellView} (h : s.Following view) (hne : view ≠ other)
    (request : ImageRequest) (written : Bool) :
    (s.load U look other request written).Following view :=
  (h.setView hne _).fetch (fun _ hc => Option.some.inj hc ▸ hne) request written

theorem following_setUser (h : s.Following view) (user : Option User) (written : Bool) :
    (s.setUser U look user written).Following view := by
  by_cases hview : view = .profilePic
  · subst hview
    cases user with
    | none => exact following_clear s .profilePic
    | some user =>
      have hempty : ((s.clear .profilePic).views .profilePic).image = none :=
        congrArg CellImage.image (setView_self _)
      exact following_load hempty _ written
  · have hcleared : (s.clear .profilePic).Following view := h.setView hview _
    cases user with
    | none => exact hcleared
    | some user => exact hcleared.load hview _ written

theorem following_setGame (h : s.Following view) (game : Option Game)
    (backgroundWritten logoWritten : Bool) :
    (s.setGame U look game backgroundWritten logoWritten).Following view := by
  unfold setGame
  generalize hs : (s.clear .background).clear .logo = cleared
  have hkept : cleared.Following view := by
    subst hs
    by_cases hlogo : view = .logo
    · exact hlogo ▸ following_clear _ _
    · refine Following.setView ?_ hlogo _
      by_cases hbackground : view = .background
      · exact hbackground ▸ following_clear _ _
      · exact h.setView hbackground _
  have hbackground : (cleared.views .background).image = none := by
    subst hs
    refine congrArg CellImage.image ((setView_of_ne (by decide) _).trans (setView_self _))
  have hlogo : (cleared.views .logo).image = none := by
    subst hs
    exact congrArg CellImage.image (setView_self _)
  cases game with
  | none => exact hkept
  | some game =>
    -- the fetch of the background leaves the logo empty
    have hstill : ((cleared.load U look .background (.gameBackground game)
        backgroundWritten).views .logo).image = none := by
      refine (congrArg CellImage.image (views_fetch_of_ne ?_ _ _)).trans ?_
      · exact fun c hc => Option.some.inj hc ▸ (show CellView.logo ≠ .background by decide)
      · exact (congrArg CellImage.image (setView_of_ne (by decide) _)).trans hlogo
    cases view with
    | logo => exact following_load hstill _ logoWritten
    | background =>
      exact (following_load hbackground _ backgroundWritten).load (by decide) _ logoWritten
    | profilePic => exact (hkept.load (by decide) _ _).load (by decide) _ logoWritten

omit [DecidableEq Path] in
/-- A download that has ended leaves its closure to the completion. -/
theorem underWay_downloaded {index : Nat} {store : ImageStore Image Data Path} {c : CellClosure}
    (h : some c ∈ s.underWay) :
    some c ∈ underWay { s with
      store
      downloading := s.downloading.eraseIdx index
      completing := s.completing ++ [s.downloading[index]?.join] } := by
  rcases List.mem_append.mp h with hdownloading | hcompleting
  · rcases List.mem_iff_getElem?.mp hdownloading with ⟨i, hi⟩
    by_cases hindex : i = index
    · refine List.mem_append_right _ (List.mem_append_right _ (List.mem_singleton.mpr ?_))
      rw [← hindex, hi]
      rfl
    · exact List.mem_append_left _ (List.mem_eraseIdx_iff_getElem?.mpr ⟨i, hindex, hi⟩)
  · exact List.mem_append_right _ (List.mem_append_left _ hcompleting)

omit [DecidableEq Path] in
/-- All other closures are still under way when one is called. -/
theorem underWay_completed {index : Nat} {store : ImageStore Image Data Path} {c : CellClosure}
    (h : some c ∈ s.underWay) (hother : s.completing[index]?.join ≠ some c) :
    some c ∈ underWay { s with store, completing := s.completing.eraseIdx index } := by
  rcases List.mem_append.mp h with hdownloading | hcompleting
  · exact List.mem_append_left _ hdownloading
  · obtain ⟨i, hi⟩ := List.mem_iff_getElem?.mp hcompleting
    have hindex : i ≠ index := by
      rintro rfl
      exact hother (by rw [hi]; rfl)
    exact List.mem_append_right _ (List.mem_eraseIdx_iff_getElem?.mpr ⟨i, hindex, hi⟩)

/-- **One completion in turn** leaves what was obtained for the latest assignment shown, or on
    its way. -/
theorem Following.completed {index : Nat} {written : Bool} (h : s.Following view)
    (hturn : s.InTurn U look (.completed index written))
    (hst : s.step U look (.completed index written) = some t) : t.Following view := by
  obtain ⟨request, image, store, hcompletion, -, -, rfl⟩ := step_completed hst
  generalize hclosure : s.completing[index]?.join = closure
  by_cases hview : ∃ c ∈ closure, c.view = view
  · obtain ⟨c, hc, rfl⟩ := hview
    rw [hc]
    have hcalled := hturn c (hclosure.trans hc) _ hcompletion
    unfold CalledInTurn at hcalled
    split at hcalled
    · rename_i hlatest
      exact following_call_latest hlatest hcalled
    · rename_i hearlier
      have hother : s.completing[index]?.join ≠ some ⟨c.view, (s.views c.view).assignments⟩ := by
        rw [hclosure, hc]
        exact fun heq => hearlier (congrArg CellClosure.assignment (Option.some.inj heq))
      have hkept : s.Waiting c.view → Waiting
          { s with store, completing := s.completing.eraseIdx index } c.view :=
        fun hwaiting => underWay_completed hwaiting hother
      have hrest : Following
          { s with store, completing := s.completing.eraseIdx index } c.view := h.mono rfl hkept
      exact hrest.call_earlier hearlier (hcalled.imp_left hkept)
  · have hne : ∀ c ∈ closure, view ≠ c.view := fun c hc heq => hview ⟨c, hc, heq.symm⟩
    refine h.mono (views_call_of_ne hne _) fun hwaiting => ?_
    rw [underWay_call]
    refine underWay_completed hwaiting fun heq => hview ⟨_, hclosure.symm.trans heq, rfl⟩

theorem Following.step {e : CellEvent} (h : s.Following view) (hturn : s.InTurn U look e)
    (hst : s.step U look e = some t) : t.Following view := by
  cases e with
  | setUser user written =>
    obtain rfl := Option.some.inj hst
    exact following_setUser h user written
  | setGame game backgroundWritten logoWritten =>
    obtain rfl := Option.some.inj hst
    exact following_setGame h game backgroundWritten logoWritten
  | fetch request written =>
    obtain rfl := Option.some.inj hst
    exact h.fetch (fun c hc => (by cases hc)) request written
  | downloaded index success =>
    obtain ⟨store, -, rfl⟩ := Option.map_eq_some_iff.mp hst
    exact h.mono rfl underWay_downloaded
  | completed index written => exact h.completed hturn hst
  | evicted url =>
    obtain rfl := Option.some.inj hst
    exact h.mono rfl id

/-! ### Runs -/

variable {events : List CellEvent} {store : ImageStore Image Data Path}

/-- **A cell shows what was obtained for the user or game it represents**, once all of its fetches
    have completed, in every run that calls their closures in turn. -/
theorem cell_current (run : Run (step U look) (InTurn U look) (created store) events s)
    (view : CellView) (hdone : ∀ closure : CellClosure, some closure ∉ s.underWay) :
    (s.views view).obtained = some (s.views view).image := by
  have hfollowing : s.Following view :=
    run.invariant (Following · view) (fun _ _ _ h hok hst => h.step hok hst) (Or.inr rfl)
  exact hfollowing.resolve_left (hdone _)

theorem closures_tracked
    (run : Run (step U look) (fun _ _ => True) (created store) events s) : s.Tracked :=
  run.invariant Tracked (fun _ _ _ h _ hst => h.step hst) (tracked_created store)

/-- The pictures as they are served, and one for those without. -/
def plainLook : CellLook String Unit := { square := fun _ => (), defaultProfilePic := "default" }

def withPicture (username : String) : User := { somebody username with profilePicUrl := username }

def withImages : Game := { chess with backgroundImageUrl := "board", logoImageUrl := "knight" }

/-- A game is shown, whose logo arrives before its background. -/
def logoFirst : List CellEvent :=
  [.setGame (some withImages) true true, .downloaded 1 true, .downloaded 0 true,
    .completed 0 true, .completed 0 true]

theorem cell_current_logoFirst :
    ∃ s, Run (step ImageStore.faithful plainLook) (InTurn ImageStore.faithful plainLook)
        (created .empty) logoFirst s ∧
      (s.views .logo).image = some "knight" ∧
      (s.views .logo).obtained = some (s.views .logo).image := by
  have hend : (exec (step ImageStore.faithful plainLook)
      (fun s e => decide (s.InTurn ImageStore.faithful plainLook e)) (created .empty)
        logoFirst).map (fun s => (s.underWay, (s.views .logo).image)) =
      some ([], some "knight") := by
    decide +kernel
  obtain ⟨s, hexec, hs⟩ := Option.map_eq_some_iff.mp hend
  have hunderWay : s.underWay = [] := congrArg Prod.fst hs
  have run := run_of_exec (fun _ _ h => of_decide_eq_true h) hexec
  exact ⟨s, run, congrArg Prod.snd hs, cell_current run .logo fun _ hclosure =>
    (by rw [hunderWay] at hclosure; cases hclosure)⟩

/-- A cell is given another user, whose picture is on disk, while that of the first is
    downloaded. -/
def lateDownload : List CellEvent :=
  [.fetch (.profilePicture "bob") true, .downloaded 0 true, .completed 0 true,
    .setUser (some (withPicture "alice")) true, .setUser (some (withPicture "bob")) true,
    .downloaded 0 true, .completed 0 true]

theorem not_always_ownPicture :
    ¬ ∀ (U : Platform String String Unit String) (look : CellLook String Unit)
      (events : List CellEvent) (s : ReusedCells String String String),
      Run (step U look) (fun _ _ => True) (created .empty) events s →
      (∀ closure : CellClosure, some closure ∉ s.underWay) →
      ∀ view, (s.views view).obtained = some (s.views view).image := by
  intro hall
  have hend : (exec (step ImageStore.faithful plainLook) (fun _ _ => true) (created .empty)
      lateDownload).map (fun s => (s.underWay, s.views .profilePic)) =
      some ([], { image := some "alice", assignments := 2, obtained := some (some "bob") }) := by
    decide +kernel
  obtain ⟨s, hexec, hs⟩ := Option.map_eq_some_iff.mp hend
  have hunderWay : s.underWay = [] := congrArg Prod.fst hs
  have hview : s.views .profilePic =
      { image := some "alice", assignments := 2, obtained := some (some "bob") } :=
    congrArg Prod.snd hs
  have hcurrent := hall _ _ _ s (run_of_exec (fun _ _ _ => trivial) hexec)
    (fun _ hclosure => (by rw [hunderWay] at hclosure; cases hclosure)) .profilePic
  rw [hview] at hcurrent
  revert hcurrent
  decide

end ReusedCells

end TeamUp
