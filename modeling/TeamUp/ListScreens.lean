import TeamUp.ChatScreen
import TeamUp.Prompts
import TeamUp.RequestCells
import TeamUp.Rows

/-!
# The screens of the teammates and of the messages

Both screens list what a controller publishes and reload when it posts its notification.  A
button of a cell, a swipe or a selection goes by the row, so it meets the item that the cell
shows only while no reload is due.  From there on a removal goes by the teammate: the sheet
holds the teammate and the prompt names the teammate, whatever is published meanwhile, and the
teammate is forgotten with the first acceptance, so that a second tap removes nobody.
-/

namespace TeamUp

/-! ### A list that is published -/

/-- The list of a controller, filled by its observer, on a screen. -/
structure LiveList (Read Entry Item : Type) where
  board : Board Tree Read Entry (List Item)
  rows : Rows Item
  /-- `noDataView.isHidden` -/
  noDataHidden : Bool

inductive LiveEvent where
  /-- The observer is handed a snapshot, a read returns, or a group of them is joined. -/
  | board (e : BoardEvent Tree Tree)
  /-- The list is emptied, when nobody is signed in or at a log-out. -/
  | cleared
  /-- A reload on the main queue runs. -/
  | reload
  | layout
  | cellForItemAt (row : Nat)

namespace LiveList

variable {Element Read Entry Item : Type}

def items (s : LiveList Read Entry Item) : List Item := s.board.mirror

/-- The view is loaded. -/
def opened (board : Board Tree Read Entry (List Item)) : LiveList Read Entry Item :=
  { board, rows := .created, noDataHidden := !board.mirror.isEmpty }

/-- The observer of the notification, which puts a reload on the main queue. -/
def reloadData (s : LiveList Read Entry Item) : LiveList Read Entry Item :=
  { s with rows := s.rows.post }

def step (O : Observer Tree Element Read Tree Entry (List Item)) (s : LiveList Read Entry Item) :
    LiveEvent → Option (LiveList Read Entry Item)
  | .board e => (O.step s.board e).map fun board =>
      if RequestsScreen.posts e then { s with board }.reloadData else { s with board }
  | .cleared => some { s with board := { s.board with mirror := [] } }.reloadData
  | .reload => s.rows.reload.map fun rows => { s with rows, noDataHidden := !s.items.isEmpty }
  | .layout => (s.rows.layout s.items).map fun rows => { s with rows }
  | .cellForItemAt row => (s.rows.cellForItemAt s.items row).map fun rows => { s with rows }

/-- The screen shows the list, when no reload is due. -/
structure Current (s : LiveList Read Entry Item) : Prop where
  rows : s.rows.Current s.items
  noData : s.rows.view.reloads = 0 → s.noDataHidden = !s.items.isEmpty

variable {O : Observer Tree Element Read Tree Entry (List Item)}
variable {s t : LiveList Read Entry Item} {e : LiveEvent}

theorem current_opened (board : Board Tree Read Entry (List Item)) : (opened board).Current where
  rows := Rows.current_created _
  noData := fun _ => rfl

theorem current_reloadData (s : LiveList Read Entry Item) : s.reloadData.Current where
  rows := Rows.current_post _ _
  noData := fun hnone => (Nat.succ_ne_zero _ hnone).elim

/-- An observer that reads for every dictionary, and publishes for anything else. -/
def Reads (O : Observer Tree Element Read Tree Entry (List Item)) : Prop :=
  ∀ x : Tree, x.asDictionary.isSome → ∃ elements, O.react x = .inr elements

/-- Without a notification the list stays as it is. -/
theorem mirror_of_silent (hreads : Reads O) {e : BoardEvent Tree Tree}
    {b c : Board Tree Read Entry (List Item)} (hsilent : RequestsScreen.posts e = false)
    (hst : O.step b e = some c) : c.mirror = b.mirror := by
  cases e with
  | observed snapshot =>
    obtain rfl := Option.some.inj hst
    have hdictionary : (Tree.asDictionary snapshot).isSome := by
      simpa [RequestsScreen.posts] using hsilent
    obtain ⟨elements, helements⟩ := hreads snapshot hdictionary
    simp [Observer.observe, helements]
  | returned fork index response =>
    obtain ⟨before, f, after, earlier, item, later, -, -, -, -, rfl⟩ :=
      Observer.step_returned hst
    rfl
  | joined fork => cases hsilent

theorem Current.step (hreads : Reads O) (h : s.Current) (hst : s.step O e = some t) :
    t.Current := by
  cases e with
  | board e =>
    obtain ⟨board, hboard, rfl⟩ := Option.map_eq_some_iff.mp hst
    cases hposts : RequestsScreen.posts e with
    | true => exact current_reloadData _
    | false =>
      have hmirror := mirror_of_silent hreads hposts hboard
      constructor
      · intro hidle
        simpa [items, hmirror] using h.rows hidle
      · intro hnone
        simpa [items, hmirror] using h.noData hnone
  | cleared =>
    obtain rfl := Option.some.inj hst
    exact current_reloadData _
  | reload =>
    obtain ⟨rows, hrows, rfl⟩ := Option.map_eq_some_iff.mp hst
    exact ⟨Rows.current_reload hrows, fun _ => rfl⟩
  | layout =>
    obtain ⟨rows, hrows, rfl⟩ := Option.map_eq_some_iff.mp hst
    refine ⟨Rows.current_layout hrows, fun hnone => h.noData ?_⟩
    obtain ⟨view, hview, rfl⟩ := Option.map_eq_some_iff.mp hrows
    unfold CollectionView.layout at hview
    split at hview
    · obtain rfl := Option.some.inj hview
      exact hnone
    · cases hview
  | cellForItemAt row =>
    obtain ⟨rows, hrows, rfl⟩ := Option.map_eq_some_iff.mp hst
    refine ⟨h.rows.cellForItemAt hrows, fun hnone => h.noData ?_⟩
    unfold Rows.cellForItemAt at hrows
    split at hrows
    · obtain ⟨item, -, rfl⟩ := Option.map_eq_some_iff.mp hrows
      exact hnone
    · cases hrows

/-- The item shown in a row, and the item in the list that a tap on its cell goes on with; the
    program stops at a row beyond the list. -/
def met (s : LiveList Read Entry Item) (row : Nat) : Option (Item × Item) :=
  if s.rows.view.needsReload then none
  else (s.rows.shown row).bind fun shown => s.items[row]?.map fun item => (shown, item)

/-- **When no reload is due, a tap on a cell goes on with the item that it shows.** -/
theorem Current.met (h : s.Current) (hidle : s.rows.Idle) {row : Nat} {shown item : Item}
    (hmet : s.met row = some (shown, item)) : item = shown := by
  unfold LiveList.met at hmet
  split at hmet
  · cases hmet
  · obtain ⟨shown', hshown, hitem⟩ := Option.bind_eq_some_iff.mp hmet
    obtain ⟨item', hget, heq⟩ := Option.map_eq_some_iff.mp hitem
    obtain ⟨rfl, rfl⟩ := Prod.mk.inj heq
    have hsame := h.rows.shown hidle hshown
    rw [hget] at hsame
    exact Option.some.inj hsame

theorem reads_fetchTeammates : Reads fetchTeammates := by
  intro x hx
  obtain ⟨dictionary, hdictionary⟩ := Option.isSome_iff_exists.mp hx
  exact ⟨dictionary.keys, by simp [fetchTeammates, fetchUsers, hdictionary]⟩

theorem reads_fetchChats : Reads fetchChats :=
  fun _ hx => ⟨_, FetchChats.react_dictionary hx⟩

end LiveList

/-! ### The teammates -/

theorem PromptUser.presented_of_accepted {s t : PromptUser} (hst : s.step .acceptTapped = some t) :
    t.presented = true := by
  simp only [PromptUser.step] at hst
  split at hst
  · rename_i hguard
    obtain rfl := Option.some.inj hst
    exact (Bool.and_eq_true_iff.mp hguard).1
  · cases hst

structure TeammatesScreen where
  list : LiveList String User User
  /-- The sheet that is presented for a teammate. -/
  sheet : Option User
  /-- The prompt that is presented, with the teammate its title names. -/
  prompt : Option (User × PromptUser)
  teammateToRemove : Option User
  /-- The calls of `removeTeammate`. -/
  removed : List User
  /-- The teammates named by the prompts so far. -/
  prompted : List User
  /-- The teammates shown by the cells whose button for more was tapped. -/
  tapped : List User
  /-- The chats opened, with the teammate the tapped cell showed. -/
  opened : List (User × DirectChat)
  /-- The users whose profile was opened, with the teammate the tapped cell showed. -/
  profiles : List (User × User)

inductive TeammatesEvent where
  | list (e : LiveEvent)
  | messageButtonTapped (row : Nat) (chats : List DirectChat)
  | moreButtonTapped (row : Nat)
  | didSelectItemAt (row : Nat)
  /-- The actions of the sheet. -/
  | removeTeammateAction
  | cancelAction
  | prompt (e : PromptEvent)

namespace TeammatesScreen

def created (teammates : Board Tree String User (List User)) : TeammatesScreen :=
  { list := .opened teammates, sheet := none, prompt := none, teammateToRemove := none
    removed := [], prompted := [], tapped := [], opened := [], profiles := [] }

/-- A sheet is not presented over another one, nor over a prompt. -/
def moreButtonTapped (s : TeammatesScreen) (shown teammate : User) : TeammatesScreen :=
  { s with
    sheet := if s.sheet.isNone && s.prompt.isNone then some teammate else s.sheet
    tapped := s.tapped ++ [shown] }

def removeTeammateAction (s : TeammatesScreen) (teammate : User) : TeammatesScreen :=
  { s with
    sheet := none, prompt := some (teammate, .opened (-1) true)
    teammateToRemove := some teammate, prompted := s.prompted ++ [teammate] }

def userAcceptedPrompt (s : TeammatesScreen) : TeammatesScreen :=
  match s.teammateToRemove with
  | some teammate => { s with removed := s.removed ++ [teammate], teammateToRemove := none }
  | none => s

def step (s : TeammatesScreen) : TeammatesEvent → Option TeammatesScreen
  | .list e => (s.list.step fetchTeammates e).map fun list => { s with list }
  | .messageButtonTapped row chats => (s.list.met row).map fun (shown, teammate) =>
      { s with opened := s.opened ++ [(shown, createChat chats teammate)] }
  | .moreButtonTapped row => (s.list.met row).map fun (shown, teammate) =>
      s.moreButtonTapped shown teammate
  | .didSelectItemAt row => (s.list.met row).map fun (shown, user) =>
      { s with profiles := s.profiles ++ [(shown, user)] }
  | .removeTeammateAction => s.sheet.map s.removeTeammateAction
  | .cancelAction => s.sheet.map fun _ => { s with sheet := none }
  | .prompt e => s.prompt.bind fun (teammate, prompt) => (prompt.step e).map fun prompt =>
      let s := { s with prompt := if prompt.presented then some (teammate, prompt) else none }
      if e = .acceptTapped then s.userAcceptedPrompt else s

/-- Cells are tapped when no reload is due. -/
def Deliberate (s : TeammatesScreen) : TeammatesEvent → Prop
  | .messageButtonTapped .. | .moreButtonTapped _ | .didSelectItemAt _ => s.list.rows.Idle
  | _ => True

instance (s : TeammatesScreen) (e : TeammatesEvent) : Decidable (s.Deliberate e) := by
  rcases e with _ | _ | _ | _ | _ | _ | _ <;> dsimp only [Deliberate] <;> infer_instance

/-- Whom the next acceptance removes. -/
def pending (s : TeammatesScreen) : List User :=
  if s.prompt.isSome then s.teammateToRemove.toList else []

/-- What was done so far was meant. -/
structure Meant (s : TeammatesScreen) : Prop where
  current : s.list.Current
  named : ∀ p ∈ s.prompt, ∀ teammate ∈ s.teammateToRemove, teammate = p.1
  removed : (s.removed ++ s.pending).Sublist s.prompted
  prompted : (s.prompted ++ s.sheet.toList).Sublist s.tapped
  opened : ∀ p ∈ s.opened, p.2.chatPartner.isEqual p.1 = true
  profiles : ∀ p ∈ s.profiles, p.2 = p.1

variable {s t : TeammatesScreen} {e : TeammatesEvent}

theorem meant_created (teammates : Board Tree String User (List User)) :
    (created teammates).Meant where
  current := LiveList.current_opened teammates
  named := fun p hp => by cases hp
  removed := List.Sublist.slnil
  prompted := List.Sublist.slnil
  opened := fun p hp => by cases hp
  profiles := fun p hp => by cases hp

/-- The chat that is opened is with the teammate, or with an equal one. -/
theorem createChat_isEqual (chats : List DirectChat) (user : User) :
    (createChat chats user).chatPartner.isEqual user = true := by
  unfold createChat
  split
  · rename_i chat hchat
    have hequal := List.find?_some hchat
    exact hequal
  · exact User.isEqual_refl user

theorem Meant.moreButtonTapped (h : s.Meant) (shown : User) :
    (s.moreButtonTapped shown shown).Meant where
  current := h.current
  named := h.named
  removed := h.removed
  prompted := by
    have hprompted := h.prompted
    unfold TeammatesScreen.moreButtonTapped
    split_ifs with hfree
    · obtain ⟨hsheet, -⟩ := Bool.and_eq_true_iff.mp hfree
      rw [Option.isNone_iff_eq_none.mp hsheet, Option.toList_none, List.append_nil] at hprompted
      exact hprompted.append (List.Sublist.refl _)
    · exact hprompted.trans (List.sublist_append_left _ _)
  opened := h.opened
  profiles := h.profiles

theorem Meant.removeTeammateAction (h : s.Meant) {teammate : User}
    (hsheet : s.sheet = some teammate) : (s.removeTeammateAction teammate).Meant where
  current := h.current
  named := by
    intro p hp u hu
    cases hp
    cases hu
    rfl
  removed := by
    have hremoved := (List.sublist_append_left s.removed s.pending).trans h.removed
    exact hremoved.append (List.Sublist.refl [teammate])
  prompted := by
    have hprompted := h.prompted
    rw [hsheet] at hprompted
    simpa [TeammatesScreen.removeTeammateAction] using hprompted
  opened := h.opened
  profiles := h.profiles

/-- A prompt that goes on, or goes away, removes nobody else. -/
theorem Meant.withPrompt (h : s.Meant) {teammate : User} {prompt : PromptUser}
    (hprompt : s.prompt = some (teammate, prompt)) (prompt' : PromptUser) :
    { s with prompt := if prompt'.presented then some (teammate, prompt') else none }.Meant := by
  refine ⟨h.current, ?_, ?_, h.prompted, h.opened, h.profiles⟩
  · intro p hp u hu
    split_ifs at hp
    · cases hp
      exact h.named (teammate, prompt) hprompt u hu
    · cases hp
  · refine ((List.Sublist.refl s.removed).append ?_).trans h.removed
    have hpending : s.pending = s.teammateToRemove.toList := by simp [pending, hprompt]
    rw [hpending, pending]
    split
    · exact List.Sublist.refl _
    · exact List.nil_sublist _

/-- An acceptance removes whom the prompt names, and the next one nobody. -/
theorem Meant.userAcceptedPrompt (h : s.Meant) (hprompt : s.prompt.isSome = true) :
    s.userAcceptedPrompt.Meant := by
  unfold TeammatesScreen.userAcceptedPrompt
  cases hteammate : s.teammateToRemove with
  | none => exact h
  | some teammate =>
    have hremoved := h.removed
    rw [pending, if_pos hprompt, hteammate, Option.toList_some] at hremoved
    refine ⟨h.current, fun p hp u hu => (by cases hu), ?_, h.prompted, h.opened, h.profiles⟩
    simpa [pending, hprompt] using hremoved

/-- **A step of the screen.** -/
theorem Meant.step (h : s.Meant) (hidle : s.Deliberate e) (hst : s.step e = some t) :
    t.Meant := by
  cases e with
  | list e =>
    obtain ⟨list, hlist, rfl⟩ := Option.map_eq_some_iff.mp hst
    exact ⟨h.current.step LiveList.reads_fetchTeammates hlist, h.named, h.removed, h.prompted,
      h.opened, h.profiles⟩
  | messageButtonTapped row chats =>
    obtain ⟨⟨shown, teammate⟩, hmet, rfl⟩ := Option.map_eq_some_iff.mp hst
    obtain rfl := h.current.met hidle hmet
    refine ⟨h.current, h.named, h.removed, h.prompted, ?_, h.profiles⟩
    exact List.forall_mem_append.mpr ⟨h.opened,
      List.forall_mem_singleton.mpr (createChat_isEqual chats _)⟩
  | moreButtonTapped row =>
    obtain ⟨⟨shown, teammate⟩, hmet, rfl⟩ := Option.map_eq_some_iff.mp hst
    obtain rfl := h.current.met hidle hmet
    exact h.moreButtonTapped _
  | didSelectItemAt row =>
    obtain ⟨⟨shown, user⟩, hmet, rfl⟩ := Option.map_eq_some_iff.mp hst
    have hsame := h.current.met hidle hmet
    refine ⟨h.current, h.named, h.removed, h.prompted, h.opened, ?_⟩
    exact List.forall_mem_append.mpr ⟨h.profiles, List.forall_mem_singleton.mpr hsame⟩
  | removeTeammateAction =>
    obtain ⟨teammate, hsheet, rfl⟩ := Option.map_eq_some_iff.mp hst
    exact h.removeTeammateAction hsheet
  | cancelAction =>
    obtain ⟨teammate, hsheet, rfl⟩ := Option.map_eq_some_iff.mp hst
    have hprompted := (List.sublist_append_left s.prompted s.sheet.toList).trans h.prompted
    exact ⟨h.current, h.named, h.removed, by simpa using hprompted, h.opened, h.profiles⟩
  | prompt e =>
    obtain ⟨⟨teammate, prompt⟩, hprompt, hstep⟩ := Option.bind_eq_some_iff.mp hst
    obtain ⟨prompt', hprompt', rfl⟩ := Option.map_eq_some_iff.mp hstep
    have hkept := h.withPrompt hprompt prompt'
    by_cases haccept : e = .acceptTapped
    · -- the prompt stays until its dismissal has been animated
      have hpresented := PromptUser.presented_of_accepted (haccept ▸ hprompt')
      simpa [haccept] using hkept.userAcceptedPrompt (by simp [hpresented])
    · simpa [haccept] using hkept

/-- **A teammate is removed only after a prompt that names the teammate, and a prompt comes only
    after a tap on the cell that shows the teammate**, once for each tap, whatever is
    published while the sheet and the prompt are up and however often they are tapped.  Chats
    and profiles are opened with the teammate of the cell as well. -/
theorem taps_meant {teammates : Board Tree String User (List User)} {events : List TeammatesEvent}
    (run : Run step Deliberate (created teammates) events t) :
    t.removed.Sublist t.prompted ∧ t.prompted.Sublist t.tapped ∧
      (∀ p ∈ t.prompt, ∀ teammate ∈ t.teammateToRemove, teammate = p.1) ∧
      (∀ p ∈ t.opened, p.2.chatPartner.isEqual p.1 = true) ∧ ∀ p ∈ t.profiles, p.2 = p.1 := by
  have hmeant := run.invariant Meant (fun u e v hu hidle hst => hu.step hidle hst)
    (meant_created teammates)
  exact ⟨(List.sublist_append_left _ _).trans hmeant.removed,
    (List.sublist_append_left _ _).trans hmeant.prompted, hmeant.named, hmeant.opened,
    hmeant.profiles⟩

/-- The more button of carol's cell is tapped; while the sheet is up bob has taken her row, and
    the prompt is accepted twice. -/
def removesCarol : List TeammatesEvent :=
  [.list (.board (.observed (teammatesSnapshot ["carol1"]))),
    .list (.board (.returned 0 0 (record "carol1"))), .list (.board (.joined 0)),
    .list .reload, .list .layout, .list (.cellForItemAt 0), .moreButtonTapped 0,
    .list (.board (.observed (teammatesSnapshot ["bobbob"]))),
    .list (.board (.returned 1 0 (record "bobbob"))), .list (.board (.joined 1)),
    .list .reload, .list .layout, .list (.cellForItemAt 0),
    .removeTeammateAction, .prompt .acceptTapped, .prompt .acceptTapped,
    .prompt .animationCompleted]

theorem taps_meant_removesCarol :
    ∃ t, exec step (fun s e => decide (s.Deliberate e)) (created (.initial [])) removesCarol =
        some t ∧ Mirrors.userNames t.removed = ["carol1"] ∧ t.removed.Sublist t.prompted ∧
      t.prompted.Sublist t.tapped := by
  have hend : (exec step (fun s e => decide (s.Deliberate e)) (created (.initial []))
      removesCarol).map (fun t => Mirrors.userNames t.removed) = some ["carol1"] := by
    decide +kernel
  obtain ⟨t, ht, hremoved⟩ := Option.map_eq_some_iff.mp hend
  have hmeant := taps_meant (run_of_exec (fun s e h => of_decide_eq_true h) ht)
  exact ⟨t, ht, hremoved, hmeant.1, hmeant.2.1⟩

end TeammatesScreen

/-! ### The messages -/

structure MessagesScreen where
  list : LiveList (String × Tree) DirectChat DirectChat
  /-- The calls of `deleteDirectChat`, with the chat the swiped cell showed. -/
  deleted : List (DirectChat × DirectChat)
  /-- The chats opened, with the chat the selected cell showed. -/
  opened : List (DirectChat × DirectChat)

inductive MessagesEvent where
  | list (e : LiveEvent)
  | viewWillAppear
  /-- A swipe is committed with Delete. -/
  | commitDelete (row : Nat)
  | didSelectRowAt (row : Nat)

namespace MessagesScreen

def created (chats : Board Tree (String × Tree) DirectChat (List DirectChat)) : MessagesScreen :=
  { list := .opened chats, deleted := [], opened := [] }

/-- A deletion leaves the list alone; the row goes with the next publication. -/
def step (s : MessagesScreen) : MessagesEvent → Option MessagesScreen
  | .list e => (s.list.step fetchChats e).map fun list => { s with list }
  | .viewWillAppear => some { s with list := s.list.reloadData }
  | .commitDelete row => (s.list.met row).map fun met => { s with deleted := s.deleted ++ [met] }
  | .didSelectRowAt row => (s.list.met row).map fun met => { s with opened := s.opened ++ [met] }

/-- Rows are swiped and selected when no reload is due. -/
def Deliberate (s : MessagesScreen) : MessagesEvent → Prop
  | .commitDelete _ | .didSelectRowAt _ => s.list.rows.Idle
  | _ => True

instance (s : MessagesScreen) (e : MessagesEvent) : Decidable (s.Deliberate e) := by
  rcases e with _ | _ | _ | _ <;> dsimp only [Deliberate] <;> infer_instance

/-- What was done so far was meant. -/
structure Meant (s : MessagesScreen) : Prop where
  current : s.list.Current
  deleted : ∀ p ∈ s.deleted, p.2 = p.1
  opened : ∀ p ∈ s.opened, p.2 = p.1

variable {s t : MessagesScreen} {e : MessagesEvent}

theorem meant_created (chats : Board Tree (String × Tree) DirectChat (List DirectChat)) :
    (created chats).Meant where
  current := LiveList.current_opened chats
  deleted := fun p hp => by cases hp
  opened := fun p hp => by cases hp

theorem Meant.step (h : s.Meant) (hidle : s.Deliberate e) (hst : s.step e = some t) :
    t.Meant := by
  cases e with
  | list e =>
    obtain ⟨list, hlist, rfl⟩ := Option.map_eq_some_iff.mp hst
    exact ⟨h.current.step LiveList.reads_fetchChats hlist, h.deleted, h.opened⟩
  | viewWillAppear =>
    obtain rfl := Option.some.inj hst
    exact ⟨LiveList.current_reloadData s.list, h.deleted, h.opened⟩
  | commitDelete row =>
    obtain ⟨met, hmet, rfl⟩ := Option.map_eq_some_iff.mp hst
    have hsame := h.current.met hidle hmet
    refine ⟨h.current, ?_, h.opened⟩
    exact List.forall_mem_append.mpr ⟨h.deleted, List.forall_mem_singleton.mpr hsame⟩
  | didSelectRowAt row =>
    obtain ⟨met, hmet, rfl⟩ := Option.map_eq_some_iff.mp hst
    have hsame := h.current.met hidle hmet
    refine ⟨h.current, h.deleted, ?_⟩
    exact List.forall_mem_append.mpr ⟨h.opened, List.forall_mem_singleton.mpr hsame⟩

/-- **The chats deleted and opened are those the cells showed**, and the screen shows the chats
    whenever no reload is due. -/
theorem swipes_meant {chats : Board Tree (String × Tree) DirectChat (List DirectChat)}
    {events : List MessagesEvent} (run : Run step Deliberate (created chats) events t) :
    t.list.Current ∧ (∀ p ∈ t.deleted, p.2 = p.1) ∧ ∀ p ∈ t.opened, p.2 = p.1 := by
  have hmeant := run.invariant Meant (fun u e v hu hidle hst => hu.step hidle hst)
    (meant_created chats)
  exact ⟨hmeant.current, hmeant.deleted, hmeant.opened⟩

/-- Carol's chat is opened, and deleted before it is gone. -/
def deletesCarol : List MessagesEvent :=
  [.viewWillAppear, .list .reload, .list .layout, .list (.cellForItemAt 0), .didSelectRowAt 0,
    .commitDelete 0, .list (.board (.observed .empty)), .list .reload, .list .layout]

def carolsChat : DirectChat :=
  { chatPartner := somebody "carol1", messages := [newMessage "carol1" "hi" 5 "-1"] }

theorem swipes_meant_deletesCarol :
    ∃ t, exec step (fun s e => decide (s.Deliberate e)) (created (.initial [carolsChat]))
        deletesCarol = some t ∧ t.deleted.map Prod.fst = [carolsChat] ∧ t.list.Current ∧
      ∀ p ∈ t.deleted, p.2 = p.1 := by
  have hend : (exec step (fun s e => decide (s.Deliberate e)) (created (.initial [carolsChat]))
      deletesCarol).map (fun t => t.deleted.map Prod.fst) = some [carolsChat] := by
    decide +kernel
  obtain ⟨t, ht, hdeleted⟩ := Option.map_eq_some_iff.mp hend
  have hmeant := swipes_meant (run_of_exec (fun s e h => of_decide_eq_true h) ht)
  exact ⟨t, ht, hdeleted, hmeant.1, hmeant.2.1⟩

end MessagesScreen

end TeamUp
