import TeamUp.FetchChats

/-!
# The live mirrors

Three mirrors of the current user's data are filled by observers that fork a group of
reads for every snapshot: the chats, the teammates and the teammate requests.  The
fourth, the current game, needs the catalogue and may fetch it first.  A mirror agrees
with the last snapshot once everything has returned, as long as no older snapshot
publishes after a newer one has; nothing in the code sees to that.
-/

namespace TeamUp

/-! ### Teammates and teammate requests -/

/-- Remove the first user equal to this one and put this one in front. -/
def moveToFront (sortedTeammates : List User) (teammate : User) : List User :=
  if teammate.currentlyPlaying.isSome then
    match sortedTeammates.findIdx? fun u => u.isEqual teammate with
    | some index => teammate :: sortedTeammates.eraseIdx index
    | none => sortedTeammates
  else sortedTeammates

def sortTeammates (teammates : List User) : List User :=
  if teammates.length ≤ 1 then teammates
  else
    let sortedTeammates := teammates.mergeSort fun a b =>
      !decide (lowercased b.username < lowercased a.username)
    sortedTeammates.reverse.foldl moveToFront sortedTeammates

/-- An observer that looks a user up for every key. -/
def fetchUsers (join : List User → List User) :
    Observer Tree String String Tree User (List User) where
  react := fun snapshot =>
    match snapshot.asDictionary with
    | some dictionary => .inr dictionary.keys
    | none => .inl []
  start := some
  completion := fun _ response => some (fetchedUser response)
  join := join

def fetchTeammates : Observer Tree String String Tree User (List User) := fetchUsers sortTeammates

def fetchTeammateRequests : Observer Tree String String Tree User (List User) :=
  fetchUsers fun users => users

/-! ### The current game -/

def sortedGames (games : List Game) : List Game :=
  games.mergeSort fun a b => !decide (b.name < a.name)

/-- The games `fetchAllGames` leaves in the controller. -/
def fetchedAllGames (games : List Game) (response : Tree) : List Game :=
  match response.asDictionary with
  | some gamesDictionary => sortedGames (gamesInDictionary gamesDictionary)
  | none => games

/-- `GameController` with the snapshots its observer was handed. -/
structure CurrentGame where
  games : List Game
  userCurrentlyPlayedGame : Option Game
  snapshots : List Tree
  /-- The fetches of the catalogue under way: the number of the snapshot, and its name. -/
  waiting : List (Nat × String)
  /-- The snapshots whose game was published, the last one first. -/
  updated : List Nat
deriving DecidableEq

namespace CurrentGame

def initial (games : List Game) (game : Option Game) : CurrentGame :=
  { games, userCurrentlyPlayedGame := game, snapshots := [], waiting := [], updated := [] }

def updateCurrentlyPlayedGame (s : CurrentGame) (number : Nat) (game : Option Game) :
    CurrentGame :=
  { s with userCurrentlyPlayedGame := game, updated := number :: s.updated }

/-- The observer of `fetchCurrentlyPlayedGame`. -/
def fetchCurrentlyPlayedGame (s : CurrentGame) (snapshot : Tree) : CurrentGame :=
  let number := s.snapshots.length
  let s := { s with snapshots := s.snapshots ++ [snapshot] }
  match snapshot.asString with
  | some gameName =>
      if s.games.isEmpty then { s with waiting := s.waiting ++ [(number, gameName)] }
      else s.updateCurrentlyPlayedGame number (getGame s.games gameName)
  | none => s.updateCurrentlyPlayedGame number none

inductive Event where
  | observed (snapshot : Tree)
  | returned (index : Nat) (response : Tree)
deriving DecidableEq

def step (s : CurrentGame) : Event → Option CurrentGame
  | .observed snapshot => some (s.fetchCurrentlyPlayedGame snapshot)
  | .returned index response =>
      match s.waiting[index]? with
      | some (number, gameName) =>
          let s := { s with
            games := fetchedAllGames s.games response
            waiting := s.waiting.eraseIdx index }
          some (s.updateCurrentlyPlayedGame number (getGame s.games gameName))
      | none => none

/-- The catalogue a snapshot asked for arrives only while no newer one was published. -/
def InTurn (s : CurrentGame) : Event → Prop
  | .returned index _ => ∀ e ∈ s.waiting[index]?, ∀ n ∈ s.updated, n ≤ e.1
  | .observed _ => True

instance (s : CurrentGame) (e : Event) : Decidable (InTurn s e) := by
  cases e <;> unfold InTurn <;> infer_instance

/-- Once every fetch of the catalogue has returned, the current game is the one the last
    snapshot names. -/
def Agrees (s : CurrentGame) : Prop :=
  s.waiting = [] → ∀ snapshot ∈ s.snapshots.getLast?,
    s.userCurrentlyPlayedGame = (Tree.asString snapshot).bind (getGame s.games)

end CurrentGame

/-! ### The mirrors of a session -/

structure Mirrors where
  chats : Board Tree (String × Tree) DirectChat (List DirectChat)
  teammates : Board Tree String User (List User)
  teammateRequests : Board Tree String User (List User)
  currentGame : CurrentGame
deriving DecidableEq

inductive MirrorEvent where
  | chats (e : BoardEvent Tree Tree)
  | teammates (e : BoardEvent Tree Tree)
  | teammateRequests (e : BoardEvent Tree Tree)
  | currentGame (e : CurrentGame.Event)
deriving DecidableEq

namespace MirrorEvent

def chats? : MirrorEvent → Option (BoardEvent Tree Tree)
  | .chats e => some e
  | _ => none

def teammates? : MirrorEvent → Option (BoardEvent Tree Tree)
  | .teammates e => some e
  | _ => none

def teammateRequests? : MirrorEvent → Option (BoardEvent Tree Tree)
  | .teammateRequests e => some e
  | _ => none

def currentGame? : MirrorEvent → Option CurrentGame.Event
  | .currentGame e => some e
  | _ => none

end MirrorEvent

namespace Mirrors

/-- No snapshot received yet, whatever the controllers hold. -/
def initial (chats : List DirectChat) (teammates teammateRequests : List User)
    (games : List Game) (game : Option Game) : Mirrors :=
  { chats := .initial chats
    teammates := .initial teammates
    teammateRequests := .initial teammateRequests
    currentGame := .initial games game }

def step (m : Mirrors) : MirrorEvent → Option Mirrors
  | .chats e => (fetchChats.step m.chats e).map fun b => { m with chats := b }
  | .teammates e => (fetchTeammates.step m.teammates e).map fun b => { m with teammates := b }
  | .teammateRequests e =>
      (fetchTeammateRequests.step m.teammateRequests e).map fun b =>
        { m with teammateRequests := b }
  | .currentGame e => (m.currentGame.step e).map fun s => { m with currentGame := s }

/-! ### Agreement with the last snapshot -/

/-- The record found under this key is that of the user of this name. -/
def Found (key : String) (response : Tree) : Prop :=
  (fetchedUser response).map User.username = some key

instance (key : String) (response : Tree) : Decidable (Found key response) :=
  inferInstanceAs (Decidable (_ = _))

/-- The snapshot is not exported as an array: without a dictionary there are no keys. -/
def Keyed (snapshot : Tree) : Prop :=
  (Tree.asDictionary snapshot).isSome ∨ snapshot.keys = []

instance (snapshot : Tree) : Decidable (Keyed snapshot) :=
  inferInstanceAs (Decidable (_ ∨ _))

/-- Moreover, every chat has a message that decodes. -/
def ChatsDecode (snapshot : Tree) : Prop :=
  Keyed snapshot ∧ ∀ key ∈ snapshot.keys, ∃ chatDictionary ∈ Tree.asDictionary (snapshot.get key),
    (DirectChat.ofDictionary (somebody key) chatDictionary).messages ≠ []

instance (snapshot : Tree) : Decidable (ChatsDecode snapshot) := by
  unfold ChatsDecode
  infer_instance

/-- Once all reads have returned and all groups are joined, the names in the mirror are the
    keys of the last snapshot, each once. -/
def BoardAgrees {Item Entry Value : Type} (names : Value → List String)
    (b : Board Tree Item Entry Value) : Prop :=
  b.Settled → ∀ f ∈ b.forks.getLast?, (names b.mirror).Perm f.snapshot.keys

def chatNames (chats : List DirectChat) : List String :=
  chats.map fun chat => chat.chatPartner.username

def userNames (users : List User) : List String := users.map User.username

structure Agree (m : Mirrors) : Prop where
  chats : BoardAgrees chatNames m.chats
  teammates : BoardAgrees userNames m.teammates
  teammateRequests : BoardAgrees userNames m.teammateRequests
  currentGame : m.currentGame.Agrees

/-- The records that are read exist under their keys, and so do the chats. -/
def Permitted (m : Mirrors) : MirrorEvent → Prop
  | .chats e => Observer.Permitted ChatsDecode (fun item => Found item.1) m.chats e
  | .teammates e => Observer.Permitted Keyed Found m.teammates e
  | .teammateRequests e => Observer.Permitted Keyed Found m.teammateRequests e
  | .currentGame _ => True

/-- A snapshot publishes only while no newer snapshot of the same mirror has. -/
def InTurn (m : Mirrors) : MirrorEvent → Prop
  | .chats e => Observer.InTurn m.chats e
  | .teammates e => Observer.InTurn m.teammates e
  | .teammateRequests e => Observer.InTurn m.teammateRequests e
  | .currentGame e => m.currentGame.InTurn e

instance (m : Mirrors) (e : MirrorEvent) : Decidable (m.Permitted e) := by
  cases e <;> unfold Permitted <;> infer_instance

instance (m : Mirrors) (e : MirrorEvent) : Decidable (m.InTurn e) := by
  cases e <;> unfold InTurn <;> infer_instance

/-- What holds of every value an observer may publish for a snapshot holds of the mirror and
    the last snapshot, once all reads have returned and all groups are joined. -/
theorem board_published {Element Item Entry Value : Type}
    {O : Observer Tree Element Item Tree Entry Value} {V : Tree → Prop} {R : Item → Tree → Prop}
    (Publishes : Tree → Value → Prop)
    (hanswer : ∀ x value, V x → O.react x = .inl value → Publishes x value)
    (hstarts : ∀ x elements, V x → O.react x = .inr elements → ∀ e ∈ elements, O.start e ≠ none)
    (hleaves : ∀ item response, R item response → (O.completion item response).isSome)
    (hjoin : ∀ x elements (done : List (Item × Tree)), V x → O.react x = .inr elements →
      (done.map Prod.fst).Perm (elements.filterMap O.start) → (∀ d ∈ done, R d.1 d.2) →
      Publishes x (O.join (done.filterMap fun d => (O.completion d.1 d.2).join)))
    {mirror : Value} {events : List (BoardEvent Tree Tree)} {b : Board Tree Item Entry Value}
    (run : Run O.step (fun b e => Observer.Permitted V R b e ∧ Observer.InTurn b e)
      (Board.initial mirror) events b) (hsettled : b.Settled) :
    ∀ f ∈ b.forks.getLast?, Publishes f.snapshot b.mirror := by
  intro f hf
  have hmem : f ∈ b.forks := List.mem_of_getLast? hf
  obtain ⟨hV, hsound⟩ := Observer.allSound_run (run.mono fun _ _ hok => hok.1) f hmem
  cases hreact : O.react f.snapshot with
  | inl value =>
    rw [Observer.mirror_eq run hf (hsound.published_of_answer hreact)]
    exact hanswer _ _ hV hreact
  | inr elements =>
    obtain ⟨done, hitems, hR, hpublished⟩ :=
      hsound.published_of_starts (hsettled f hmem) hreact (hstarts _ _ hV hreact)
    rw [if_pos fun d hd => hleaves d.1 d.2 (hR d hd)] at hpublished
    rw [Observer.mirror_eq run hf hpublished]
    exact hjoin _ _ done hV hreact hitems hR

/-- An observer agrees if the value it publishes for a snapshot has the names of its keys. -/
theorem boardAgrees {Element Item Entry Value : Type}
    {O : Observer Tree Element Item Tree Entry Value} {names : Value → List String}
    {V : Tree → Prop} {R : Item → Tree → Prop}
    (hanswer : ∀ x value, V x → O.react x = .inl value → (names value).Perm x.keys)
    (hstarts : ∀ x elements, V x → O.react x = .inr elements → ∀ e ∈ elements, O.start e ≠ none)
    (hleaves : ∀ item response, R item response → (O.completion item response).isSome)
    (hjoin : ∀ x elements (done : List (Item × Tree)), V x → O.react x = .inr elements →
      (done.map Prod.fst).Perm (elements.filterMap O.start) → (∀ d ∈ done, R d.1 d.2) →
      (names (O.join (done.filterMap fun d => (O.completion d.1 d.2).join))).Perm x.keys)
    {mirror : Value} {events : List (BoardEvent Tree Tree)} {b : Board Tree Item Entry Value}
    (run : Run O.step (fun b e => Observer.Permitted V R b e ∧ Observer.InTurn b e)
      (Board.initial mirror) events b) : BoardAgrees names b :=
  board_published (fun x value => (names value).Perm x.keys) hanswer hstarts hleaves hjoin run

/-! ### The three groups of reads -/

theorem fetchUsers_agrees {join : List User → List User}
    (hnames : ∀ users, (userNames (join users)).Perm (userNames users)) {users : List User}
    {events : List (BoardEvent Tree Tree)} {b : Board Tree String User (List User)}
    (run : Run (fetchUsers join).step
      (fun b e => Observer.Permitted Keyed Found b e ∧ Observer.InTurn b e)
      (Board.initial users) events b) : BoardAgrees userNames b := by
  refine boardAgrees ?_ ?_ ?_ ?_ run
  · intro x users hx hreact
    simp only [fetchUsers] at hreact
    split at hreact
    · cases hreact
    · rename_i hnone
      obtain rfl := Sum.inl.inj hreact
      rcases hx with hsome | hkeys
      · simp [hnone] at hsome
      · rw [hkeys]
        exact List.Perm.refl _
  · intro x elements _ _ e _ hstart
    cases hstart
  · intro item response _
    rfl
  · intro x elements done _ hreact hitems hR
    have helements : elements = x.keys := by
      simp only [fetchUsers] at hreact
      split at hreact
      · rename_i dictionary hdictionary
        rw [← Sum.inr.inj hreact, Tree.asDictionary_eq_some hdictionary]
      · cases hreact
    have hfound : userNames (done.filterMap fun d => fetchedUser d.2) = done.map Prod.fst := by
      rw [userNames, List.map_filterMap, ← List.filterMap_eq_map]
      exact List.filterMap_congr fun d hd => hR d hd
    refine (hnames _).trans ?_
    simp only [fetchUsers, List.filterMap_some] at hitems
    rw [← helements]
    exact (List.Perm.of_eq hfound).trans hitems

theorem moveToFront_names (sortedTeammates : List User) (teammate : User) :
    (userNames (moveToFront sortedTeammates teammate)).Perm (userNames sortedTeammates) := by
  unfold moveToFront
  split
  · split
    · rename_i index hindex
      obtain ⟨hlt, hequal, -⟩ := List.findIdx?_eq_some_iff_getElem.mp hindex
      obtain ⟨before, after, hsplit, hlength⟩ :=
        split_at (List.getElem?_eq_getElem hlt)
      have hname : (sortedTeammates[index]).username = teammate.username :=
        (User.isEqual_iff.mp hequal).1
      generalize sortedTeammates[index] = u at hsplit hname
      subst hsplit hlength
      rw [eraseIdx_split]
      simp only [userNames, List.map_cons, List.map_append, hname]
      exact List.perm_middle.symm
    · exact List.Perm.refl _
  · exact List.Perm.refl _

theorem sortTeammates_names (teammates : List User) :
    (userNames (sortTeammates teammates)).Perm (userNames teammates) := by
  unfold sortTeammates
  split
  · exact List.Perm.refl _
  · have hfold : ∀ (moved sortedTeammates : List User),
        (userNames (moved.foldl moveToFront sortedTeammates)).Perm (userNames sortedTeammates) := by
      intro moved
      induction moved with
      | nil => exact fun _ => List.Perm.refl _
      | cons teammate rest ih =>
        exact fun sortedTeammates => (ih _).trans (moveToFront_names sortedTeammates teammate)
    exact (hfold _ _).trans ((List.mergeSort_perm _ _).map _)

theorem react_keyed {x : Tree} (hx : Keyed x) {chats : List DirectChat}
    (hreact : fetchChats.react x = .inl chats) : chats = [] ∧ x.keys = [] := by
  rcases hx with hsome | hkeys
  · rw [FetchChats.react_dictionary hsome] at hreact
    cases hreact
  · refine ⟨?_, hkeys⟩
    by_cases hsome : (Tree.asDictionary x).isSome
    · rw [FetchChats.react_dictionary hsome] at hreact
      cases hreact
    · rw [FetchChats.react_other hsome] at hreact
      exact (Sum.inl.inj hreact).symm

theorem react_elements {x : Tree} {elements : List (String × Tree)}
    (hreact : fetchChats.react x = .inr elements) :
    elements = x.keys.map fun key => (key, x.get key) := by
  by_cases hsome : (Tree.asDictionary x).isSome
  · rw [FetchChats.react_dictionary hsome] at hreact
    exact (Sum.inr.inj hreact).symm
  · rw [FetchChats.react_other hsome] at hreact
    cases hreact

/-- Chats that decode are all looked up, and look-ups that find the partner leave the group. -/
theorem fetchChats_starts {x : Tree} (hx : ChatsDecode x) {elements : List (String × Tree)}
    (hreact : fetchChats.react x = .inr elements) {e : String × Tree} (he : e ∈ elements) :
    fetchChats.start e ≠ none := by
  obtain rfl := react_elements hreact
  obtain ⟨key, hkey, rfl⟩ := List.mem_map.mp he
  obtain ⟨chatDictionary, hdictionary, -⟩ := hx.2 key hkey
  rw [Option.mem_def] at hdictionary
  intro hstop
  simp [fetchChats, hdictionary] at hstop

theorem fetchChats_leaves {item : String × Tree} {response : Tree}
    (hfound : Found item.1 response) : (fetchChats.completion item response).isSome := by
  obtain ⟨user, huser, -⟩ := Option.map_eq_some_iff.mp hfound
  simp [fetchChats, huser]

/-- The chat of a found partner in a dictionary with a message that decodes. -/
theorem fetchedChat_name {key : String} {chatDictionary response : Tree}
    (hmessages : (DirectChat.ofDictionary (somebody key) chatDictionary).messages ≠ [])
    (hfound : Found key response) :
    ((fetchChats.completion (key, chatDictionary) response).join).map
      (fun chat => chat.chatPartner.username) = some key := by
  obtain ⟨user, huser, hname⟩ := Option.map_eq_some_iff.mp hfound
  have hnonempty : (DirectChat.ofDictionary user chatDictionary).messages.isEmpty = false :=
    List.isEmpty_eq_false_iff.mpr hmessages
  simp only [fetchChats, huser, Option.map_some, Option.join_some, fetchedChat, hnonempty]
  exact congrArg some hname

theorem fetchChats_agrees {chats : List DirectChat} {events : List (BoardEvent Tree Tree)}
    {b : Board Tree (String × Tree) DirectChat (List DirectChat)}
    (run : Run fetchChats.step
      (fun b e => Observer.Permitted ChatsDecode (fun item => Found item.1) b e ∧
        Observer.InTurn b e) (Board.initial chats) events b) : BoardAgrees chatNames b := by
  refine boardAgrees ?_ ?_ ?_ ?_ run
  · intro x chats hx hreact
    obtain ⟨rfl, hkeys⟩ := react_keyed hx.1 hreact
    rw [hkeys]
    exact List.Perm.refl _
  · exact fun x elements hx hreact e he => fetchChats_starts hx hreact he
  · exact fun item response hfound => fetchChats_leaves hfound
  · intro x elements done hx hreact hitems hR
    obtain rfl := react_elements hreact
    have hnames : chatNames (done.filterMap fun d => (fetchChats.completion d.1 d.2).join) =
        (done.map Prod.fst).map Prod.fst := by
      rw [chatNames, List.map_filterMap, List.map_map, ← List.filterMap_eq_map]
      refine List.filterMap_congr fun d hd => ?_
      obtain ⟨e, he, hstart⟩ := List.mem_filterMap.mp (hitems.mem_iff.mp (List.mem_map_of_mem hd))
      obtain ⟨key, hkey, rfl⟩ := List.mem_map.mp he
      obtain ⟨chatDictionary, hdictionary, hmessages⟩ := hx.2 key hkey
      rw [Option.mem_def] at hdictionary
      have hitem : d.1 = (key, chatDictionary) := by
        simpa [fetchChats, hdictionary] using hstart.symm
      have hfound := hR d hd
      rw [hitem] at hfound
      simp only [Function.comp_apply, hitem]
      exact fetchedChat_name hmessages hfound
    have hkeys : ((x.keys.map fun key => (key, x.get key)).filterMap fetchChats.start).map
        Prod.fst = x.keys := by
      rw [List.filterMap_map, List.map_filterMap]
      conv_rhs => rw [← List.filterMap_some (l := x.keys)]
      refine List.filterMap_congr fun key hkey => ?_
      obtain ⟨chatDictionary, hdictionary, -⟩ := hx.2 key hkey
      rw [Option.mem_def] at hdictionary
      simp [fetchChats, hdictionary]
    refine ((List.mergeSort_perm _ _).map _).trans ?_
    refine (List.Perm.of_eq hnames).trans ?_
    exact (hitems.map Prod.fst).trans (List.Perm.of_eq hkeys)

end Mirrors

/-! ### The current game -/

namespace CurrentGame

variable {s t : CurrentGame}

/-- Every snapshot is published or waits for the catalogue; what was published last is the
    newest, and is what the snapshot names. -/
structure Sound (s : CurrentGame) : Prop where
  known : ∀ n < s.snapshots.length, n ∈ s.updated ∨ ∃ e ∈ s.waiting, e.1 = n
  names : ∀ e ∈ s.waiting, (s.snapshots[e.1]?).bind Tree.asString = some e.2
  bounded : ∀ n ∈ s.updated, n < s.snapshots.length
  newest : ∀ n ∈ s.updated.head?, (∀ k ∈ s.updated, k ≤ n) ∧
    s.userCurrentlyPlayedGame =
      ((s.snapshots[n]?).bind Tree.asString).bind (getGame s.games)

theorem Sound.initial (games : List Game) (game : Option Game) : Sound (initial games game) where
  known := fun n hn => (Nat.not_lt_zero n hn).elim
  names := fun e he => by cases he
  bounded := fun n hn => by cases hn
  newest := fun n hn => by cases hn

/-- Publishing what a snapshot names, newer than all those published before. -/
theorem Sound.update {number : Nat} {game : Option Game}
    (hknown : ∀ n < s.snapshots.length, n = number ∨ n ∈ s.updated ∨ ∃ e ∈ s.waiting, e.1 = n)
    (hnames : ∀ e ∈ s.waiting, (s.snapshots[e.1]?).bind Tree.asString = some e.2)
    (hbounded : ∀ n ∈ s.updated, n < s.snapshots.length) (hnumber : number < s.snapshots.length)
    (hnewest : ∀ n ∈ s.updated, n ≤ number)
    (hgame : game = ((s.snapshots[number]?).bind Tree.asString).bind (getGame s.games)) :
    Sound (s.updateCurrentlyPlayedGame number game) where
  known := by
    intro n hn
    rcases hknown n hn with rfl | hupdated | hwaiting
    · exact Or.inl (by simp [updateCurrentlyPlayedGame])
    · exact Or.inl (by simp [updateCurrentlyPlayedGame, hupdated])
    · exact Or.inr hwaiting
  names := hnames
  bounded := by
    intro n hn
    rcases List.mem_cons.mp hn with rfl | hold
    · exact hnumber
    · exact hbounded n hold
  newest := by
    intro n hn
    obtain rfl : number = n := by simpa [updateCurrentlyPlayedGame] using hn
    refine ⟨fun k hk => ?_, hgame⟩
    rcases List.mem_cons.mp hk with rfl | hold
    · exact Nat.le_refl _
    · exact hnewest k hold

theorem Sound.observed (h : Sound s) (snapshot : Tree) :
    Sound (s.fetchCurrentlyPlayedGame snapshot) := by
  have hlast : (s.snapshots ++ [snapshot])[s.snapshots.length]? = some snapshot := by simp
  have hknown : ∀ n < (s.snapshots ++ [snapshot]).length,
      n = s.snapshots.length ∨ n ∈ s.updated ∨ ∃ e ∈ s.waiting, e.1 = n := by
    intro n hn
    rw [List.length_append, List.length_singleton] at hn
    by_cases heq : n = s.snapshots.length
    · exact Or.inl heq
    · exact Or.inr (h.known n (by omega))
  have hold : ∀ n < s.snapshots.length, (s.snapshots ++ [snapshot])[n]? = s.snapshots[n]? :=
    fun n hn => List.getElem?_append_left hn
  have hwaiting : ∀ e ∈ s.waiting, e.1 < s.snapshots.length := by
    intro e he
    have hname := h.names e he
    by_contra hge
    rw [List.getElem?_eq_none (by omega)] at hname
    cases hname
  have hnames : ∀ e ∈ s.waiting,
      ((s.snapshots ++ [snapshot])[e.1]?).bind Tree.asString = some e.2 := by
    intro e he
    rw [hold _ (hwaiting e he)]
    exact h.names e he
  have hbounded : ∀ n ∈ s.updated, n < (s.snapshots ++ [snapshot]).length := by
    intro n hn
    have hlt := h.bounded n hn
    rw [List.length_append, List.length_singleton]
    omega
  have hnewest : ∀ n ∈ s.updated, n ≤ s.snapshots.length :=
    fun n hn => Nat.le_of_lt (h.bounded n hn)
  have hnumber : s.snapshots.length < (s.snapshots ++ [snapshot]).length := by simp
  unfold fetchCurrentlyPlayedGame
  cases hname : Tree.asString snapshot with
  | none =>
    refine Sound.update hknown hnames hbounded hnumber hnewest ?_
    simp [hname]
  | some gameName =>
    simp only
    split
    · refine ⟨?_, ?_, hbounded, ?_⟩
      · intro n hn
        rcases hknown n hn with rfl | hupdated | ⟨e, he, heq⟩
        · exact Or.inr ⟨(s.snapshots.length, gameName), by simp, rfl⟩
        · exact Or.inl hupdated
        · exact Or.inr ⟨e, by simp [he], heq⟩
      · intro e he
        rcases List.mem_append.mp he with hmem | hnew
        · exact hnames e hmem
        · rw [List.mem_singleton.mp hnew]
          simp [hname]
      · intro n hn
        obtain ⟨hbest, hgame⟩ := h.newest n hn
        refine ⟨hbest, ?_⟩
        rw [hold n (h.bounded n (List.mem_of_head? hn))]
        exact hgame
    · refine Sound.update hknown hnames hbounded hnumber hnewest ?_
      simp [hname]

theorem Sound.step (h : Sound s) {e : Event} (hturn : InTurn s e) (hst : step s e = some t) :
    Sound t := by
  cases e with
  | observed snapshot =>
    obtain rfl := Option.some.inj hst
    exact h.observed snapshot
  | returned index response =>
    simp only [CurrentGame.step] at hst
    split at hst
    · rename_i number gameName hentry
      obtain rfl := Option.some.inj hst
      obtain ⟨before, after, hsplit, hindex⟩ := split_at hentry
      have hmem : (number, gameName) ∈ s.waiting := by rw [hsplit]; simp
      have hname := h.names _ hmem
      have herase : s.waiting.eraseIdx index = before ++ after := by
        rw [hsplit, ← hindex, eraseIdx_split]
      have hrest : ∀ e ∈ before ++ after, e ∈ s.waiting := by
        intro e he
        rw [hsplit]
        exact (List.Sublist.append_left (List.sublist_cons_self _ _) _).subset he
      refine Sound.update ?_ ?_ h.bounded ?_ (hturn _ hentry) ?_
      · intro n hn
        rcases h.known n hn with hupdated | ⟨e, he, heq⟩
        · exact Or.inr (Or.inl hupdated)
        · rw [hsplit, List.mem_append, List.mem_cons] at he
          rcases he with hbefore | rfl | hafter
          · exact Or.inr (Or.inr ⟨e, by simp [herase, hbefore], heq⟩)
          · exact Or.inl heq.symm
          · exact Or.inr (Or.inr ⟨e, by simp [herase, hafter], heq⟩)
      · intro e he
        exact h.names e (hrest e (herase ▸ he))
      · by_contra hge
        rw [List.getElem?_eq_none (by simpa using hge)] at hname
        cases hname
      · rw [hname]
        rfl
    · cases hst

theorem agrees_of_run {games : List Game} {game : Option Game} {events : List Event}
    (run : Run step InTurn (initial games game) events s) : s.Agrees := by
  intro hwaiting snapshot hlast
  have hsound : Sound s :=
    run.invariant Sound (fun u e v hu hok hst => hu.step hok hst) (Sound.initial games game)
  obtain ⟨older, hsnapshots⟩ := List.getLast?_eq_some_iff.mp hlast
  have hlength : older.length < s.snapshots.length := by rw [hsnapshots]; simp
  have hupdated : older.length ∈ s.updated := by
    rcases hsound.known _ hlength with hmem | ⟨e, he, -⟩
    · exact hmem
    · rw [hwaiting] at he
      cases he
  obtain ⟨newest, hnewest⟩ : ∃ n, s.updated.head? = some n := by
    cases hhead : s.updated with
    | nil => rw [hhead] at hupdated; cases hupdated
    | cons n rest => exact ⟨n, rfl⟩
  obtain ⟨hbest, hgame⟩ := hsound.newest newest hnewest
  have hbound := hsound.bounded newest (List.mem_of_head? hnewest)
  have hle := hbest _ hupdated
  rw [hsnapshots, List.length_append, List.length_singleton] at hbound
  obtain rfl : newest = older.length := by omega
  rw [hgame, hsnapshots]
  simp

end CurrentGame

/-! ### All four mirrors -/

/-- A step of one mirror leaves the others alone. -/
theorem Mirrors.step_others {m m' : Mirrors} {e : MirrorEvent} (h : m.step e = some m') :
    (e.chats? = none → m'.chats = m.chats) ∧ (e.teammates? = none → m'.teammates = m.teammates) ∧
      (e.teammateRequests? = none → m'.teammateRequests = m.teammateRequests) ∧
      (e.currentGame? = none → m'.currentGame = m.currentGame) := by
  cases e <;> obtain ⟨b, -, rfl⟩ := Option.map_eq_some_iff.mp h <;>
    simp [MirrorEvent.chats?, MirrorEvent.teammates?, MirrorEvent.teammateRequests?,
      MirrorEvent.currentGame?]

/-- **Every mirror agrees with its last snapshot** once its reads have returned, if no
    snapshot publishes after a newer one of the same mirror. -/
theorem mirrors_agree {chats : List DirectChat} {teammates teammateRequests : List User}
    {games : List Game} {game : Option Game} {events : List MirrorEvent} {m : Mirrors}
    (run : Run Mirrors.step (fun m e => m.Permitted e ∧ m.InTurn e)
      (Mirrors.initial chats teammates teammateRequests games game) events m) : m.Agree where
  chats := by
    refine Mirrors.fetchChats_agrees (run.project Mirrors.chats MirrorEvent.chats?
      (fun u e v hst => (Mirrors.step_others hst).1) ?_)
    intro u e v e' hok hst he
    cases e with
    | chats e =>
      obtain rfl := Option.some.inj he
      obtain ⟨b, hb, rfl⟩ := Option.map_eq_some_iff.mp hst
      exact ⟨hok, hb⟩
    | teammates e | teammateRequests e | currentGame e => cases he
  teammates := by
    refine Mirrors.fetchUsers_agrees Mirrors.sortTeammates_names
      (run.project Mirrors.teammates MirrorEvent.teammates?
        (fun u e v hst => (Mirrors.step_others hst).2.1) ?_)
    intro u e v e' hok hst he
    cases e with
    | teammates e =>
      obtain rfl := Option.some.inj he
      obtain ⟨b, hb, rfl⟩ := Option.map_eq_some_iff.mp hst
      exact ⟨hok, hb⟩
    | chats e | teammateRequests e | currentGame e => cases he
  teammateRequests := by
    refine Mirrors.fetchUsers_agrees (fun _ => List.Perm.refl _)
      (run.project Mirrors.teammateRequests MirrorEvent.teammateRequests?
        (fun u e v hst => (Mirrors.step_others hst).2.2.1) ?_)
    intro u e v e' hok hst he
    cases e with
    | teammateRequests e =>
      obtain rfl := Option.some.inj he
      obtain ⟨b, hb, rfl⟩ := Option.map_eq_some_iff.mp hst
      exact ⟨hok, hb⟩
    | chats e | teammates e | currentGame e => cases he
  currentGame := by
    refine CurrentGame.agrees_of_run (run.project Mirrors.currentGame MirrorEvent.currentGame?
      (fun u e v hst => (Mirrors.step_others hst).2.2.2) ?_)
    intro u e v e' hok hst he
    cases e with
    | currentGame e =>
      obtain rfl := Option.some.inj he
      obtain ⟨b, hb, rfl⟩ := Option.map_eq_some_iff.mp hst
      exact ⟨hok.2, hb⟩
    | chats e | teammates e | teammateRequests e => cases he

/-- The names stored as teammates. -/
def teammatesSnapshot (usernames : List String) : Tree :=
  Tree.ofDictionary (usernames.map fun username => (username, Tree.int 1))

/-- A second teammate arrives while the first one is looked up, and the game the user plays
    while the catalogue is not loaded; everything publishes in the order of the snapshots. -/
def secondTeammate : List MirrorEvent :=
  [.teammates (.observed (teammatesSnapshot ["bobbob"])),
    .currentGame (.observed (Tree.str "chess")),
    .teammates (.observed (teammatesSnapshot ["bobbob", "carol1"])),
    .teammates (.returned 1 1 (record "carol1")),
    .teammates (.returned 0 0 (record "bobbob")), .teammates (.joined 0),
    .currentGame (.returned 0 .empty),
    .teammates (.returned 1 0 (record "bobbob")), .teammates (.joined 1)]

theorem mirrors_agree_secondTeammate :
    ∃ m, exec Mirrors.step (fun m e => decide (m.Permitted e ∧ m.InTurn e))
        (Mirrors.initial [] [] [] [] none) secondTeammate = some m ∧
      (m.teammates.mirror.map User.username).Perm ["bobbob", "carol1"] := by
  have hend : (exec Mirrors.step (fun m e => decide (m.Permitted e ∧ m.InTurn e))
      (Mirrors.initial [] [] [] [] none) secondTeammate).map (fun m =>
        (decide m.teammates.Settled, m.teammates.forks.getLast?.map fun f => f.snapshot.keys)) =
      some (true, some ["bobbob", "carol1"]) := by
    decide +kernel
  obtain ⟨m, hm, hrest⟩ := Option.map_eq_some_iff.mp hend
  obtain ⟨hsettled, hlast⟩ := Prod.mk.inj hrest
  obtain ⟨f, hf, hkeys⟩ := Option.map_eq_some_iff.mp hlast
  have run := run_of_exec (fun m e h => of_decide_eq_true h) hm
  exact ⟨m, hm, hkeys ▸ (mirrors_agree run).teammates (of_decide_eq_true hsettled) f hf⟩

/-- The only teammate is removed while being looked up. -/
def removedTeammate : List MirrorEvent :=
  [.teammates (.observed (teammatesSnapshot ["bobbob"])), .teammates (.observed .empty),
    .teammates (.returned 0 0 (record "bobbob")), .teammates (.joined 0)]

theorem not_always_mirrors_agree :
    ¬ ∀ (chats : List DirectChat) (teammates teammateRequests : List User) (games : List Game)
      (game : Option Game) (events : List MirrorEvent) (m : Mirrors),
      Run Mirrors.step Mirrors.Permitted
        (Mirrors.initial chats teammates teammateRequests games game) events m → m.Agree := by
  intro hall
  have hend : (exec Mirrors.step (fun m e => decide (m.Permitted e))
      (Mirrors.initial [] [] [] [] none) removedTeammate).map (fun m =>
        (decide m.teammates.Settled, m.teammates.forks.getLast?.map fun f => f.snapshot.keys,
          m.teammates.mirror.map User.username)) = some (true, some [], ["bobbob"]) := by
    decide +kernel
  obtain ⟨m, hm, hrest⟩ := Option.map_eq_some_iff.mp hend
  obtain ⟨hsettled, hrest⟩ := Prod.mk.inj hrest
  obtain ⟨hlast, hmirror⟩ := Prod.mk.inj hrest
  obtain ⟨f, hf, hkeys⟩ := Option.map_eq_some_iff.mp hlast
  have run := run_of_exec (fun m e h => of_decide_eq_true h) hm
  have hperm : (m.teammates.mirror.map User.username).Perm f.snapshot.keys :=
    (hall [] [] [] [] none removedTeammate m run).teammates (of_decide_eq_true hsettled) f hf
  rw [hkeys, hmirror] at hperm
  cases hperm.eq_nil

end TeamUp
