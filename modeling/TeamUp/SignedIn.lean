import TeamUp.Mirrors

/-!
# Logging in and out on one device

The controllers outlive the accounts: `fetchUserData` registers their observers at the
node of whoever is signed in, and `signOutUser` clears the chats, the teammates and the
requests and removes their observers.  Reads that are under way are not cancelled, and
the current game and its observer are never cleared.  What the device holds is the
signed-in account's own as long as nothing publishes for another account, nobody logs
in over an account whose data is held, and nobody logs out while playing a game.
-/

namespace TeamUp

/-- A mirror filled by one observer for each account it was fetched for. -/
structure Feed (Item Entry Held : Type) where
  /-- The accounts whose nodes are observed. -/
  observers : List String
  board : Board Tree Item Entry (List Held)
  /-- Whose node each snapshot is of, in the order received. -/
  owners : List String
  /-- Whose node what is held was computed from; none once it was cleared. -/
  source : Option String
deriving DecidableEq

inductive FeedEvent where
  | observed (account : String) (snapshot : Tree)
  | returned (fork index : Nat) (response : Tree)
  | joined (fork : Nat)
deriving DecidableEq

namespace Feed

variable {Element Item Entry Held : Type}

def initial : Feed Item Entry Held :=
  { observers := [], board := .initial [], owners := [], source := none }

/-- `fetchChats`, `fetchTeammates` and `fetchTeammateRequests`, for the display name of
    whoever is signed in. -/
def fetch (f : Feed Item Entry Held) : Option String → Feed Item Entry Held
  | some currentUser => { f with observers := currentUser :: f.observers }
  | none => { f with board := { f.board with mirror := [] }, source := none }

def clearDataAndObservers (f : Feed Item Entry Held) (currentUser : Option String) :
    Feed Item Entry Held :=
  { f with
    observers := f.observers.filter fun account => some account ≠ currentUser
    board := { f.board with mirror := [] }
    source := none }

def step (O : Observer Tree Element Item Tree Entry (List Held)) (f : Feed Item Entry Held) :
    FeedEvent → Option (Feed Item Entry Held)
  | .observed account snapshot =>
      if account ∈ f.observers then
        some { f with
          board := O.observe f.board snapshot
          owners := f.owners ++ [account]
          source := if (O.react snapshot).isLeft then some account else f.source }
      else none
  | .returned i index response =>
      (O.step f.board (.returned i index response)).map fun b => { f with board := b }
  | .joined i =>
      (O.step f.board (.joined i)).map fun b => { f with board := b, source := f.owners[i]? }

end Feed

/-- `GameController` with the accounts it was fetched for. -/
structure GameFeed where
  observers : List String
  controller : CurrentGame
  owners : List String
deriving DecidableEq

inductive GameEvent where
  | observed (account : String) (snapshot : Tree)
  | returned (index : Nat) (response : Tree)
  /-- `fetchAllGames` of a screen returns. -/
  | games (response : Tree)
deriving DecidableEq

namespace GameFeed

def fetch (f : GameFeed) : Option String → GameFeed
  | some currentUser => { f with observers := currentUser :: f.observers }
  | none => f

/-- Whose node the game was published for last. -/
def source (f : GameFeed) : Option String :=
  f.controller.updated.head?.bind fun number => f.owners[number]?

def step (f : GameFeed) : GameEvent → Option GameFeed
  | .observed account snapshot =>
      if account ∈ f.observers then
        (f.controller.step (.observed snapshot)).map fun controller =>
          { f with controller, owners := f.owners ++ [account] }
      else none
  | .returned index response =>
      (f.controller.step (.returned index response)).map fun controller =>
        { f with controller }
  | .games response =>
      some { f with controller := { f.controller with
        games := fetchedAllGames f.controller.games response } }

end GameFeed

/-- Who is signed in, with the display name if there is one, and what the controllers hold. -/
structure Device where
  signedIn : Option (Option String)
  chats : Feed (String × Tree) DirectChat DirectChat
  teammates : Feed String User User
  teammateRequests : Feed String User User
  currentGame : GameFeed
deriving DecidableEq

inductive DeviceEvent where
  | loginUser (displayName : Option String)
  | fetchUserData
  | signOutUser
  | chats (e : FeedEvent)
  | teammates (e : FeedEvent)
  | teammateRequests (e : FeedEvent)
  | currentGame (e : GameEvent)
deriving DecidableEq

namespace Device

/-- Nobody is signed in, and nothing was fetched but perhaps the catalogue. -/
def initial (games : List Game) : Device :=
  { signedIn := none
    chats := .initial
    teammates := .initial
    teammateRequests := .initial
    currentGame := { observers := [], controller := .initial games none, owners := [] } }

/-- `Auth.auth().currentUser?.displayName` -/
def currentUser (d : Device) : Option String := d.signedIn.join

def fetchUserData (d : Device) : Device :=
  { d with
    chats := d.chats.fetch d.currentUser
    teammates := d.teammates.fetch d.currentUser
    teammateRequests := d.teammateRequests.fetch d.currentUser
    currentGame := d.currentGame.fetch d.currentUser }

def signOutUser (d : Device) : Device :=
  { d with
    signedIn := none
    chats := d.chats.clearDataAndObservers d.currentUser
    teammates := d.teammates.clearDataAndObservers d.currentUser
    teammateRequests := d.teammateRequests.clearDataAndObservers d.currentUser }

def step (d : Device) : DeviceEvent → Option Device
  -- The sign-in screen is also reached by going back from the set-up of a profile.
  | .loginUser displayName => some { d with signedIn := some displayName }.fetchUserData
  | .fetchUserData => some d.fetchUserData
  | .signOutUser => some d.signOutUser
  | .chats e => (d.chats.step fetchChats e).map fun f => { d with chats := f }
  | .teammates e => (d.teammates.step fetchTeammates e).map fun f => { d with teammates := f }
  | .teammateRequests e =>
      (d.teammateRequests.step fetchTeammateRequests e).map fun f =>
        { d with teammateRequests := f }
  | .currentGame e => (d.currentGame.step e).map fun f => { d with currentGame := f }

end Device

/-! ### Whose data is held -/

variable {Element Item Entry Held : Type}

/-- What a mirror holds, if anything, was computed from the node of the current user. -/
def Feed.Own (f : Feed Item Entry Held) (currentUser : Option String) : Prop :=
  f.board.mirror = [] ∨ f.source = currentUser ∧ currentUser.isSome

def GameFeed.Own (f : GameFeed) (currentUser : Option String) : Prop :=
  f.controller.userCurrentlyPlayedGame = none ∨ f.source = currentUser ∧ currentUser.isSome

structure Device.OwnData (d : Device) : Prop where
  chats : d.chats.Own d.currentUser
  teammates : d.teammates.Own d.currentUser
  teammateRequests : d.teammateRequests.Own d.currentUser
  currentGame : d.currentGame.Own d.currentUser

/-- The three feeds hold nothing. -/
def Device.FeedsEmpty (d : Device) : Prop :=
  d.chats.board.mirror = [] ∧ d.teammates.board.mirror = [] ∧
    d.teammateRequests.board.mirror = []

/-- A group that gathered anything is joined while the account it was forked for is signed
    in. -/
def Feed.InSession (f : Feed Item Entry Held) (currentUser : Option String) : FeedEvent → Prop
  | .joined i => ∀ fork ∈ f.board.forks[i]?, fork.group.gathered = [] ∨ f.owners[i]? = currentUser
  | _ => True

/-- A name of a game is handed over, and the catalogue it waits for arrives, while the
    account it is of is signed in. -/
def GameFeed.InSession (f : GameFeed) (currentUser : Option String) : GameEvent → Prop
  | .observed account snapshot =>
      (Tree.asString snapshot).bind (getGame f.controller.games) = none ∨
        some account = currentUser
  | .returned index response =>
      ∀ e ∈ f.controller.waiting[index]?,
        getGame (fetchedAllGames f.controller.games response) e.2 = none ∨
          f.owners[e.1]? = currentUser
  | .games _ => True

/-- Nothing is published for another account than the one signed in, nobody logs in over an
    account whose data is held, and nobody logs out while playing a game. -/
def Device.InSession (d : Device) : DeviceEvent → Prop
  | .loginUser displayName => displayName = d.currentUser ∨
      d.currentGame.controller.userCurrentlyPlayedGame = none ∧ (displayName = none ∨ d.FeedsEmpty)
  | .signOutUser => d.currentGame.controller.userCurrentlyPlayedGame = none
  | .chats e => d.chats.InSession d.currentUser e
  | .teammates e => d.teammates.InSession d.currentUser e
  | .teammateRequests e => d.teammateRequests.InSession d.currentUser e
  | .currentGame e => d.currentGame.InSession d.currentUser e
  | .fetchUserData => True

instance [DecidableEq Entry] (f : Feed Item Entry Held) (currentUser : Option String)
    (e : FeedEvent) : Decidable (f.InSession currentUser e) := by
  cases e <;> unfold Feed.InSession <;> infer_instance

instance (f : GameFeed) (currentUser : Option String) (e : GameEvent) :
    Decidable (f.InSession currentUser e) := by
  cases e <;> unfold GameFeed.InSession <;> infer_instance

instance (d : Device) : Decidable d.FeedsEmpty := inferInstanceAs (Decidable (_ ∧ _ ∧ _))

instance (d : Device) (e : DeviceEvent) : Decidable (d.InSession e) := by
  cases e <;> unfold Device.InSession <;> infer_instance

/-! ### The three feeds -/

/-- An observer that publishes nothing at once, and nothing for an empty group. -/
structure Observer.Gathers (O : Observer Tree Element Item Tree Entry (List Held)) : Prop where
  answer : ∀ snapshot value, O.react snapshot = .inl value → value = []
  join : O.join [] = []

theorem gathers_fetchUsers {join : List User → List User} (hjoin : join [] = []) :
    (fetchUsers join).Gathers where
  answer := by
    intro snapshot value hreact
    simp only [fetchUsers] at hreact
    split at hreact
    · cases hreact
    · exact (Sum.inl.inj hreact).symm
  join := hjoin

theorem gathers_fetchTeammates : fetchTeammates.Gathers := gathers_fetchUsers rfl

theorem gathers_fetchTeammateRequests : fetchTeammateRequests.Gathers := gathers_fetchUsers rfl

theorem gathers_fetchChats : fetchChats.Gathers where
  answer := by
    intro snapshot value hreact
    simp only [fetchChats] at hreact
    split at hreact
    · cases hreact
    · exact (Sum.inl.inj hreact).symm
  join := List.mergeSort_nil

namespace Feed

variable {O : Observer Tree Element Item Tree Entry (List Held)}
variable {f g : Feed Item Entry Held} {currentUser : Option String}

/-- Every snapshot has an owner, and what is held was published for a snapshot of the account it
    is said to be from. -/
structure Sound (f : Feed Item Entry Held) : Prop where
  aligned : f.owners.length = f.board.forks.length
  traced : ∀ account, f.source = some account →
    ∃ (i : Nat) (fork : Fork Tree Item Entry (List Held)), f.board.forks[i]? = some fork ∧
      f.owners[i]? = some account ∧ f.board.mirror ∈ fork.published
  cleared : f.source = none → f.board.mirror = []

theorem sound_initial : (initial : Feed Item Entry Held).Sound where
  aligned := rfl
  traced := fun account h => (by cases h)
  cleared := fun _ => rfl

theorem Sound.fetch (h : f.Sound) (currentUser : Option String) : (f.fetch currentUser).Sound := by
  cases currentUser with
  | none => exact ⟨h.aligned, fun account hs => (by cases hs), fun _ => rfl⟩
  | some user => exact ⟨h.aligned, h.traced, h.cleared⟩

theorem Sound.clear (h : f.Sound) (currentUser : Option String) :
    (f.clearDataAndObservers currentUser).Sound :=
  ⟨h.aligned, fun account hs => (by cases hs), fun _ => rfl⟩

theorem Own.fetch (h : f.Own currentUser) : (f.fetch currentUser).Own currentUser := by
  cases currentUser with
  | none => exact Or.inl rfl
  | some user => exact h

/-- A fork replaced by one that has published as much. -/
theorem published_of_split {before after : List (Fork Tree Item Entry (List Held))}
    {fork old : Fork Tree Item Entry (List Held)} {i : Nat}
    (hold : (before ++ fork :: after)[i]? = some old)
    (fork' : Fork Tree Item Entry (List Held)) (hpublished : fork'.published = fork.published) :
    ∃ new, (before ++ fork' :: after)[i]? = some new ∧ new.published = old.published := by
  rcases Nat.lt_trichotomy i before.length with hlt | rfl | hgt
  · rw [List.getElem?_append_left hlt] at hold ⊢
    exact ⟨old, hold, rfl⟩
  · simp only [List.getElem?_append_right (Nat.le_refl _), Nat.sub_self,
      List.getElem?_cons_zero, Option.some.injEq] at hold ⊢
    exact ⟨fork', rfl, hold ▸ hpublished⟩
  · obtain ⟨n, rfl⟩ := Nat.exists_eq_add_of_lt hgt
    refine ⟨old, ?_, rfl⟩
    rw [List.getElem?_append_right (by omega)] at hold ⊢
    rw [show before.length + n + 1 - before.length = n + 1 by omega] at hold ⊢
    exact hold

theorem Sound.observed_step (hO : O.Gathers) (h : f.Sound) {account : String}
    {snapshot : Tree} (hst : f.step O (.observed account snapshot) = some g) :
    g.Sound ∧ (f.Own currentUser → g.Own currentUser) := by
  simp only [step] at hst
  split at hst
  · rename_i hmem
    obtain rfl := Option.some.inj hst
    have hkept : ∀ {fork : Fork Tree Item Entry (List Held)} {user : String},
        f.source = some user → ∃ (i : Nat) (fork' : Fork Tree Item Entry (List Held)),
          (f.board.forks ++ [fork])[i]? = some fork' ∧ (f.owners ++ [account])[i]? = some user ∧
            f.board.mirror ∈ fork'.published := by
      intro fork user hsource
      obtain ⟨i, old, hold, howner, hpublished⟩ := h.traced user hsource
      obtain ⟨hi, -⟩ := List.getElem?_eq_some_iff.mp hold
      obtain ⟨hi', -⟩ := List.getElem?_eq_some_iff.mp howner
      refine ⟨i, old, ?_, ?_, hpublished⟩
      · rw [List.getElem?_append_left hi, hold]
      · rw [List.getElem?_append_left hi', howner]
    unfold Observer.observe
    split
    · rename_i value hreact
      obtain rfl := hO.answer snapshot value hreact
      refine ⟨⟨by simp [h.aligned], fun user hsource => ?_, fun _ => rfl⟩,
        fun _ => Or.inl rfl⟩
      simp only [hreact, Sum.isLeft_inl, if_true, Option.some.injEq] at hsource
      subst hsource
      exact ⟨f.board.forks.length, ⟨snapshot, .new, [[]]⟩, by simp, by simp [← h.aligned], by simp⟩
    · rename_i elements hreact
      refine ⟨⟨by simp [h.aligned], fun user hsource => ?_, fun hsource => ?_⟩, ?_⟩
      · simp only [hreact, Sum.isLeft_inr, Bool.false_eq_true, if_false] at hsource
        exact hkept hsource
      · simp only [hreact, Sum.isLeft_inr, Bool.false_eq_true, if_false] at hsource
        exact h.cleared hsource
      · simp [Own, hreact]
  · cases hst

theorem Sound.step (hO : O.Gathers) (h : f.Sound) {e : FeedEvent}
    (hown : f.Own currentUser) (hsession : f.InSession currentUser e)
    (hst : f.step O e = some g) : g.Sound ∧ g.Own currentUser := by
  cases e with
  | observed account snapshot =>
    obtain ⟨hsound, hkeeps⟩ := h.observed_step hO hst
    exact ⟨hsound, hkeeps hown⟩
  | returned i index response =>
    obtain ⟨b, hb, rfl⟩ := Option.map_eq_some_iff.mp hst
    obtain ⟨before, fork, after, earlier, item, later, hforks, -, -, -, rfl⟩ :=
      Observer.step_returned hb
    refine ⟨⟨by simpa [hforks] using h.aligned, fun user hsource => ?_, h.cleared⟩, hown⟩
    obtain ⟨j, old, hold, howner, hpublished⟩ := h.traced user hsource
    rw [hforks] at hold
    obtain ⟨new, hnew, hsame⟩ := published_of_split hold { fork with
      group := O.finish { fork.group with waiting := earlier ++ later } item response } rfl
    exact ⟨j, new, hnew, howner, hsame ▸ hpublished⟩
  | joined i =>
    obtain ⟨b, hb, rfl⟩ := Option.map_eq_some_iff.mp hst
    obtain ⟨before, fork, after, hforks, hi, -, rfl⟩ := Observer.step_joined hb
    have hthis : f.board.forks[i]? = some fork := by
      rw [hforks, ← hi]
      simp
    obtain ⟨hlt, -⟩ := List.getElem?_eq_some_iff.mp hthis
    rw [← h.aligned] at hlt
    have howner : f.owners[i]? = some f.owners[i] := List.getElem?_eq_getElem hlt
    refine ⟨⟨by simpa [hforks] using h.aligned, fun user hsource => ?_,
      fun hsource => ?_⟩, ?_⟩
    · refine ⟨i, { fork with
        group := { fork.group with notified := false }
        published := fork.published ++ [O.join fork.group.gathered] }, ?_, hsource, ?_⟩
      · rw [← hi]
        simp
      · simp
    · rw [howner] at hsource
      cases hsource
    · rcases hsession fork hthis with hempty | hsame
      · refine Or.inl ?_
        rw [hempty]
        exact hO.join
      · refine Or.inr ⟨hsame, ?_⟩
        rw [← hsame, howner]
        rfl

end Feed

/-! ### The current game -/

/-- The game a snapshot names is published at once, or waits for the catalogue. -/
theorem CurrentGame.fetch_cases (s : CurrentGame) (snapshot : Tree) :
    s.fetchCurrentlyPlayedGame snapshot =
        ({ s with snapshots := s.snapshots ++ [snapshot] } : CurrentGame).updateCurrentlyPlayedGame
          s.snapshots.length ((Tree.asString snapshot).bind (getGame s.games)) ∨
      ∃ gameName, s.fetchCurrentlyPlayedGame snapshot = { s with
        snapshots := s.snapshots ++ [snapshot]
        waiting := s.waiting ++ [(s.snapshots.length, gameName)] } := by
  unfold fetchCurrentlyPlayedGame
  cases hname : Tree.asString snapshot with
  | none => exact Or.inl rfl
  | some gameName =>
    cases hgames : s.games.isEmpty with
    | true => exact Or.inr ⟨gameName, by simp [hgames]⟩
    | false => exact Or.inl (by simp [hgames])

namespace GameFeed

variable {f g : GameFeed} {currentUser : Option String}

/-- Every snapshot has an owner, also those that wait and those a game was published for. -/
structure Sound (f : GameFeed) : Prop where
  aligned : f.owners.length = f.controller.snapshots.length
  waiting : ∀ e ∈ f.controller.waiting, e.1 < f.owners.length
  updated : ∀ n ∈ f.controller.updated, n < f.owners.length

/-- A game published for a snapshot is from the node of the snapshot's owner. -/
theorem own_update {observers owners : List String} {controller : CurrentGame} {number : Nat}
    {game : Option Game} (hnumber : number < owners.length)
    (hsession : game = none ∨ owners[number]? = currentUser) :
    Own ⟨observers, controller.updateCurrentlyPlayedGame number game, owners⟩ currentUser := by
  refine hsession.imp id fun hsame => ⟨hsame, ?_⟩
  rw [← hsame]
  exact Option.isSome_iff_exists.mpr ⟨_, List.getElem?_eq_getElem hnumber⟩

theorem Sound.update (h : f.Sound) {number : Nat} (hnumber : number < f.owners.length)
    (game : Option Game) :
    Sound { f with controller := f.controller.updateCurrentlyPlayedGame number game } := by
  refine ⟨h.aligned, h.waiting, fun n hn => ?_⟩
  rcases List.mem_cons.mp hn with rfl | hold
  · exact hnumber
  · exact h.updated n hold

/-- A snapshot is received, and nothing published for it yet. -/
theorem Sound.receive (h : f.Sound) (account : String) (snapshot : Tree) :
    Sound { f with
      controller := { f.controller with snapshots := f.controller.snapshots ++ [snapshot] }
      owners := f.owners ++ [account] } := by
  refine ⟨by simp [h.aligned], fun e he => ?_, fun n hn => ?_⟩
  · have hlt := h.waiting e he
    simp only [List.length_append, List.length_singleton]
    omega
  · have hlt := h.updated n hn
    simp only [List.length_append, List.length_singleton]
    omega

/-- One more owner leaves those of the published snapshots. -/
theorem source_receive (h : f.Sound) (account : String) :
    (f.controller.updated.head?.bind fun number => (f.owners ++ [account])[number]?) =
      f.source := by
  unfold source
  cases hhead : f.controller.updated.head? with
  | none => rfl
  | some number =>
    have hlt := h.updated number (List.mem_of_head? hhead)
    exact List.getElem?_append_left hlt

theorem Sound.step (h : f.Sound) {e : GameEvent} (hown : f.Own currentUser)
    (hsession : f.InSession currentUser e) (hst : f.step e = some g) :
    g.Sound ∧ g.Own currentUser := by
  cases e with
  | observed account snapshot =>
    simp only [GameFeed.step] at hst
    split at hst
    · obtain ⟨controller, hcontroller, rfl⟩ := Option.map_eq_some_iff.mp hst
      obtain rfl := Option.some.inj hcontroller
      have hreceived := h.receive account snapshot
      have hnumber : f.controller.snapshots.length < (f.owners ++ [account]).length := by
        simp [h.aligned]
      have howner : (f.owners ++ [account])[f.controller.snapshots.length]? = some account := by
        rw [← h.aligned]
        simp
      rcases f.controller.fetch_cases snapshot with hupdate | ⟨gameName, hwait⟩
      · rw [hupdate]
        refine ⟨hreceived.update hnumber _, own_update hnumber ?_⟩
        exact hsession.imp id howner.trans
      · rw [hwait]
        refine ⟨⟨hreceived.aligned, fun e he => ?_, hreceived.updated⟩, ?_⟩
        · rcases List.mem_append.mp he with hold | hnew
          · exact hreceived.waiting e hold
          · rw [List.mem_singleton.mp hnew]
            exact hnumber
        · refine hown.imp id fun hsame => ⟨?_, hsame.2⟩
          rw [← hsame.1]
          exact source_receive h account
    · cases hst
  | returned index response =>
    obtain ⟨controller, hcontroller, rfl⟩ := Option.map_eq_some_iff.mp hst
    simp only [CurrentGame.step] at hcontroller
    split at hcontroller
    · rename_i number gameName hwaiting
      obtain rfl := Option.some.inj hcontroller
      have hnumber : number < f.owners.length :=
        h.waiting _ (List.mem_of_getElem? hwaiting)
      have hrest : Sound { f with controller := { f.controller with
          games := fetchedAllGames f.controller.games response
          waiting := f.controller.waiting.eraseIdx index } } :=
        ⟨h.aligned, fun e he => h.waiting e (List.mem_of_mem_eraseIdx he), h.updated⟩
      exact ⟨hrest.update hnumber _, own_update hnumber (hsession _ hwaiting)⟩
    · cases hcontroller
  | games response =>
    obtain rfl := Option.some.inj hst
    exact ⟨⟨h.aligned, h.waiting, h.updated⟩, hown⟩

end GameFeed

/-! ### Runs -/

namespace Device

variable {d d' : Device}

structure Sound (d : Device) : Prop where
  chats : d.chats.Sound
  teammates : d.teammates.Sound
  teammateRequests : d.teammateRequests.Sound
  currentGame : d.currentGame.Sound

theorem sound_initial (games : List Game) : (initial games).Sound where
  chats := Feed.sound_initial
  teammates := Feed.sound_initial
  teammateRequests := Feed.sound_initial
  currentGame := ⟨rfl, fun e he => (by cases he), fun n hn => (by cases hn)⟩

theorem Sound.fetchUserData (h : d.Sound) : d.fetchUserData.Sound := by
  refine ⟨h.chats.fetch _, h.teammates.fetch _, h.teammateRequests.fetch _, ?_⟩
  unfold Device.fetchUserData GameFeed.fetch
  split
  · exact ⟨h.currentGame.aligned, h.currentGame.waiting, h.currentGame.updated⟩
  · exact h.currentGame

theorem OwnData.fetchUserData (h : d.OwnData) : d.fetchUserData.OwnData := by
  refine ⟨h.chats.fetch, h.teammates.fetch, h.teammateRequests.fetch, ?_⟩
  unfold Device.fetchUserData GameFeed.fetch
  split <;> exact h.currentGame

/-- **One step** that publishes for the signed-in account only. -/
theorem Sound.step (h : d.Sound) (hown : d.OwnData) {e : DeviceEvent} (hsession : d.InSession e)
    (hst : d.step e = some d') : d'.Sound ∧ d'.OwnData := by
  cases e with
  | loginUser displayName =>
    obtain rfl := Option.some.inj hst
    have hsound : Sound { d with signedIn := some displayName } :=
      ⟨h.chats, h.teammates, h.teammateRequests, h.currentGame⟩
    refine ⟨hsound.fetchUserData, ?_⟩
    rcases hsession with hsame | ⟨hgame, hnobody | ⟨hchats, hteammates, hrequests⟩⟩
    · have howned : OwnData { d with signedIn := some displayName } := by
        have hcurrent : ({ d with signedIn := some displayName } : Device).currentUser =
          d.currentUser := hsame
        refine ⟨?_, ?_, ?_, ?_⟩ <;> rw [hcurrent]
        · exact hown.chats
        · exact hown.teammates
        · exact hown.teammateRequests
        · exact hown.currentGame
      exact howned.fetchUserData
    · -- for an account without a display name the feeds are cleared, the game is not
      subst hnobody
      exact ⟨Or.inl rfl, Or.inl rfl, Or.inl rfl, Or.inl hgame⟩
    · have howned : OwnData { d with signedIn := some displayName } :=
        ⟨Or.inl hchats, Or.inl hteammates, Or.inl hrequests, Or.inl hgame⟩
      exact howned.fetchUserData
  | fetchUserData =>
    obtain rfl := Option.some.inj hst
    exact ⟨h.fetchUserData, hown.fetchUserData⟩
  | signOutUser =>
    obtain rfl := Option.some.inj hst
    exact ⟨⟨h.chats.clear _, h.teammates.clear _, h.teammateRequests.clear _,
      h.currentGame⟩, ⟨Or.inl rfl, Or.inl rfl, Or.inl rfl, Or.inl hsession⟩⟩
  | chats e =>
    obtain ⟨f, hf, rfl⟩ := Option.map_eq_some_iff.mp hst
    obtain ⟨hsound, howned⟩ := h.chats.step gathers_fetchChats hown.chats hsession hf
    exact ⟨{ h with chats := hsound }, { hown with chats := howned }⟩
  | teammates e =>
    obtain ⟨f, hf, rfl⟩ := Option.map_eq_some_iff.mp hst
    obtain ⟨hsound, howned⟩ := h.teammates.step gathers_fetchTeammates hown.teammates hsession hf
    exact ⟨{ h with teammates := hsound }, { hown with teammates := howned }⟩
  | teammateRequests e =>
    obtain ⟨f, hf, rfl⟩ := Option.map_eq_some_iff.mp hst
    obtain ⟨hsound, howned⟩ :=
      h.teammateRequests.step gathers_fetchTeammateRequests hown.teammateRequests hsession hf
    exact ⟨{ h with teammateRequests := hsound }, { hown with teammateRequests := howned }⟩
  | currentGame e =>
    obtain ⟨f, hf, rfl⟩ := Option.map_eq_some_iff.mp hst
    obtain ⟨hsound, howned⟩ := h.currentGame.step hown.currentGame hsession hf
    exact ⟨{ h with currentGame := hsound }, { hown with currentGame := howned }⟩

end Device

/-- What the feeds hold in such a run was published for a snapshot of the account it is said to
    be from, and is the signed-in account's. -/
theorem device_run {games : List Game} {events : List DeviceEvent} {d : Device}
    (run : Run Device.step Device.InSession (Device.initial games) events d) :
    d.Sound ∧ d.OwnData := by
  refine run.invariant (fun u => u.Sound ∧ u.OwnData)
    (fun u e v hu hok hst => hu.1.step hu.2 hok hst) ⟨Device.sound_initial games, ?_⟩
  exact ⟨Or.inl rfl, Or.inl rfl, Or.inl rfl, Or.inl rfl⟩

/-- **The device holds data of the signed-in account only** in every state of every run in
    which nothing is published for another account than the one signed in, nobody logs in
    over an account whose data is held, and nobody logs out while playing a game. -/
theorem device_ownData {games : List Game} {events : List DeviceEvent} {d : Device}
    (run : Run Device.step Device.InSession (Device.initial games) events d) : d.OwnData :=
  (device_run run).2

def bobsTeammates : Tree := Tree.ofDictionary [("carol1", Tree.int 1)]

def carolsRecord : Tree :=
  Tree.ofDictionary [("username", Tree.str "carol1"), ("biography", Tree.str ""),
    ("mic", Tree.str "mic"), ("profilePicUrl", Tree.str ""), ("region", Tree.str "Europe")]

/-- Alice logs in and out, and bob's teammates are fetched. -/
def oneAfterAnother : List DeviceEvent :=
  [.loginUser (some "alice1"), .currentGame (.observed "alice1" .empty), .signOutUser,
    .loginUser (some "bobbob"), .teammates (.observed "bobbob" bobsTeammates),
    .teammates (.returned 0 0 carolsRecord), .teammates (.joined 0)]

theorem device_ownData_oneAfterAnother :
    ∃ d, exec Device.step (fun d e => decide (d.InSession e)) (Device.initial [])
        oneAfterAnother = some d ∧
      Mirrors.userNames d.teammates.board.mirror = ["carol1"] ∧ d.OwnData := by
  have hend : (exec Device.step (fun d e => decide (d.InSession e)) (Device.initial [])
      oneAfterAnother).map (fun d => Mirrors.userNames d.teammates.board.mirror) =
        some ["carol1"] := by
    decide +kernel
  obtain ⟨d, hd, hnames⟩ := Option.map_eq_some_iff.mp hend
  exact ⟨d, hd, hnames, device_ownData (run_of_exec (fun _ _ h => of_decide_eq_true h) hd)⟩

/-- Alice plays a game and logs out. -/
def logsOutPlaying (game : Game) : List DeviceEvent :=
  [.loginUser (some "alice1"), .currentGame (.observed "alice1" (Tree.str game.name)), .signOutUser]

theorem not_always_ownData :
    ¬ ∀ (games : List Game) (events : List DeviceEvent) (d : Device),
      Run Device.step (fun _ _ => True) (Device.initial games) events d → d.OwnData := by
  intro hall
  have hend : (exec Device.step (fun _ _ => true) (Device.initial [chess])
      (logsOutPlaying chess)).map (fun d =>
        (d.currentUser, d.currentGame.controller.userCurrentlyPlayedGame)) =
      some (none, some chess) := by
    decide +kernel
  obtain ⟨d, hd, hfacts⟩ := Option.map_eq_some_iff.mp hend
  obtain ⟨hnobody, hgame⟩ := Prod.mk.inj hfacts
  have run : Run Device.step (fun _ _ => True) (Device.initial [chess]) (logsOutPlaying chess) d :=
    run_of_exec (fun _ _ _ => trivial) hd
  rcases (hall [chess] (logsOutPlaying chess) d run).currentGame with hnone | ⟨-, hsome⟩
  · rw [hgame] at hnone
    cases hnone
  · rw [hnobody] at hsome
    cases hsome

end TeamUp
