import TeamUp.SignedIn

/-!
# The dots on the tabs

The requests tab carries a dot while there are requests, the messages tab while there are
new messages.  The dots are brought up to date by hand.  A snapshot without a dictionary
empties the array and is the one change after which nobody does it, but for the screen of
the messages, if its view has been loaded: the dots are right exactly as long as such a
snapshot comes when there is no dot to remove, or, for the messages, when that screen has
been opened.
-/

namespace TeamUp

/-- The controllers of the requests and of the messages with the tab bar. -/
structure TabBarScene where
  currentUser : Option String
  /-- `RequestController.teammateRequests`, with the look-ups under way. -/
  requests : Board Tree String User (List User)
  /-- `MessageController.chats` -/
  chats : Board Tree (String × Tree) DirectChat (List DirectChat)
  /-- The tags of the dots among the subviews of the tab bar. -/
  subviews : List Nat
  /-- The view of `MessagesViewController` has been loaded, and observes `messagesUpdated`. -/
  messagesLoaded : Bool
  /-- The reloads of that screen that wait on the main queue. -/
  reloads : Nat
deriving DecidableEq

inductive TabBarEvent where
  | requests (e : BoardEvent Tree Tree)
  | chats (e : BoardEvent Tree Tree)
  | acceptTeammateRequest (requestingUser : User)
  | declineTeammateRequest (requestingUser : User)
  | deleteDirectChat
  /-- The chat is the one at this index of the controller's. -/
  | markDirectChatMessagesAsRead (index : Nat)
  /-- The chat is one the controller does not hold any more. -/
  | markOldChatAsRead (chat : DirectChat)
  /-- The messages tab is opened. -/
  | viewWillAppear
  | reload
deriving DecidableEq

/-- `markAsRead` of each unread message. -/
def DirectChat.markedAsRead (currentUser : Option String) (chat : DirectChat) : DirectChat :=
  match currentUser with
  | some user => { chat with messages := chat.messages.map fun m =>
      if m.fromUser != user && m.read == false then m.markAsRead else m }
  | none => chat

namespace TabBarScene

def opened (currentUser : Option String) : TabBarScene :=
  { currentUser, requests := .initial [], chats := .initial [], subviews := []
    messagesLoaded := false, reloads := 0 }

def teammateRequests (s : TabBarScene) : List User := s.requests.mirror

/-- `MessageController.hasNewMessages` -/
def hasNewMessages (s : TabBarScene) : Bool :=
  !(s.chats.mirror.filter fun chat => chat.hasNewMessages s.currentUser).isEmpty

/-- The first subview with the tag is removed. -/
def removeBadgeFromTabBarItemIndex (s : TabBarScene) (index : Nat) : TabBarScene :=
  { s with subviews := s.subviews.erase index }

def addBadgeToTabBarItemIndex (s : TabBarScene) (index : Nat) : TabBarScene :=
  let s := s.removeBadgeFromTabBarItemIndex index
  { s with subviews := s.subviews ++ [index] }

def updateTeammatesNotificationBadge (s : TabBarScene) : TabBarScene :=
  if 0 < s.teammateRequests.length then s.addBadgeToTabBarItemIndex 1
  else s.removeBadgeFromTabBarItemIndex 1

def updateMessagesNotificationBadge (s : TabBarScene) : TabBarScene :=
  if s.hasNewMessages then s.addBadgeToTabBarItemIndex 2
  else s.removeBadgeFromTabBarItemIndex 2

/-- The notification `messagesUpdated`: the screen of the messages reloads later. -/
def messagesUpdated (s : TabBarScene) : TabBarScene :=
  if s.messagesLoaded then { s with reloads := s.reloads + 1 } else s

/-- What the observer of the requests does beside its board. -/
def afterRequests (s : TabBarScene) : BoardEvent Tree Tree → TabBarScene
  | .joined _ => s.updateTeammatesNotificationBadge
  -- A snapshot that empties the array is not followed by an update.
  | _ => s

/-- What the observer of the chats does beside its board. -/
def afterChats (s : TabBarScene) : BoardEvent Tree Tree → TabBarScene
  | .observed snapshot => if (fetchChats.react snapshot).isLeft then s.messagesUpdated else s
  | .joined _ => s.messagesUpdated.updateMessagesNotificationBadge
  | .returned .. => s

def removeRequest (s : TabBarScene) (requestingUser : User) : TabBarScene :=
  match s.teammateRequests.findIdx? fun u => u.isEqual requestingUser with
  | some index =>
      { s with requests := { s.requests with mirror := s.teammateRequests.eraseIdx index } }
  | none => s

/-- What accepting and declining do beside their writes. -/
def answerRequest (s : TabBarScene) (requestingUser : User) : TabBarScene :=
  match s.currentUser with
  | some _ => (s.removeRequest requestingUser).updateTeammatesNotificationBadge
  | none => s

def acceptTeammateRequest : TabBarScene → User → TabBarScene := answerRequest

def declineTeammateRequest : TabBarScene → User → TabBarScene := answerRequest

/-- The chat goes when the next snapshot comes. -/
def deleteDirectChat (s : TabBarScene) : TabBarScene :=
  match s.currentUser with
  | some _ => s.updateMessagesNotificationBadge
  | none => s

def markDirectChatMessagesAsRead (s : TabBarScene) (index : Nat) (chat : DirectChat) :
    TabBarScene :=
  if chat.hasNewMessages s.currentUser then
    updateMessagesNotificationBadge { s with chats := { s.chats with
      mirror := s.chats.mirror.set index (chat.markedAsRead s.currentUser) } }
  else s

def markOldChatAsRead (s : TabBarScene) (chat : DirectChat) : TabBarScene :=
  if chat.hasNewMessages s.currentUser then s.updateMessagesNotificationBadge else s

def step (s : TabBarScene) : TabBarEvent → Option TabBarScene
  | .requests e => (fetchTeammateRequests.step s.requests e).map fun requests =>
      { s with requests }.afterRequests e
  | .chats e => (fetchChats.step s.chats e).map fun chats => { s with chats }.afterChats e
  | .acceptTeammateRequest requestingUser => some (s.acceptTeammateRequest requestingUser)
  | .declineTeammateRequest requestingUser => some (s.declineTeammateRequest requestingUser)
  | .deleteDirectChat => some s.deleteDirectChat
  | .markDirectChatMessagesAsRead index =>
      s.chats.mirror[index]?.map fun chat => s.markDirectChatMessagesAsRead index chat
  | .markOldChatAsRead chat => some (s.markOldChatAsRead chat)
  | .viewWillAppear => some { s with messagesLoaded := true, reloads := s.reloads + 1 }
  | .reload =>
      if 0 < s.reloads then
        some { s with reloads := s.reloads - 1 }.updateMessagesNotificationBadge
      else none

/-! ### What is wanted -/

/-- Every handler that an event started has run. -/
def Settled (s : TabBarScene) : Prop :=
  s.requests.Settled ∧ s.chats.Settled ∧ s.reloads = 0

instance (s : TabBarScene) : Decidable s.Settled := inferInstanceAs (Decidable (_ ∧ _ ∧ _))

/-- Each tab carries one dot or none, as it should. -/
structure Dotted (s : TabBarScene) : Prop where
  requests : s.subviews.count 1 = if s.teammateRequests.isEmpty then 0 else 1
  messages : s.subviews.count 2 = if s.hasNewMessages then 1 else 0

instance (s : TabBarScene) : Decidable s.Dotted :=
  decidable_of_iff
    (s.subviews.count 1 = (if s.teammateRequests.isEmpty then 0 else 1) ∧
      s.subviews.count 2 = if s.hasNewMessages then 1 else 0)
    ⟨fun h => ⟨h.1, h.2⟩, fun h => ⟨h.1, h.2⟩⟩

/-- A snapshot that empties an array comes when the tab has no dot to lose, or, for the chats,
    when the messages tab has been opened. -/
def Refreshed (s : TabBarScene) : TabBarEvent → Prop
  | .requests (.observed snapshot) =>
      (fetchTeammateRequests.react snapshot).isLeft → s.teammateRequests = []
  | .chats (.observed snapshot) =>
      (fetchChats.react snapshot).isLeft → s.hasNewMessages = false ∨ s.messagesLoaded = true
  | _ => True

instance (s : TabBarScene) (e : TabBarEvent) : Decidable (s.Refreshed e) := by
  unfold Refreshed
  split <;> infer_instance

/-- The dots are right, but that of the messages may wait for a reload. -/
structure Fresh (s : TabBarScene) : Prop where
  requests : s.subviews.count 1 = if s.teammateRequests.isEmpty then 0 else 1
  messages : s.reloads = 0 → s.subviews.count 2 = if s.hasNewMessages then 1 else 0
  single : s.subviews.count 2 ≤ 1

variable {s t : TabBarScene} {e : TabBarEvent}

theorem fresh_opened (currentUser : Option String) : (opened currentUser).Fresh where
  requests := rfl
  messages := fun _ => rfl
  single := Nat.zero_le _

/-! ### Dots -/

section Dots

variable {index other : Nat}

theorem count_remove (hone : s.subviews.count index ≤ 1) :
    (s.removeBadgeFromTabBarItemIndex index).subviews.count index = 0 := by
  have hcount : (s.subviews.erase index).count index = s.subviews.count index - 1 :=
    List.count_erase_self
  simp only [removeBadgeFromTabBarItemIndex, hcount]
  omega

theorem count_remove_other (hne : other ≠ index) :
    (s.removeBadgeFromTabBarItemIndex index).subviews.count other = s.subviews.count other :=
  List.count_erase_of_ne hne

theorem count_add (hone : s.subviews.count index ≤ 1) :
    (s.addBadgeToTabBarItemIndex index).subviews.count index = 1 := by
  have hzero := count_remove hone
  simp only [addBadgeToTabBarItemIndex, List.count_append, hzero, List.count_singleton_self]

theorem count_add_other (hne : other ≠ index) :
    (s.addBadgeToTabBarItemIndex index).subviews.count other = s.subviews.count other := by
  have hsame : (s.removeBadgeFromTabBarItemIndex index).subviews.count other =
      s.subviews.count other := count_remove_other hne
  simp [addBadgeToTabBarItemIndex, List.count_append, hsame, Ne.symm hne]

end Dots

theorem count_updateTeammates (hone : s.subviews.count 1 ≤ 1) :
    s.updateTeammatesNotificationBadge.subviews.count 1 =
      (if s.teammateRequests.isEmpty then 0 else 1) ∧
    s.updateTeammatesNotificationBadge.subviews.count 2 = s.subviews.count 2 := by
  unfold updateTeammatesNotificationBadge
  split
  · rename_i hsome
    have hne : s.teammateRequests.isEmpty = false := by
      simpa [List.length_pos_iff] using hsome
    rw [count_add hone, hne, count_add_other (by decide)]
    exact ⟨rfl, rfl⟩
  · rename_i hnone
    have hempty : s.teammateRequests.isEmpty = true := by
      simpa [List.length_pos_iff] using hnone
    rw [count_remove hone, hempty, count_remove_other (by decide)]
    exact ⟨rfl, rfl⟩

theorem count_updateMessages (hone : s.subviews.count 2 ≤ 1) :
    s.updateMessagesNotificationBadge.subviews.count 2 = (if s.hasNewMessages then 1 else 0) ∧
    s.updateMessagesNotificationBadge.subviews.count 1 = s.subviews.count 1 := by
  unfold updateMessagesNotificationBadge
  split
  · exact ⟨count_add hone, count_add_other (by decide)⟩
  · exact ⟨count_remove hone, count_remove_other (by decide)⟩

/-- An update changes the dots only. -/
theorem updateTeammates_eq (s : TabBarScene) : s.updateTeammatesNotificationBadge =
    { s with subviews := s.updateTeammatesNotificationBadge.subviews } := by
  unfold updateTeammatesNotificationBadge
  split <;> rfl

theorem updateMessages_eq (s : TabBarScene) : s.updateMessagesNotificationBadge =
    { s with subviews := s.updateMessagesNotificationBadge.subviews } := by
  unfold updateMessagesNotificationBadge
  split <;> rfl

/-- Bringing the requests tab up to date. -/
theorem fresh_updateTeammates (hone : s.subviews.count 1 ≤ 1)
    (hmessages : s.reloads = 0 → s.subviews.count 2 = if s.hasNewMessages then 1 else 0)
    (htwo : s.subviews.count 2 ≤ 1) : s.updateTeammatesNotificationBadge.Fresh := by
  obtain ⟨hrequests, hsame⟩ := count_updateTeammates hone
  rw [updateTeammates_eq]
  exact ⟨hrequests, fun hzero => hsame.trans (hmessages hzero), hsame.trans_le htwo⟩

/-- Bringing the messages tab up to date. -/
theorem fresh_updateMessages
    (hrequests : s.subviews.count 1 = if s.teammateRequests.isEmpty then 0 else 1)
    (htwo : s.subviews.count 2 ≤ 1) : s.updateMessagesNotificationBadge.Fresh := by
  obtain ⟨hmessages, hsame⟩ := count_updateMessages htwo
  rw [updateMessages_eq]
  refine ⟨hsame.trans hrequests, fun _ => hmessages, ?_⟩
  change s.updateMessagesNotificationBadge.subviews.count 2 ≤ 1
  rw [hmessages]
  split <;> omega

theorem Fresh.one (h : s.Fresh) : s.subviews.count 1 ≤ 1 := by
  rw [h.requests]
  split <;> omega

/-! ### What a step keeps -/

/-- The dots stay right while what they tell of stays the same. -/
theorem Fresh.of_same (h : s.Fresh) (hsubviews : t.subviews = s.subviews)
    (hrequests : t.teammateRequests = s.teammateRequests)
    (hnew : t.reloads = 0 → s.reloads = 0 ∧ t.hasNewMessages = s.hasNewMessages) : t.Fresh where
  requests := by
    rw [hsubviews, hrequests]
    exact h.requests
  messages := by
    intro hzero
    obtain ⟨hbefore, hsame⟩ := hnew hzero
    rw [hsubviews, hsame]
    exact h.messages hbefore
  single := by
    rw [hsubviews]
    exact h.single

/-- What has been published stays so until a join, or a snapshot that is reacted to at once. -/
theorem mirror_returned {Element Item Entry Value : Type}
    {O : Observer Tree Element Item Tree Entry Value} {b c : Board Tree Item Entry Value}
    {i index : Nat} {response : Tree} (hst : O.step b (.returned i index response) = some c) :
    c.mirror = b.mirror := by
  obtain ⟨before, f, after, earlier, item, later, -, -, -, -, rfl⟩ := Observer.step_returned hst
  rfl

theorem Fresh.requests_step (h : s.Fresh) {e : BoardEvent Tree Tree}
    (hrefreshed : s.Refreshed (.requests e)) (hst : s.step (.requests e) = some t) : t.Fresh := by
  obtain ⟨requests, hboard, rfl⟩ := Option.map_eq_some_iff.mp hst
  cases e with
  | joined i => exact fresh_updateTeammates h.one h.messages h.single
  | returned i index response =>
    exact h.of_same rfl (mirror_returned hboard) fun hzero => ⟨hzero, rfl⟩
  | observed snapshot =>
    obtain rfl := Option.some.inj hboard
    refine h.of_same rfl ?_ fun hzero => ⟨hzero, rfl⟩
    change (fetchTeammateRequests.observe s.requests snapshot).mirror = s.requests.mirror
    unfold Observer.observe
    cases hreact : fetchTeammateRequests.react snapshot with
    | inr elements => rfl
    | inl value =>
      -- the snapshot empties an array that is empty
      have hempty : s.requests.mirror = [] := hrefreshed (by rw [hreact]; rfl)
      rw [hempty]
      exact gathers_fetchTeammateRequests.answer snapshot value hreact

theorem Fresh.answerRequest (h : s.Fresh) (requestingUser : User) :
    (s.answerRequest requestingUser).Fresh := by
  unfold TabBarScene.answerRequest
  split
  · unfold removeRequest
    split
    · exact fresh_updateTeammates h.one h.messages h.single
    · exact fresh_updateTeammates h.one h.messages h.single
  · exact h

theorem messagesUpdated_eq (s : TabBarScene) :
    s.messagesUpdated = { s with reloads := s.messagesUpdated.reloads } := by
  unfold messagesUpdated
  split <;> rfl

/-- If the screen of the messages is to reload, it will put the dot right. -/
theorem Fresh.chatsUpdated (h : s.Fresh)
    {chats : Board Tree (String × Tree) DirectChat (List DirectChat)}
    (hnew : s.messagesLoaded = false →
      ({ s with chats } : TabBarScene).hasNewMessages = s.hasNewMessages) :
    ({ s with chats } : TabBarScene).messagesUpdated.Fresh := by
  unfold messagesUpdated
  cases hloaded : s.messagesLoaded with
  | true => exact h.of_same rfl rfl fun hzero => by cases hzero
  | false => exact h.of_same rfl rfl fun hzero => ⟨hzero, hnew hloaded⟩

theorem Fresh.chats_step (h : s.Fresh) {e : BoardEvent Tree Tree}
    (hrefreshed : s.Refreshed (.chats e)) (hst : s.step (.chats e) = some t) : t.Fresh := by
  obtain ⟨chats, hboard, rfl⟩ := Option.map_eq_some_iff.mp hst
  cases e with
  | joined i =>
    have hupdated := messagesUpdated_eq { s with chats }
    refine fresh_updateMessages ?_ ?_
    · rw [hupdated]
      exact h.requests
    · rw [hupdated]
      exact h.single
  | returned i index response =>
    have hsame := mirror_returned hboard
    exact h.of_same rfl rfl fun hzero => ⟨hzero, by simp [afterChats, hasNewMessages, hsame]⟩
  | observed snapshot =>
    obtain rfl := Option.some.inj hboard
    cases hreact : fetchChats.react snapshot with
    | inr elements =>
      have hafter : ({ s with chats := fetchChats.observe s.chats snapshot } :
          TabBarScene).afterChats (.observed snapshot) =
            { s with chats := fetchChats.observe s.chats snapshot } := by
        simp [afterChats, hreact]
      rw [hafter]
      refine h.of_same rfl rfl fun hzero => ⟨hzero, ?_⟩
      simp [hasNewMessages, Observer.observe, hreact]
    | inl value =>
      have hafter : ({ s with chats := fetchChats.observe s.chats snapshot } :
          TabBarScene).afterChats (.observed snapshot) =
            ({ s with chats := fetchChats.observe s.chats snapshot } :
              TabBarScene).messagesUpdated := by
        simp [afterChats, hreact]
      rw [hafter]
      -- without a reload the dot stays, and there was none
      refine h.chatsUpdated fun hclosed => ?_
      have hbefore : s.hasNewMessages = false :=
        (hrefreshed (by rw [hreact]; rfl)).resolve_right (by simp [hclosed])
      have hempty : value = [] := gathers_fetchChats.answer snapshot value hreact
      rw [hbefore]
      simp [hasNewMessages, Observer.observe, hreact, hempty]

/-- **A step that leaves no emptied array without an update** keeps the dots right. -/
theorem Fresh.step (h : s.Fresh) (hrefreshed : s.Refreshed e) (hst : s.step e = some t) :
    t.Fresh := by
  cases e with
  | requests e => exact h.requests_step hrefreshed hst
  | chats e => exact h.chats_step hrefreshed hst
  | acceptTeammateRequest requestingUser =>
    obtain rfl := Option.some.inj hst
    exact h.answerRequest requestingUser
  | declineTeammateRequest requestingUser =>
    obtain rfl := Option.some.inj hst
    exact h.answerRequest requestingUser
  | deleteDirectChat =>
    obtain rfl := Option.some.inj hst
    unfold TabBarScene.deleteDirectChat
    split
    · exact fresh_updateMessages h.requests h.single
    · exact h
  | markDirectChatMessagesAsRead index =>
    obtain ⟨chat, -, rfl⟩ := Option.map_eq_some_iff.mp hst
    unfold TabBarScene.markDirectChatMessagesAsRead
    split
    · exact fresh_updateMessages h.requests h.single
    · exact h
  | markOldChatAsRead chat =>
    obtain rfl := Option.some.inj hst
    unfold TabBarScene.markOldChatAsRead
    split
    · exact fresh_updateMessages h.requests h.single
    · exact h
  | viewWillAppear =>
    obtain rfl := Option.some.inj hst
    exact h.of_same rfl rfl fun hzero => by cases hzero
  | reload =>
    obtain ⟨-, rfl⟩ := of_guarded hst
    exact fresh_updateMessages h.requests h.single

/-- Between settled states exactly these steps keep the dots right. -/
theorem Fresh.dotted_step_iff (h : s.Fresh) (hst : s.step e = some t) (hreloads : s.reloads = 0)
    (ht : t.Settled) : t.Dotted ↔ s.Refreshed e := by
  constructor
  · intro hdotted
    -- only a snapshot that empties an array leaves a dot where it was
    unfold Refreshed
    split
    · rename_i snapshot
      intro hleft
      obtain ⟨value, hreact⟩ := Sum.isLeft_iff.mp hleft
      obtain rfl : ({ s with requests := fetchTeammateRequests.observe s.requests snapshot } :
          TabBarScene).afterRequests (.observed snapshot) = t := Option.some.inj hst
      have hempty : value = [] := gathers_fetchTeammateRequests.answer snapshot value hreact
      have hcount : s.subviews.count 1 = 0 := by
        simpa [afterRequests, Observer.observe, hreact, teammateRequests, hempty] using
          hdotted.requests
      have hbefore := h.requests
      rw [hcount] at hbefore
      split at hbefore
      · rename_i hnone
        exact List.isEmpty_iff.mp hnone
      · cases hbefore
    · rename_i snapshot
      intro hleft
      obtain ⟨value, hreact⟩ := Sum.isLeft_iff.mp hleft
      obtain rfl : ({ s with chats := fetchChats.observe s.chats snapshot } :
          TabBarScene).afterChats (.observed snapshot) = t := Option.some.inj hst
      have hempty : value = [] := gathers_fetchChats.answer snapshot value hreact
      cases hloaded : s.messagesLoaded with
      | true => exact Or.inr rfl
      | false =>
        have hcount : s.subviews.count 2 = 0 := by
          simpa [afterChats, Observer.observe, hreact, messagesUpdated, hloaded, hasNewMessages,
            hempty] using hdotted.messages
        have hbefore := h.messages hreloads
        rw [hcount] at hbefore
        refine Or.inl ?_
        by_contra hnew
        rw [Bool.not_eq_false] at hnew
        rw [hnew, if_pos rfl] at hbefore
        cases hbefore
    · trivial
  · intro hrefreshed
    have hfresh := h.step hrefreshed hst
    exact ⟨hfresh.requests, hfresh.messages ht.2.2⟩

end TabBarScene

open TabBarScene

/-- **Each tab carries one dot or none, as it should**, whenever the handlers of all events have
    run, in every run in which no snapshot empties the requests under a dot, nor the chats
    unless the messages tab has been opened. -/
theorem tabs_dotted {currentUser : Option String} {events : List TabBarEvent} {s : TabBarScene}
    (run : Run TabBarScene.step Refreshed (TabBarScene.opened currentUser) events s)
    (hsettled : s.Settled) : s.Dotted := by
  have hfresh : s.Fresh :=
    run.invariant Fresh (fun _ _ _ hu hok hst => hu.step hok hst) (fresh_opened currentUser)
  exact ⟨hfresh.requests, hfresh.messages hsettled.2.2⟩

/-- Bob requests. -/
def bobRequests : List TabBarEvent :=
  [.requests (.observed (Tree.ofDictionary [("bobbob", Tree.int 1)])),
    .requests (.returned 0 0 (record "bobbob")), .requests (.joined 0)]

theorem tabs_dotted_bobRequests :
    ∃ s, exec TabBarScene.step (fun s e => decide (s.Refreshed e))
        (TabBarScene.opened (some "alice1")) bobRequests = some s ∧
      s.subviews = [1] ∧ s.Dotted := by
  have hend : (exec TabBarScene.step (fun s e => decide (s.Refreshed e))
      (TabBarScene.opened (some "alice1")) bobRequests).map (fun s =>
        (s.subviews, decide s.Settled)) = some ([1], true) := by
    decide +kernel
  obtain ⟨s, hexec, hfacts⟩ := Option.map_eq_some_iff.mp hend
  obtain ⟨hdots, hsettled⟩ := Prod.mk.inj hfacts
  exact ⟨s, hexec, hdots, tabs_dotted (run_of_exec (fun _ _ h => of_decide_eq_true h) hexec)
    (of_decide_eq_true hsettled)⟩

/-- The request is withdrawn, or answered on another device. -/
theorem not_always_dotted :
    ¬ ∀ (currentUser : Option String) (events : List TabBarEvent) (s : TabBarScene),
      Run TabBarScene.step (fun _ _ => True) (TabBarScene.opened currentUser) events s →
      s.Settled → s.Dotted := by
  intro hall
  have hend : (exec TabBarScene.step (fun _ _ => true) (TabBarScene.opened (some "alice1"))
      (bobRequests ++ [.requests (.observed .empty)])).map (fun s =>
        (decide s.Settled, decide s.Dotted)) = some (true, false) := by
    decide +kernel
  obtain ⟨s, hexec, hfacts⟩ := Option.map_eq_some_iff.mp hend
  obtain ⟨hsettled, hdotted⟩ := Prod.mk.inj hfacts
  exact of_decide_eq_false hdotted (hall (some "alice1") _ s
    (run_of_exec (fun _ _ _ => trivial) hexec) (of_decide_eq_true hsettled))

end TeamUp
