import TeamUp.Controllers

/-!
# The chat screen

`ChatViewController` shows one conversation.  Each `messagesUpdated` notification
replaces its chat by a lookup in the chats published then, and the lookup compares
users by name, biography and region.  The screen keeps its partner exactly as long
as every notification finds a chat with an equal one.
-/

namespace TeamUp

/-- The screen, with the calls it has made so far. -/
structure Screen where
  chat : Option DirectChat
  /-- The texts handed to `sendDirectMessage`, each with the partner. -/
  sent : List (String × User)
  /-- The chats handed to `markDirectChatMessagesAsRead`. -/
  marked : List DirectChat
deriving DecidableEq

inductive ScreenEvent where
  /-- The notification, with the chats published at that moment. -/
  | messagesUpdated (chats : List DirectChat)
  | viewDidAppear
  /-- A tap on Send, with the content of the text field. -/
  | sendTapped (text : Option String)
deriving DecidableEq

/-- `MessageController.fetchDirectChat` -/
def fetchDirectChat (chats : List DirectChat) (chatPartner : User) : Option DirectChat :=
  chats.find? fun chat => chat.chatPartner.isEqual chatPartner

/-- The chat a screen for a teammate is opened with, `createChat` and
    `messageButtonTapped`. -/
def createChat (chats : List DirectChat) (user : User) : DirectChat :=
  match chats.find? fun chat => chat.chatPartner.isEqual user with
  | some chat => chat
  | none => { chatPartner := user, messages := [] }

namespace Screen

def opened (chat : DirectChat) : Screen := { chat := some chat, sent := [], marked := [] }

def markChatAsRead (s : Screen) : Screen :=
  match s.chat with
  | some chat => { s with marked := s.marked ++ [chat] }
  | none => s

def updateChat (s : Screen) (chats : List DirectChat) : Screen :=
  match s.chat with
  | some chat =>
      ({ s with chat := fetchDirectChat chats chat.chatPartner } : Screen).markChatAsRead
  | none => s.markChatAsRead

def sendMessage (s : Screen) (text : Option String) : Screen :=
  match text, s.chat with
  | some text, some chat =>
      if text.isEmpty then s else { s with sent := s.sent ++ [(text, chat.chatPartner)] }
  | _, _ => s

def step (s : Screen) : ScreenEvent → Screen
  | .messagesUpdated chats => s.updateChat chats
  | .viewDidAppear => s.markChatAsRead
  | .sendTapped text => s.sendMessage text

def run (s : Screen) (events : List ScreenEvent) : Screen := events.foldl step s

@[simp] theorem run_nil (s : Screen) : s.run [] = s := rfl

@[simp] theorem run_cons (s : Screen) (e : ScreenEvent) (events : List ScreenEvent) :
    s.run (e :: events) = (s.step e).run events := rfl

@[simp] theorem chat_markChatAsRead (s : Screen) : s.markChatAsRead.chat = s.chat := by
  unfold markChatAsRead
  split <;> rfl

@[simp] theorem sent_markChatAsRead (s : Screen) : s.markChatAsRead.sent = s.sent := by
  unfold markChatAsRead
  split <;> rfl

@[simp] theorem chat_sendMessage (s : Screen) (text : Option String) :
    (s.sendMessage text).chat = s.chat := by
  unfold sendMessage
  split
  · split <;> rfl
  · rfl

end Screen

/-- The text a tap on Send hands on, if it is not empty. -/
def tapped : ScreenEvent → Option String
  | .sendTapped (some text) => if text.isEmpty then none else some text
  | _ => none

/-- The notification finds a chat with a user equal to the partner; other events do
    not matter. -/
def Finds (partner : User) : ScreenEvent → Prop
  | .messagesUpdated chats => ∃ chat ∈ chats, chat.chatPartner.isEqual partner = true
  | _ => True

theorem User.isEqual_refl (user : User) : user.isEqual user = true :=
  User.isEqual_iff.mpr ⟨rfl, rfl, rfl⟩

theorem User.isEqual_congr {u v w : User} (h : u.isEqual v = true) :
    w.isEqual u = w.isEqual v := by
  obtain ⟨hname, hbio, hregion⟩ := User.isEqual_iff.mp h
  simp only [User.isEqual, hname, hbio, hregion]

namespace Screen

variable {s : Screen} {chat : DirectChat} {partner : User}

/-- One event: the chat is kept exactly if the event finds the partner, and then the
    text of a tap is handed on for a user of the partner's name. -/
theorem step_keeps (hchat : s.chat = some chat) (hpartner : chat.chatPartner.isEqual partner = true)
    (e : ScreenEvent) :
    ((s.step e).chat ≠ none ↔ Finds partner e) ∧
      (∀ chat', (s.step e).chat = some chat' → chat'.chatPartner.isEqual partner = true) ∧
      (s.step e).sent.map (fun x => (x.1, x.2.username)) =
        s.sent.map (fun x => (x.1, x.2.username)) ++
          (tapped e).toList.map fun text => (text, partner.username) := by
  cases e with
  | messagesUpdated chats =>
    have hstep : (s.step (.messagesUpdated chats)).chat =
        chats.find? fun c => c.chatPartner.isEqual partner := by
      simp only [step, updateChat, hchat, chat_markChatAsRead, fetchDirectChat,
        User.isEqual_congr hpartner]
    refine ⟨?_, ?_, ?_⟩
    · rw [hstep, ne_eq, List.find?_eq_none]
      simp [Finds]
    · intro chat' hchat'
      rw [hstep] at hchat'
      have hfound := List.find?_some hchat'
      exact hfound
    · simp [step, updateChat, hchat, tapped]
  | viewDidAppear =>
    refine ⟨by simp [step, hchat, Finds], fun chat' hchat' => ?_, by simp [step, tapped]⟩
    obtain rfl : chat = chat' := by simpa [step, hchat] using hchat'
    exact hpartner
  | sendTapped text =>
    refine ⟨by simp [step, hchat, Finds], fun chat' hchat' => ?_, ?_⟩
    · obtain rfl : chat = chat' := by simpa [step, hchat] using hchat'
      exact hpartner
    · have hname : chat.chatPartner.username = partner.username := (User.isEqual_iff.mp hpartner).1
      cases text with
      | none => simp [step, sendMessage, tapped]
      | some text =>
        by_cases hempty : text.isEmpty
        · simp [step, sendMessage, hchat, tapped, hempty]
        · simp [step, sendMessage, hchat, tapped, hempty, hname]

/-- The chat is never lost on the way exactly if every event finds the partner. -/
theorem run_keeps (hchat : s.chat = some chat) (hpartner : chat.chatPartner.isEqual partner = true)
    (events : List ScreenEvent) :
    (∀ done, done <+: events → (s.run done).chat ≠ none) ↔ ∀ e ∈ events, Finds partner e := by
  induction events generalizing s chat with
  | nil => simp [hchat]
  | cons e events ih =>
    obtain ⟨hkeeps, hequal, -⟩ := step_keeps hchat hpartner e
    constructor
    · intro hall
      have hnext : (s.step e).chat ≠ none := hall [e] (by simp)
      obtain ⟨chat', hchat'⟩ := Option.ne_none_iff_exists'.mp hnext
      have hrest := (ih hchat' (hequal chat' hchat')).mp fun done hdone =>
        hall (e :: done) (List.cons_prefix_cons.mpr ⟨rfl, hdone⟩)
      exact List.forall_mem_cons.mpr ⟨hkeeps.mp hnext, hrest⟩
    · intro hfinds done hdone
      obtain ⟨hhead, hrest⟩ := List.forall_mem_cons.mp hfinds
      obtain ⟨chat', hchat'⟩ := Option.ne_none_iff_exists'.mp (hkeeps.mpr hhead)
      cases done with
      | nil => simp [hchat]
      | cons e' done =>
        obtain ⟨rfl, hpre⟩ := List.cons_prefix_cons.mp hdone
        exact (ih hchat' (hequal chat' hchat')).mpr hrest done hpre

/-- What the screen holds and has handed on while every event finds the partner. -/
theorem run_sent (hchat : s.chat = some chat) (hpartner : chat.chatPartner.isEqual partner = true)
    {events : List ScreenEvent} (hfinds : ∀ e ∈ events, Finds partner e) :
    (∃ chat', (s.run events).chat = some chat' ∧ chat'.chatPartner.isEqual partner = true) ∧
      (s.run events).sent.map (fun x => (x.1, x.2.username)) =
        s.sent.map (fun x => (x.1, x.2.username)) ++
          (events.filterMap tapped).map fun text => (text, partner.username) := by
  induction events generalizing s chat with
  | nil => exact ⟨⟨chat, hchat, hpartner⟩, by simp⟩
  | cons e events ih =>
    obtain ⟨hkeeps, hequal, hsent⟩ := step_keeps hchat hpartner e
    obtain ⟨hhead, hrest⟩ := List.forall_mem_cons.mp hfinds
    obtain ⟨chat', hchat'⟩ := Option.ne_none_iff_exists'.mp (hkeeps.mpr hhead)
    obtain ⟨hend, htexts⟩ := ih hchat' (hequal chat' hchat') hrest
    refine ⟨hend, ?_⟩
    rw [run_cons, htexts, hsent, List.filterMap_cons]
    cases tapped e <;> simp

end Screen

/-- At every moment the screen opened with this chat shows a chat with a user of the
    partner's name, and has handed every text tapped so far on for that user. -/
def KeepsPartner (chat : DirectChat) (events : List ScreenEvent) : Prop :=
  ∀ done, done <+: events →
    (∃ chat', ((Screen.opened chat).run done).chat = some chat' ∧
      chat'.chatPartner.username = chat.chatPartner.username) ∧
    ((Screen.opened chat).run done).sent.map (fun x => (x.1, x.2.username)) =
      (done.filterMap tapped).map fun text => (text, chat.chatPartner.username)

/-- **A conversation stays open exactly if every notification comes with a chat whose
    partner equals the one it was opened with**, by name, biography and region. -/
theorem keepsPartner_iff (chat : DirectChat) (events : List ScreenEvent) :
    KeepsPartner chat events ↔ ∀ e ∈ events, Finds chat.chatPartner e := by
  have hopened : (Screen.opened chat).chat = some chat := rfl
  have hself := chat.chatPartner.isEqual_refl
  constructor
  · intro hkeeps
    refine (Screen.run_keeps hopened hself events).mp fun done hdone => ?_
    obtain ⟨⟨chat', hchat', -⟩, -⟩ := hkeeps done hdone
    rw [hchat']
    exact Option.some_ne_none _
  · intro hfinds done hdone
    obtain ⟨⟨chat', hchat', hequal⟩, hsent⟩ :=
      Screen.run_sent hopened hself fun e he => hfinds e (hdone.subset he)
    exact ⟨⟨chat', hchat', (User.isEqual_iff.mp hequal).1⟩, hsent⟩

/-- The chats published with the notifications among some events. -/
def published : ScreenEvent → Option (List DirectChat)
  | .messagesUpdated chats => some chats
  | _ => none

/-- Some chat is with a user of this name. -/
def Holds (username : String) (chats : List DirectChat) : Prop :=
  ∃ chat ∈ chats, chat.chatPartner.username = username

/-- What can be published while nobody deletes the chat: chats are not empty and there
    is one for each user, a stored conversation stays, and one opened from the chat
    list is stored. -/
structure Arises (chat : DirectChat) (events : List ScreenEvent) : Prop where
  nonempty : ∀ chats ∈ events.filterMap published, ∀ c ∈ chats, c.messages ≠ []
  distinct : ∀ chats ∈ events.filterMap published,
    (chats.map fun c => c.chatPartner.username).Nodup
  stays : (events.filterMap published).Pairwise fun chats chats' =>
    Holds chat.chatPartner.username chats → Holds chat.chatPartner.username chats'
  stored : chat.messages ≠ [] → ∀ chats ∈ events.filterMap published,
    Holds chat.chatPartner.username chats

/-- A new conversation with bob is open, not stored yet, when carol writes; then a
    text is typed and Send tapped. -/
def carolWrites : List ScreenEvent :=
  [.messagesUpdated [⟨somebody "carol1", [newMessage "carol1" "hello" 5 "-0"]⟩],
    .sendTapped (some "hi")]

theorem arises_carolWrites : Arises (createChat [] (somebody "bobbob")) carolWrites where
  nonempty := by decide
  distinct := by decide
  stays := List.pairwise_singleton _ _
  stored := by simp [createChat]

theorem not_always_keepsPartner :
    ¬ ∀ (chat : DirectChat) (events : List ScreenEvent), Arises chat events →
      KeepsPartner chat events := by
  intro hall
  obtain ⟨⟨chat, hchat, -⟩, -⟩ := hall (createChat [] (somebody "bobbob")) carolWrites
    arises_carolWrites carolWrites (List.prefix_refl _)
  have hlost : ((Screen.opened (createChat [] (somebody "bobbob"))).run carolWrites).chat =
      none := by decide
  rw [hlost] at hchat
  cases hchat

end TeamUp
