import TeamUp.ShownCommunity

/-!
# Conversations on the screens

What is left of a conversation, once all has arrived, is the same on the screens, in the
database and in the community: one chat for each partner, with the messages the user keeps,
each of which one of the two has sent, by their timestamps.
-/

namespace TeamUp

open Protocol

/-! ### The chats of a snapshot -/

namespace Mirrors

/-- Every chat in the mirror is the one under its partner's key in the last snapshot. -/
theorem fetchChats_under {chats : List DirectChat} {events : List (BoardEvent Tree Tree)}
    {b : Board Tree (String × Tree) DirectChat (List DirectChat)}
    (run : Run fetchChats.step
      (fun b e => Observer.Permitted ChatsDecode (fun item => Found item.1) b e ∧
        Observer.InTurn b e) (Board.initial chats) events b) (hsettled : b.Settled) :
    ∀ f ∈ b.forks.getLast?, ∀ chat ∈ b.mirror, ∃ lookup,
      FetchChats.chatUnder f.snapshot lookup chat.chatPartner.username = some chat := by
  refine board_published (fun x chats => ∀ chat ∈ chats, ∃ lookup,
    FetchChats.chatUnder x lookup chat.chatPartner.username = some chat) ?_ ?_ ?_ ?_ run hsettled
  · intro x chats hx hreact
    obtain ⟨rfl, -⟩ := react_keyed hx.1 hreact
    simp
  · exact fun x elements hx hreact e he => fetchChats_starts hx hreact he
  · exact fun item response hfound => fetchChats_leaves hfound
  · intro x elements done hx hreact hitems hR chat hchat
    obtain rfl := react_elements hreact
    obtain ⟨d, hd, hcompletion⟩ :=
      List.mem_filterMap.mp ((List.mergeSort_perm _ _).mem_iff.mp hchat)
    obtain ⟨e, he, hstart⟩ := List.mem_filterMap.mp (hitems.mem_iff.mp (List.mem_map_of_mem hd))
    obtain ⟨key, -, rfl⟩ := List.mem_map.mp he
    obtain ⟨chatDictionary, hdictionary, hitem⟩ := Option.map_eq_some_iff.mp hstart
    obtain ⟨user, huser, hname⟩ := Option.map_eq_some_iff.mp (hR d hd)
    have hfetched : fetchedChat user chatDictionary = some chat := by
      simpa [fetchChats, huser, ← hitem] using hcompletion
    have hpartner : chat.chatPartner.username = key := by
      simp only [fetchedChat] at hfetched
      split at hfetched
      · cases hfetched
      · obtain rfl := Option.some.inj hfetched
        exact hname.trans (congrArg Prod.fst hitem).symm
    exact ⟨fun _ => d.2, by simp [FetchChats.chatUnder, hpartner, hdictionary, huser, hfetched]⟩

end Mirrors

/-! ### Conversations -/

/-- The chat lists the messages with these ids, each once, by their timestamps. -/
structure DirectChat.Shows (chat : DirectChat) (ids : Set String) : Prop where
  lists : Lists (chat.messages.map Message.id) ids
  sorted : chat.messages.Pairwise fun m m' => m.timestamp ≤ m'.timestamp

namespace Handset

variable {catalogue : List Game} {client : Session} {db : Tree} {ids : List String}
variable {c : Community String String} {events : List HandsetEvent} {t : Handset}
variable {partner : String}

def marksShown (s : Handset) : HandsetEvent → Bool
  | .app e => TeamUp.marksShown s.config e
  | .mirror _ => true

/-- The messages of a conversation that the user keeps. -/
def kept (c : Community String String) (user partner : String) : Set String :=
  {k | (user, partner, k) ∈ c.messages}

theorem displays_of_mem (hmirrors : Run Mirrors.step (fun m e => m.Permitted e ∧ m.InTurn e)
      (Mirrors.initial [] [] [] [] none) (events.filterMap HandsetEvent.mirror?) t.mirrors)
    (hcurrent : UpToDate (directChatsRef client.user) t.config.store t.mirrors.chats)
    {chat : DirectChat} (hchat : chat ∈ t.mirrors.chats.mirror) :
    ∃ lookup, Displays t.config.store client.user chat.chatPartner.username lookup chat := by
  obtain ⟨hsettled, f, hf, hanswers⟩ := hcurrent
  obtain ⟨lookup, hunder⟩ :=
    Mirrors.fetchChats_under (Mirrors.run_chats hmirrors) hsettled f hf chat hchat
  exact ⟨lookup, f.snapshot, hanswers, hunder⟩

/-- The element with a key that no other has. -/
theorem filter_eq_singleton {α β : Type} [DecidableEq β] {key : α → β} {list : List α} {a : α}
    (hnodup : (list.map key).Nodup) (ha : a ∈ list) :
    list.filter (fun x => key x = key a) = [a] := by
  induction list with
  | nil => cases ha
  | cons x rest ih =>
    obtain ⟨hx, hrest⟩ := List.nodup_cons.mp hnodup
    rcases List.mem_cons.mp ha with rfl | hin
    · rw [List.filter_cons_of_pos (by simp), List.filter_eq_nil_iff.mpr]
      intro y hy hsame
      exact hx (of_decide_eq_true hsame ▸ List.mem_map_of_mem hy)
    · have hne : key x ≠ key a := fun heq => hx (heq ▸ List.mem_map_of_mem hin)
      rw [List.filter_cons_of_neg (by simpa using hne)]
      exact ih hrest hin

/-- The chats on the screen with a partner. -/
def chatsWith (t : Handset) (partner : String) : List DirectChat :=
  t.mirrors.chats.mirror.filter fun chat => chat.chatPartner.username = partner

/-- **A conversation arrives as it is kept.**  Once every write has arrived and the observers are
    up to date, no chat with a partner is on the screen if the user keeps no message of the
    conversation, and else one is, once; it lists the messages kept, each once and by their
    timestamps, and each was sent by one of the two to the other in the run. -/
theorem conversation_shown (hdb : Holding db c)
    (hempty : db.has (directChatRef client.user partner) = false)
    (run : Run (step catalogue client) (fun s e => Orderly catalogue s e ∧ s.marksShown e = true)
      (initial db ids) events t) (hrest : t.AtRest client.user) :
    let messages := kept (community catalogue c (State.initial db ids) (appEvents events))
      client.user partner
    (messages = ∅ → t.chatsWith partner = []) ∧
      (messages.Nonempty → ∃ chat, t.chatsWith partner = [chat] ∧ chat.Shows messages ∧
        ∀ m ∈ chat.messages, SentBetween client.user partner (appEvents events) m) := by
  intro messages
  have horderly : Run (step catalogue client) (Orderly catalogue) (initial db ids) events t :=
    run.mono fun _ _ hok => hok.1
  obtain ⟨hnodup, hlisted⟩ := chats_listed hdb horderly hrest
  have hnonempty : partner ∈ Mirrors.chatNames t.mirrors.chats.mirror ↔ messages.Nonempty :=
    hlisted partner
  constructor
  · intro hnone
    refine List.filter_eq_nil_iff.mpr fun chat hchat hpartner => ?_
    have hmem := hnonempty.mp (List.mem_map.mpr ⟨chat, hchat, of_decide_eq_true hpartner⟩)
    exact Set.not_nonempty_iff_eq_empty.mpr hnone hmem
  · intro hsome
    obtain ⟨chat, hchat, hpartner⟩ := List.mem_map.mp (hnonempty.mpr hsome)
    refine ⟨chat, ?_, ?_⟩
    · rw [chatsWith, ← hpartner]
      exact filter_eq_singleton hnodup hchat
    · subst hpartner
      have hauthentic := Authentic.of_run hempty (run_app (fun _ _ hok => hok.2) run)
      have hholds : HoldsSent _ client.user chat.chatPartner.username t.config.store :=
        hauthentic.stored
      have hstored := holding_of_run hdb horderly hrest.arrived
      obtain ⟨lookup, hdisplays⟩ := displays_of_mem (run_mirrors horderly) hrest.chats hchat
      obtain ⟨hids, hhas⟩ := hdisplays.ids hholds
      refine ⟨⟨⟨hids, fun k => ?_⟩, hdisplays.sorted⟩, fun m hm => ?_⟩
      · exact (hhas k).trans (hstored (.message client.user chat.chatPartner.username k)).symm
      · obtain ⟨m₀, hm₀, r, rfl⟩ := hdisplays.of_sent hholds hm
        exact sentBetween_of_mem hm₀ rfl

/-! ### A run -/

def greeted : Tree :=
  (opWrites ⟨"alice1", 1⟩ (.sendDirectMessage "hi" (somebody "bobbob") 5) "-1").foldl
    (fun db w => w.apply db) (profiles aliceAndBob)

/-- Bob marks what he was shown of his conversation with alice. -/
def marksGreeting : Op :=
  .markDirectChatMessagesAsRead ⟨somebody "alice1", [newMessage "alice1" "hi" 5 "-1"]⟩

/-- Alice writes to bob, whose device shows the chat; he reads it. -/
def readsGreeting : List HandsetEvent :=
  [.mirror (.teammates (.observed .empty)), .mirror (.teammateRequests (.observed .empty)),
    .app (.start ⟨"alice1", 1⟩ (.sendDirectMessage "hi" (somebody "bobbob") 5) "-1"),
    .app (.deliver 0), .app (.deliver 0),
    .mirror (.chats (.observed (greeted.sub (directChatsRef "bobbob")))),
    .mirror (.chats (.returned 0 0 (greeted.sub (userRef "alice1")))),
    .mirror (.chats (.joined 0)), .app (.observe ⟨"bobbob", 1⟩),
    .app (.start ⟨"bobbob", 1⟩ marksGreeting "-2"), .app (.deliver 0),
    .mirror (.chats (.observed (((opWrites ⟨"bobbob", 1⟩ marksGreeting "-2").foldl
      (fun db w => w.apply db) greeted).sub (directChatsRef "bobbob")))),
    .mirror (.chats (.returned 1 0 (greeted.sub (userRef "alice1")))),
    .mirror (.chats (.joined 1))]

theorem conversation_shown_readsGreeting :
    ∃ c t, exec (step [] ⟨"bobbob", 1⟩) (fun s e => decide (s.Apart e) && s.marksShown e)
        (initial (profiles aliceAndBob) []) readsGreeting = some t ∧
      Holding (profiles aliceAndBob) c ∧
      ∃ chat, t.chatsWith "alice1" = [chat] ∧
        ∀ m ∈ chat.messages, SentBetween "bobbob" "alice1" (appEvents readsGreeting) m := by
  obtain ⟨c, hc⟩ : ∃ c, Holding (profiles aliceAndBob) c :=
    exists_holding (symmetric_of_no_teammates (by decide +kernel))
  have hend : (exec (step [] ⟨"bobbob", 1⟩) (fun s e => decide (s.Apart e) && s.marksShown e)
      (initial (profiles aliceAndBob) []) readsGreeting).map (fun t => (t.config.outstanding,
        t.config.store.has (directChatRef "bobbob" "alice1" ++ ["-1"]) &&
        decide (UpToDate (directChatsRef "bobbob") t.config.store t.mirrors.chats ∧
          UpToDate (teammatesRef "bobbob") t.config.store t.mirrors.teammates ∧
          UpToDate (teammateRequestsRef "bobbob") t.config.store t.mirrors.teammateRequests))) =
      some ([], true) := by
    decide +kernel
  obtain ⟨t, ht, hrest⟩ := Option.map_eq_some_iff.mp hend
  obtain ⟨hout, hrest⟩ := Prod.mk.inj hrest
  obtain ⟨hhas, hcurrent⟩ := Bool.and_eq_true_iff.mp hrest
  obtain ⟨hchats, hteammates, hrequests⟩ := of_decide_eq_true hcurrent
  have run : Run (step [] ⟨"bobbob", 1⟩) (fun s e => Orderly [] s e ∧ s.marksShown e = true)
      (initial (profiles aliceAndBob) []) readsGreeting t := by
    refine run_of_exec (fun s e h => ?_) ht
    obtain ⟨hapart, hmarks⟩ := Bool.and_eq_true_iff.mp h
    exact ⟨orderly_of_apart (of_decide_eq_true hapart), hmarks⟩
  have hstored := holding_of_run hc (run.mono fun _ _ hok => hok.1) hout
  have hempty : (profiles aliceAndBob).has (directChatRef "bobbob" "alice1") = false := rfl
  obtain ⟨-, hone⟩ := conversation_shown hc hempty run ⟨hout, hchats, hteammates, hrequests⟩
  obtain ⟨chat, honly, -, hsent⟩ :=
    hone ⟨"-1", (hstored (.message "bobbob" "alice1" "-1")).mpr hhas⟩
  exact ⟨c, t, ht, hc, chat, honly, hsent⟩

end Handset

end TeamUp
