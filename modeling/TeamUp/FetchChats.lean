import TeamUp.Controllers
import TeamUp.ForkJoin

/-!
# Fetching the chats

`fetchChats` observes the conversations of the current user.  For each snapshot it
looks up the partner of every conversation and publishes the chats once all look-ups
have left the group.  The body of the loop returns from the observer at a child that
is not a dictionary, and a look-up that finds no user returns without leaving, so a
single such child or partner keeps the chats of the snapshot from being published.
-/

namespace TeamUp

def sortedMessages (messages : List Message) : List Message :=
  messages.mergeSort fun a b => decide (a.timestamp ≤ b.timestamp)

def lastTimestamp (chat : DirectChat) : Int :=
  (chat.messages.getLast?.map Message.timestamp).getD 0

/-- The chat with the newest message first. -/
def sortedChats (chats : List DirectChat) : List DirectChat :=
  chats.mergeSort fun a b => decide (lastTimestamp b ≤ lastTimestamp a)

/-- The chat a look-up appends, if any message of it can be decoded. -/
def fetchedChat (user : User) (chatDictionary : Tree) : Option DirectChat :=
  let chat := DirectChat.ofDictionary user chatDictionary
  if chat.messages.isEmpty then none
  else some { chat with messages := sortedMessages chat.messages }

/-- `MessageController.fetchChats`: an element is a key with its value, a read the look-up
    of the partner, with the dictionary its closure captures. -/
def fetchChats :
    Observer Tree (String × Tree) (String × Tree) Tree DirectChat (List DirectChat) where
  react := fun snapshot =>
    match snapshot.asDictionary with
    | some dictionary => .inr (dictionary.keys.map fun key => (key, dictionary.get key))
    | none => .inl []
  start := fun e => (Tree.asDictionary e.2).map fun chatDictionary => (e.1, chatDictionary)
  completion := fun item response => (fetchedUser response).map fun user => fetchedChat user item.2
  join := sortedChats

namespace FetchChats

/-- What each look-up of a partner is answered. -/
def Answered (lookup : String → Tree) (item : String × Tree) (response : Tree) : Prop :=
  response = lookup item.1

instance (lookup : String → Tree) (item : String × Tree) (response : Tree) :
    Decidable (Answered lookup item response) :=
  inferInstanceAs (Decidable (response = lookup item.1))

/-- The chat under a key: its value is a dictionary with a message that decodes, and the
    partner is found. -/
def chatUnder (snapshot : Tree) (lookup : String → Tree) (key : String) : Option DirectChat := do
  let chatDictionary ← Tree.asDictionary (snapshot.get key)
  let user ← fetchedUser (lookup key)
  fetchedChat user chatDictionary

/-- Whenever all look-ups have returned, the chats of the snapshot were published exactly
    once, one for each key that has one. -/
def PublishesEach (snapshot : Tree) (lookup : String → Tree) : Prop :=
  ∀ (chats : List DirectChat) (events : List (BoardEvent Tree Tree))
    (b : Board Tree (String × Tree) DirectChat (List DirectChat)),
    Run fetchChats.step (Observer.Permitted (fun _ => False) (Answered lookup))
      (fetchChats.observe (Board.initial chats) snapshot) events b → b.Settled →
    ∃ published, b.forks.map Fork.published = [[published]] ∧ b.mirror = published ∧
      published.Perm (snapshot.keys.filterMap (chatUnder snapshot lookup))

/-- In a dictionary every value is a dictionary and every partner is found; a snapshot that
    is no dictionary has no chat under any key. -/
def Unhindered (snapshot : Tree) (lookup : String → Tree) : Prop :=
  if (Tree.asDictionary snapshot).isSome then
    ∀ key ∈ snapshot.keys,
      (Tree.asDictionary (snapshot.get key)).isSome ∧ (fetchedUser (lookup key)).isSome
  else ∀ key ∈ snapshot.keys, chatUnder snapshot lookup key = none

variable {snapshot : Tree} {lookup : String → Tree}

theorem react_dictionary (h : (Tree.asDictionary snapshot).isSome) :
    fetchChats.react snapshot = .inr (snapshot.keys.map fun key => (key, snapshot.get key)) := by
  obtain ⟨dictionary, hdictionary⟩ := Option.isSome_iff_exists.mp h
  obtain rfl := Tree.asDictionary_eq_some hdictionary
  simp only [fetchChats, hdictionary]

theorem react_other (h : ¬ (Tree.asDictionary snapshot).isSome) :
    fetchChats.react snapshot = .inl [] := by
  simp only [fetchChats, Option.not_isSome_iff_eq_none.mp h]

/-- The reads of a dictionary whose look-ups have all returned, one for each key. -/
theorem filterMap_done {done : List ((String × Tree) × Tree)}
    (hitems : (done.map Prod.fst).Perm
      ((snapshot.keys.map fun key => (key, snapshot.get key)).filterMap fetchChats.start))
    (hanswered : ∀ d ∈ done, Answered lookup d.1 d.2) :
    (done.filterMap fun d => (fetchChats.completion d.1 d.2).join).Perm
      (snapshot.keys.filterMap (chatUnder snapshot lookup)) := by
  have hdone : (done.filterMap fun d => (fetchChats.completion d.1 d.2).join) =
      (done.map Prod.fst).filterMap fun item =>
        (fetchChats.completion item (lookup item.1)).join := by
    rw [List.filterMap_map]
    refine List.filterMap_congr fun d hd => ?_
    rw [hanswered d hd]
    rfl
  have hkeys : ((snapshot.keys.map fun key => (key, snapshot.get key)).filterMap
      fetchChats.start).filterMap (fun item => (fetchChats.completion item (lookup item.1)).join) =
        snapshot.keys.filterMap (chatUnder snapshot lookup) := by
    rw [List.filterMap_filterMap, List.filterMap_map]
    refine List.filterMap_congr fun key _ => ?_
    simp only [Function.comp_apply, fetchChats, chatUnder]
    cases Tree.asDictionary (snapshot.get key) with
    | none => rfl
    | some chatDictionary => cases hlookup : fetchedUser (lookup key) <;> simp [hlookup]
  rw [hdone, ← hkeys]
  exact hitems.filterMap _

theorem mem_done {done : List ((String × Tree) × Tree)}
    (hitems : (done.map Prod.fst).Perm
      ((snapshot.keys.map fun key => (key, snapshot.get key)).filterMap fetchChats.start)) :
    (∀ d ∈ done, d.1.1 ∈ snapshot.keys) ∧
      ∀ key ∈ snapshot.keys, (Tree.asDictionary (snapshot.get key)).isSome →
        ∃ d ∈ done, d.1.1 = key := by
  constructor
  · intro d hd
    have hmem := hitems.mem_iff.mp (List.mem_map_of_mem hd)
    obtain ⟨e, he, hstart⟩ := List.mem_filterMap.mp hmem
    obtain ⟨key, hkey, rfl⟩ := List.mem_map.mp he
    obtain ⟨chatDictionary, -, hitem⟩ := Option.map_eq_some_iff.mp hstart
    rw [← hitem]
    exact hkey
  · intro key hkey hsome
    obtain ⟨chatDictionary, hdictionary⟩ := Option.isSome_iff_exists.mp hsome
    have hmem : (key, chatDictionary) ∈
        (snapshot.keys.map fun key => (key, snapshot.get key)).filterMap fetchChats.start := by
      refine List.mem_filterMap.mpr ⟨(key, snapshot.get key), List.mem_map_of_mem hkey, ?_⟩
      simp [fetchChats, hdictionary]
    obtain ⟨d, hd, hitem⟩ := List.mem_map.mp (hitems.mem_iff.mpr hmem)
    exact ⟨d, hd, by rw [hitem]⟩

theorem publishesEach_of_unhindered (h : Unhindered snapshot lookup) :
    PublishesEach snapshot lookup := by
  intro chats events b run hsettled
  obtain ⟨f, hforks, hsnapshot, hsound, hmirror⟩ := Observer.single_run run
  have hf : f.Settled := hsettled f (by rw [hforks]; simp)
  suffices hone : ∃ published, f.published = [published] ∧
      published.Perm (snapshot.keys.filterMap (chatUnder snapshot lookup)) by
    obtain ⟨published, hpublished, hperm⟩ := hone
    refine ⟨published, by simp [hforks, hpublished], ?_, hperm⟩
    rw [hmirror, hpublished]
    rfl
  by_cases hdictionary : (Tree.asDictionary snapshot).isSome
  · rw [Unhindered, if_pos hdictionary] at h
    have hreact := react_dictionary hdictionary
    rw [← hsnapshot] at hreact
    obtain ⟨done, hitems, hanswered, hpublished⟩ := hsound.published_of_starts hf hreact (by
      intro e he
      obtain ⟨key, hkey, rfl⟩ := List.mem_map.mp he
      obtain ⟨chatDictionary, hchat⟩ := Option.isSome_iff_exists.mp (h key (hsnapshot ▸ hkey)).1
      rw [hsnapshot]
      simp [fetchChats, hchat])
    rw [hsnapshot] at hitems
    have hleaves : ∀ d ∈ done, (fetchChats.completion d.1 d.2).isSome := by
      intro d hd
      have huser := (h d.1.1 ((mem_done hitems).1 d hd)).2
      rw [← show d.2 = lookup d.1.1 from hanswered d hd] at huser
      simpa [fetchChats] using huser
    rw [if_pos hleaves] at hpublished
    exact ⟨_, hpublished, (List.mergeSort_perm _ _).trans (filterMap_done hitems hanswered)⟩
  · rw [Unhindered, if_neg hdictionary] at h
    have hreact := react_other hdictionary
    rw [← hsnapshot] at hreact
    refine ⟨[], hsound.published_of_answer hreact, ?_⟩
    rw [List.filterMap_eq_nil_iff.mpr h]

theorem unhindered_of_publishesEach (h : PublishesEach snapshot lookup) :
    Unhindered snapshot lookup := by
  -- let every look-up return
  obtain ⟨first, hfirst⟩ : ∃ f, (fetchChats.observe (Board.initial []) snapshot).forks = [f] := by
    unfold Observer.observe
    split <;> exact ⟨_, rfl⟩
  obtain ⟨events, b, run, hsettled⟩ := Observer.exists_settled
    (fun item : String × Tree => lookup item.1) first.group.waiting hfirst rfl
  obtain ⟨published, hpublished, -, hperm⟩ := h [] events b run hsettled
  obtain ⟨f, hforks, hsnapshot, hsound, -⟩ := Observer.single_run run
  have hf : f.Settled := hsettled f (by rw [hforks]; simp)
  have hone : f.published = [published] := by simpa [hforks] using hpublished
  by_cases hdictionary : (Tree.asDictionary snapshot).isSome
  · rw [Unhindered, if_pos hdictionary]
    have hreact := react_dictionary hdictionary
    have hstarts : ∀ e ∈ snapshot.keys.map fun key => (key, snapshot.get key),
        fetchChats.start e ≠ none := by
      intro e he hstop
      rw [hsound.published_of_stop (hsnapshot ▸ hreact) he hstop] at hone
      cases hone
    obtain ⟨done, hitems, hanswered, hdone⟩ :=
      hsound.published_of_starts hf (hsnapshot ▸ hreact) hstarts
    have hleaves : ∀ d ∈ done, (fetchChats.completion d.1 d.2).isSome := by
      by_contra hleak
      rw [if_neg hleak, hone] at hdone
      cases hdone
    intro key hkey
    have hsome : (Tree.asDictionary (snapshot.get key)).isSome := by
      have hstart := hstarts (key, snapshot.get key) (List.mem_map_of_mem hkey)
      simpa [fetchChats, Option.isSome_iff_ne_none] using hstart
    obtain ⟨d, hd, rfl⟩ := (mem_done hitems).2 key hkey hsome
    have huser := hleaves d hd
    rw [show d.2 = lookup d.1.1 from hanswered d hd] at huser
    exact ⟨hsome, by simpa [fetchChats] using huser⟩
  · rw [Unhindered, if_neg hdictionary]
    rw [hsound.published_of_answer (hsnapshot ▸ react_other hdictionary)] at hone
    rw [← (List.cons.inj hone).1] at hperm
    exact List.filterMap_eq_nil_iff.mp hperm.nil_eq.symm

/-- **The chats of a snapshot are published, each and once, exactly if no child and no
    partner hinders it.** -/
theorem publishesEach_iff (snapshot : Tree) (lookup : String → Tree) :
    PublishesEach snapshot lookup ↔ Unhindered snapshot lookup :=
  ⟨unhindered_of_publishesEach, publishesEach_of_unhindered⟩

/-- Two conversations with one message each; the record of carol has disappeared. -/
def twoChats : Tree :=
  Tree.ofDictionary [
    ("bobbob", Tree.ofDictionary
      [("-0", Tree.ofDictionary (newMessage "bobbob" "hello" 1 "-0").asDictionary)]),
    ("carol1", Tree.ofDictionary
      [("-1", Tree.ofDictionary (newMessage "carol1" "hello" 2 "-1").asDictionary)])]

def withoutCarol (username : String) : Tree :=
  if username = "bobbob" then record username else .empty

theorem not_always_publishesEach :
    ¬ ∀ (snapshot : Tree) (lookup : String → Tree), PublishesEach snapshot lookup := by
  intro hall
  have hend : (exec fetchChats.step
      (fun b e => decide (Observer.Permitted (fun _ => False) (Answered withoutCarol) b e))
      (fetchChats.observe (Board.initial []) twoChats)
      [.returned 0 0 (record "bobbob"), .returned 0 0 .empty]).map
        (fun b => (decide b.Settled, b.forks.map Fork.published)) = some (true, [[]]) := by
    decide +kernel
  obtain ⟨b, hb, hrest⟩ := Option.map_eq_some_iff.mp hend
  obtain ⟨hsettled, hnothing⟩ := Prod.mk.inj hrest
  have run := run_of_exec (fun b e h => of_decide_eq_true h) hb
  obtain ⟨published, hpublished, -⟩ :=
    hall twoChats withoutCarol [] _ b run (of_decide_eq_true hsettled)
  rw [hnothing] at hpublished
  cases hpublished

end FetchChats

end TeamUp
