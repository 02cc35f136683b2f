import TeamUp.Community
import TeamUp.Mirrors

/-!
# The community on the screens

The screens of a session show its mirrors, and the observers behind them read what the device
sees of the database: a snapshot when they are told of a change, and a record when a look-up is
answered, which may be much later.  Once every write has arrived, every look-up has been
answered and every observer was told how things are, the screens show the teammates, the
requests and the partners of the conversations that the user has in the community.
-/

namespace TeamUp

open Protocol

/-- A device over the database. -/
structure Handset where
  config : State
  mirrors : Mirrors

inductive HandsetEvent where
  /-- Something happens over the database, on this device or another. -/
  | app (e : Event)
  /-- An observer is told of a change, or goes on with its look-ups. -/
  | mirror (e : MirrorEvent)

namespace HandsetEvent

def app? : HandsetEvent → Option Event
  | .app e => some e
  | .mirror _ => none

def mirror? : HandsetEvent → Option MirrorEvent
  | .app _ => none
  | .mirror e => some e

end HandsetEvent

/-- The observers and their look-ups are told what is stored under their references. -/
def MirrorEvent.Tells (user : String) (view : Tree) (m : Mirrors) : MirrorEvent → Prop
  | .chats e =>
      Observer.Permitted (fun x => (Query.value (directChatsRef user)).answers view x = true)
        (fun item r => (Query.value (userRef item.1)).answers view r = true) m.chats e
  | .teammates e =>
      Observer.Permitted (fun x => (Query.value (teammatesRef user)).answers view x = true)
        (fun name r => (Query.value (userRef name)).answers view r = true) m.teammates e
  | .teammateRequests e =>
      Observer.Permitted (fun x => (Query.value (teammateRequestsRef user)).answers view x = true)
        (fun name r => (Query.value (userRef name)).answers view r = true) m.teammateRequests e
  | .currentGame (.observed x) => (Query.value (currentlyPlayingRef user)).answers view x = true
  | .currentGame (.returned _ r) => (Query.value ["games"]).answers view r = true

instance (user : String) (view : Tree) (m : Mirrors) (e : MirrorEvent) :
    Decidable (e.Tells user view m) := by
  rcases e with _ | _ | _ | _ | _ <;> dsimp only [MirrorEvent.Tells] <;> infer_instance

namespace Handset

/-- Over a database at rest, with empty mirrors. -/
def initial (db : Tree) (ids : List String) : Handset where
  config := .initial db ids
  mirrors := .initial [] [] [] [] none

def step (catalogue : List Game) (client : Session) (s : Handset) :
    HandsetEvent → Option Handset
  | .app e => ((app catalogue).step s.config e).map fun config => { s with config }
  | .mirror e =>
      if e.Tells client.user ((app catalogue).view s.config client) s.mirrors then
        (s.mirrors.step e).map fun mirrors => { s with mirrors }
      else none

/-- The writes of a session arrive in order and no two sessions disagree about what is under
    way; what the observers read exists, and they publish in turn. -/
def Orderly (catalogue : List Game) (s : Handset) : HandsetEvent → Prop
  | .app e => InOrder s.config e ∧ (app catalogue).Undisputed Fact.stored s.config e
  | .mirror e => s.mirrors.Permitted e ∧ s.mirrors.InTurn e

/-- All reads have returned, and the last snapshot is what is stored. -/
def UpToDate {Item Entry Value : Type} (ref : Ref) (db : Tree) (b : Board Tree Item Entry Value) :
    Prop :=
  b.Settled ∧ ∃ f ∈ b.forks.getLast?, (Query.value ref).answers db f.snapshot = true

/-- Every write has arrived, and the observers are up to date. -/
structure AtRest (user : String) (s : Handset) : Prop where
  arrived : s.config.outstanding = []
  chats : UpToDate (directChatsRef user) s.config.store s.mirrors.chats
  teammates : UpToDate (teammatesRef user) s.config.store s.mirrors.teammates
  teammateRequests :
    UpToDate (teammateRequestsRef user) s.config.store s.mirrors.teammateRequests

end Handset

/-- The list has each of the names once, and no others. -/
def Lists (names : List String) (shown : Set String) : Prop :=
  names.Nodup ∧ ∀ name, name ∈ names ↔ name ∈ shown

/-- The mirrors show what the user has in the community. -/
structure Mirrors.Show (m : Mirrors) (user : String) (c : Community String String) : Prop where
  teammates : Lists (userNames m.teammates.mirror) {name | s(user, name) ∈ c.teammates}
  teammateRequests :
    Lists (userNames m.teammateRequests.mirror) {name | (user, name) ∈ c.requests}
  chats : Lists (chatNames m.chats.mirror) {name | ∃ k, (user, name, k) ∈ c.messages}

variable {catalogue : List Game} {client : Session} {db : Tree} {ids : List String}
variable {c : Community String String}

/-! ### The mirrors of a run -/

namespace Mirrors

variable {m m' : Mirrors} {events : List MirrorEvent}

theorem run_chats (run : Run step (fun m e => m.Permitted e ∧ m.InTurn e) m events m') :
    Run fetchChats.step (fun b e => Observer.Permitted ChatsDecode (fun item => Found item.1) b e ∧
      Observer.InTurn b e) m.chats (events.filterMap MirrorEvent.chats?) m'.chats := by
  refine run.project Mirrors.chats MirrorEvent.chats? (fun u e v hst => (step_others hst).1) ?_
  intro u e v e' hok hst he
  cases e with
  | chats e =>
    obtain rfl := Option.some.inj he
    obtain ⟨b, hb, rfl⟩ := Option.map_eq_some_iff.mp hst
    exact ⟨hok, hb⟩
  | teammates e | teammateRequests e | currentGame e => cases he

theorem run_teammates (run : Run step (fun m e => m.Permitted e ∧ m.InTurn e) m events m') :
    Run fetchTeammates.step (fun b e => Observer.Permitted Keyed Found b e ∧ Observer.InTurn b e)
      m.teammates (events.filterMap MirrorEvent.teammates?) m'.teammates := by
  refine run.project Mirrors.teammates MirrorEvent.teammates?
    (fun u e v hst => (step_others hst).2.1) ?_
  intro u e v e' hok hst he
  cases e with
  | teammates e =>
    obtain rfl := Option.some.inj he
    obtain ⟨b, hb, rfl⟩ := Option.map_eq_some_iff.mp hst
    exact ⟨hok, hb⟩
  | chats e | teammateRequests e | currentGame e => cases he

theorem run_teammateRequests
    (run : Run step (fun m e => m.Permitted e ∧ m.InTurn e) m events m') :
    Run fetchTeammateRequests.step
      (fun b e => Observer.Permitted Keyed Found b e ∧ Observer.InTurn b e)
      m.teammateRequests (events.filterMap MirrorEvent.teammateRequests?) m'.teammateRequests := by
  refine run.project Mirrors.teammateRequests MirrorEvent.teammateRequests?
    (fun u e v hst => (step_others hst).2.2.1) ?_
  intro u e v e' hok hst he
  cases e with
  | teammateRequests e =>
    obtain rfl := Option.some.inj he
    obtain ⟨b, hb, rfl⟩ := Option.map_eq_some_iff.mp hst
    exact ⟨hok, hb⟩
  | chats e | teammates e | currentGame e => cases he

/-- A mirror that is up to date lists the names that are stored under its reference. -/
theorem BoardAgrees.lists {Item Entry Value : Type} {names : Value → List String}
    {b : Board Tree Item Entry Value} {ref : Ref} {shown : Set String}
    (h : BoardAgrees names b) (hcurrent : Handset.UpToDate ref db b)
    (hshown : ∀ name, db.has (ref ++ [name]) = true ↔ name ∈ shown) :
    Lists (names b.mirror) shown := by
  obtain ⟨hsettled, f, hf, hanswers⟩ := hcurrent
  have hperm := h hsettled f hf
  refine ⟨hperm.nodup_iff.mpr (List.nodup_dedup _), fun name => ?_⟩
  rw [hperm.mem_iff, ← hshown, (of_decide_eq_true hanswers).mem_keys, PathTree.mem_keys,
    Query.snapshot, PathTree.has_sub]

/-- A chat that decodes has a message. -/
theorem has_message_of_decodes {snapshot : Tree} {user name : String}
    (hsnapshot : ChatsDecode snapshot)
    (hanswers : (Query.value (directChatsRef user)).answers db snapshot = true)
    (hhas : db.has (directChatsRef user ++ [name]) = true) :
    ∃ k, db.has (directChatRef user name ++ [k]) = true := by
  have hsame := of_decide_eq_true hanswers
  have hkey : name ∈ snapshot.keys := by
    rw [hsame.mem_keys, PathTree.mem_keys, Query.snapshot, PathTree.has_sub]
    exact hhas
  obtain ⟨chat, hchat, hmessages⟩ := hsnapshot.2 name hkey
  obtain rfl := Tree.asDictionary_eq_some hchat
  obtain ⟨m, hm⟩ := List.exists_mem_of_ne_nil _ hmessages
  obtain ⟨k, hk, -⟩ := List.mem_filterMap.mp hm
  refine ⟨k, ?_⟩
  have hchild : (snapshot.sub [name]).has [k] = true := PathTree.mem_keys.mp hk
  rw [PathTree.has_sub, hsame.has, Query.snapshot, PathTree.has_sub] at hchild
  exact hchild

end Mirrors

namespace Handset

variable {events : List HandsetEvent} {s t : Handset}

/-- What happens over the database in a run. -/
def appEvents (events : List HandsetEvent) : List Event := events.filterMap HandsetEvent.app?

theorem run_app {ok : Handset → HandsetEvent → Prop} {ok' : State → Event → Prop}
    (hok : ∀ s e, ok s (.app e) → ok' s.config e)
    (run : Run (step catalogue client) ok s events t) :
    (app catalogue).Run ok' s.config (appEvents events) t.config := by
  refine run.project Handset.config HandsetEvent.app? ?_ ?_
  · intro u e v hst he
    cases e with
    | app e => cases he
    | mirror e =>
      simp only [step] at hst
      split at hst
      · obtain ⟨mirrors, -, rfl⟩ := Option.map_eq_some_iff.mp hst
        rfl
      · cases hst
  · intro u e v e' he hst he'
    cases e with
    | app e =>
      obtain rfl := Option.some.inj he'
      obtain ⟨config, hconfig, rfl⟩ := Option.map_eq_some_iff.mp hst
      exact ⟨hok u e he, hconfig⟩
    | mirror e => cases he'

theorem run_mirrors (run : Run (step catalogue client) (Orderly catalogue) s events t) :
    Run Mirrors.step (fun m e => m.Permitted e ∧ m.InTurn e) s.mirrors
      (events.filterMap HandsetEvent.mirror?) t.mirrors := by
  refine run.project Handset.mirrors HandsetEvent.mirror? ?_ ?_
  · intro u e v hst he
    cases e with
    | app e =>
      obtain ⟨config, -, rfl⟩ := Option.map_eq_some_iff.mp hst
      rfl
    | mirror e => cases he
  · intro u e v e' hok hst he
    cases e with
    | app e => cases he
    | mirror e =>
      obtain rfl := Option.some.inj he
      simp only [step] at hst
      split at hst
      · obtain ⟨mirrors, hmirrors, rfl⟩ := Option.map_eq_some_iff.mp hst
        exact ⟨hok, hmirrors⟩
      · cases hst

/-- Once every write has arrived, the database holds what the deeds of the run have made. -/
theorem holding_of_run (hdb : Holding db c)
    (run : Run (step catalogue client) (Orderly catalogue) (initial db ids) events t)
    (harrived : t.config.outstanding = []) :
    Holding t.config.store (community catalogue c (State.initial db ids) (appEvents events)) :=
  (settled_of_run hdb (run_app (fun _ _ hok => hok) run)).holding harrived

/-- The chats are those with the users of whom a message is kept. -/
theorem chats_listed (hdb : Holding db c)
    (run : Run (step catalogue client) (Orderly catalogue) (initial db ids) events t)
    (hrest : t.AtRest client.user) :
    Lists (Mirrors.chatNames t.mirrors.chats.mirror) {name | ∃ k, (client.user, name, k) ∈
      (community catalogue c (State.initial db ids) (appEvents events)).messages} := by
  have hstored := holding_of_run hdb run hrest.arrived
  have hchats := Mirrors.run_chats (run_mirrors run)
  refine (Mirrors.fetchChats_agrees hchats).lists hrest.chats fun name => ?_
  constructor
  · intro hhas
    obtain ⟨-, f, hf, hanswers⟩ := hrest.chats
    have hsound := Observer.allSound_run (hchats.mono fun _ _ hok => hok.1)
    have hdecode := (hsound f (List.mem_of_getLast? hf)).1
    obtain ⟨k, hk⟩ := Mirrors.has_message_of_decodes hdecode hanswers hhas
    exact ⟨k, (hstored (.message client.user name k)).mpr hk⟩
  · rintro ⟨k, hk⟩
    have hmessage := (hstored (.message client.user name k)).mp hk
    exact PathTree.has_of_append (p := directChatRef client.user name) hmessage

/-- **The screens show the community.**  Once every write has arrived and the observers are up
    to date, the teammates, the requests and the chats of a session are those the user has in
    the community that the deeds of the run have made, each listed once. -/
theorem community_shown (hdb : Holding db c)
    (run : Run (step catalogue client) (Orderly catalogue) (initial db ids) events t)
    (hrest : t.AtRest client.user) :
    t.mirrors.Show client.user
      (community catalogue c (State.initial db ids) (appEvents events)) := by
  have hstored := holding_of_run hdb run hrest.arrived
  have hmirrors := run_mirrors run
  constructor
  · have hagrees := Mirrors.fetchUsers_agrees Mirrors.sortTeammates_names
      (Mirrors.run_teammates hmirrors)
    exact hagrees.lists hrest.teammates fun name => (hstored (.teammate client.user name)).symm
  · have hagrees := Mirrors.fetchUsers_agrees (fun _ => List.Perm.refl _)
      (Mirrors.run_teammateRequests hmirrors)
    exact hagrees.lists hrest.teammateRequests fun name =>
      (hstored (.request client.user name)).symm
  · exact chats_listed hdb run hrest

/-! ### A run -/

/-- Alice has asked bob. -/
def askedBob : Tree := (profiles aliceAndBob).put (teammateRequestsRef "bobbob" ++ ["alice1"])
  (Tree.int 1)

theorem symmetric_of_no_teammates (h : ∀ e ∈ db.leaves, e.1[2]? ≠ some "teammates") :
    Symmetric db := by
  have hnone : ∀ a b, db.has (teammatesRef a ++ [b]) = false := by
    intro a b
    by_contra hhas
    obtain ⟨q, v, hmem⟩ := PathTree.has_iff.mp (eq_true_of_ne_false hhas)
    exact h _ hmem (by simp)
  exact fun a b => (hnone a b).trans (hnone b a).symm

/-- Bob has accepted, and alice has written to him. -/
def wroteBob : Tree :=
  (opWrites ⟨"bobbob", 1⟩ (.acceptTeammateRequest (somebody "alice1")) "-1" ++
    opWrites ⟨"alice1", 1⟩ (.sendDirectMessage "hi" (somebody "bobbob") 5) "-2").foldl
      (fun db w => w.apply db) askedBob

/-- Bob's device is told of the request, and of what has come of it once he has accepted it and
    alice has written to him. -/
def acceptsAndReads : List HandsetEvent :=
  [.mirror (.teammates (.observed .empty)), .mirror (.chats (.observed .empty)),
    .mirror (.teammateRequests (.observed (teammatesSnapshot ["alice1"]))),
    .mirror (.teammateRequests (.returned 0 0 (askedBob.sub (userRef "alice1")))),
    .mirror (.teammateRequests (.joined 0)),
    .app (.start ⟨"bobbob", 1⟩ (.acceptTeammateRequest (somebody "alice1")) "-1"),
    .app (.start ⟨"alice1", 1⟩ (.sendDirectMessage "hi" (somebody "bobbob") 5) "-2"),
    .mirror (.teammates (.observed (teammatesSnapshot ["alice1"]))),
    .app (.deliver 4), .app (.deliver 0), .app (.deliver 0), .app (.deliver 0), .app (.deliver 1),
    .app (.deliver 0), .mirror (.chats (.observed (wroteBob.sub (directChatsRef "bobbob")))),
    .mirror (.teammateRequests (.observed .empty)),
    .mirror (.chats (.returned 1 0 (wroteBob.sub (userRef "alice1")))),
    .mirror (.chats (.joined 1)),
    .mirror (.teammates (.returned 1 0 (wroteBob.sub (userRef "alice1")))),
    .mirror (.teammates (.joined 1))]

/-- What is needed of a step, with what can be checked. -/
def Apart (s : Handset) : HandsetEvent → Prop
  | .app e => Separate [] s.config e
  | .mirror e => s.mirrors.Permitted e ∧ s.mirrors.InTurn e

instance (s : Handset) (e : HandsetEvent) : Decidable (s.Apart e) := by
  rcases e with _ | _ <;> dsimp only [Apart] <;> infer_instance

theorem orderly_of_apart {s : Handset} {e : HandsetEvent} (h : s.Apart e) : Orderly [] s e := by
  cases e with
  | app e => exact ⟨h.1, undisputed_of_issuedApart h.2⟩
  | mirror e => exact h

instance {Item Entry Value : Type} [DecidableEq Item] (ref : Ref) (db : Tree)
    (b : Board Tree Item Entry Value) : Decidable (UpToDate ref db b) :=
  inferInstanceAs (Decidable (_ ∧ _))

theorem run_acceptsAndReads :
    ∃ t, exec (step [] ⟨"bobbob", 1⟩) (fun s e => decide (s.Apart e)) (initial askedBob [])
        acceptsAndReads = some t ∧
      Run (step [] ⟨"bobbob", 1⟩) (Orderly []) (initial askedBob []) acceptsAndReads t ∧
      t.AtRest "bobbob" := by
  have hend : (exec (step [] ⟨"bobbob", 1⟩) (fun s e => decide (s.Apart e)) (initial askedBob [])
      acceptsAndReads).map (fun t => (t.config.outstanding,
        decide (UpToDate (directChatsRef "bobbob") t.config.store t.mirrors.chats ∧
          UpToDate (teammatesRef "bobbob") t.config.store t.mirrors.teammates ∧
          UpToDate (teammateRequestsRef "bobbob") t.config.store t.mirrors.teammateRequests))) =
      some ([], true) := by
    decide +kernel
  obtain ⟨t, ht, hrest⟩ := Option.map_eq_some_iff.mp hend
  obtain ⟨hout, hcurrent⟩ := Prod.mk.inj hrest
  obtain ⟨hchats, hteammates, hrequests⟩ := of_decide_eq_true hcurrent
  have run := run_of_exec (fun s e h => orderly_of_apart (of_decide_eq_true h)) ht
  exact ⟨t, ht, run, hout, hchats, hteammates, hrequests⟩

theorem exists_holding_askedBob : ∃ c, Holding askedBob c :=
  exists_holding (symmetric_of_no_teammates (by decide +kernel))

theorem community_shown_acceptsAndReads :
    ∃ c t, exec (step [] ⟨"bobbob", 1⟩) (fun s e => decide (s.Apart e)) (initial askedBob [])
        acceptsAndReads = some t ∧ Holding askedBob c ∧
      t.mirrors.Show "bobbob"
        (community [] c (State.initial askedBob []) (appEvents acceptsAndReads)) := by
  obtain ⟨c, hc⟩ := exists_holding_askedBob
  obtain ⟨t, ht, run, hrest⟩ := run_acceptsAndReads
  exact ⟨c, t, ht, hc, community_shown hc run hrest⟩

end Handset

end TeamUp
