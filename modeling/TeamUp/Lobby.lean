import TeamUp.Surroundings

/-!
# The lobby

What everybody plays is a function of the users.  The database keeps it twice, as the current
game of the record and as an entry of the list of the game, and reaches it in several steps:
going online reads the record first, going offline looks for the entry after the current game
is gone.  As long as a user does one after the other, the record and the lists show what the
user has last gone online for, whatever everybody does meanwhile.
-/

namespace TeamUp

open Protocol

/-! ### The abstract lobby -/

/-- What everybody plays. -/
abbrev Lobby (Name Game : Type) := Name → Option Game

inductive Move (Name Game : Type) where
  | join (user : Name) (game : Game)
  | leave (user : Name)

def Move.user {Name Game : Type} : Move Name Game → Name
  | .join user _ => user
  | .leave user => user

def Lobby.apply {Name Game : Type} [DecidableEq Name] (l : Lobby Name Game) :
    Move Name Game → Lobby Name Game
  | .join user game => Function.update l user (some game)
  | .leave user => Function.update l user none

/-! ### The lobby in the database -/

/-- What is stored as the current game. -/
def playing : Option String → Tree
  | some g => Tree.str g
  | none => .empty

/-- The record has the game, and the lists have the user in that of the game only, once. -/
structure Seated (u : String) (db : Tree) (game : Option String) : Prop where
  stored : PathTree.Same (db.sub (currentlyPlayingRef u)) (playing game)
  listed : ∀ g, (∃ k, Listed (onlineRef g) u db k) ↔ game = some g
  once : ∀ g k g' k', Listed (onlineRef g) u db k → Listed (onlineRef g') u db k' → g' = g ∧ k' = k

/-- A callback that has fetched the record of a user with a platform for the game goes online. -/
def Callback.move (snapshot : Tree) : Callback → Option (Move String String)
  | .goOnlineForGame u game _ =>
      if (fetchedUser snapshot).isSome && game.playerPlatform.isSome then some (.join u game.name)
      else none
  | _ => none

def moves (s : State) : Event → List (Move String String)
  | .start client (.goOfflineForGame _) _ => [.leave client.user]
  | .resume index _ => (s.answers[index]?.bind fun a => a.callback.move a.response).toList
  | _ => []

/-- What everybody plays after a run. -/
def lobby (catalogue : List Game) (l : Lobby String String) (s : State) (events : List Event) :
    Lobby String String :=
  (chronicle (app catalogue).step moves s events).1.foldl Lobby.apply l

variable {catalogue : List Game} {u : String} {client : Session} {w : Write} {s t : State}
variable {past : Ref → String → Leaf → Prop}

/-! ### What the record is bound to show -/

/-- The current game of the user, once everything on its way to it has arrived. -/
def Heading (u : String) (s : State) (game : Option String) : Prop :=
  (content (currentlyPlayingRef u)).settled ((presenceOf u).of s) =
    fun q => (playing game).leafAt q

theorem PresenceWrite.replaces (h : PresenceWrite u client w) :
    w.Replaces (currentlyPlayingRef u) := by
  cases h with
  | removal hremoval =>
    cases hremoval with
    | playing => exact Or.inl ⟨.empty, rfl⟩
    | entry g k => exact Or.inr (Write.beside_of_ref (by simp [Incomparable, Write.ref]))
  | enter => exact Or.inr (Write.beside_of_ref (by simp [Incomparable, Write.ref]))
  | play g => exact Or.inl ⟨Tree.str g, rfl⟩

theorem content_target_entry {g k : String} (hw : w.ref = onlineRef g ++ [k]) :
    (content (currentlyPlayingRef u)).target w = none :=
  content_target_beside (Write.beside_of_ref (by simp [Incomparable, hw]))

theorem target_of_removal (h : Removal u client w) {x : Ref → Option Leaf}
    (hx : x ∈ (content (currentlyPlayingRef u)).target w) :
    x = fun q => (playing none).leafAt q := by
  cases h with
  | playing =>
    have htarget : (content (currentlyPlayingRef u)).target
        (.removeValue (currentlyPlayingRef u)) = some fun q => (playing none).leafAt q :=
      content_target_put rfl
    rw [htarget] at hx
    exact (Option.some.inj hx).symm
  | entry g k =>
    rw [content_target_entry rfl] at hx
    cases hx

/-- The writes of a user's part never disagree on the current game. -/
theorem Phase.undisputed (h : Phase u s) : (content (currentlyPlayingRef u)).Agrees s := by
  intro e he e' he' hne x hx y hy
  cases h with
  | leaving h => rw [target_of_removal (h.issued.writes e he) hx,
      target_of_removal (h.issued.writes e' he') hy]
  | playing hrest =>
    rw [hrest.1] at he
    cases he
  | asking _ _ hout | answered _ _ hout =>
    rw [hout] at he
    cases he
  | arriving hout =>
    simp only [hout, List.mem_cons, List.not_mem_nil, or_false] at he he'
    rcases he with rfl | rfl <;> rcases he' with rfl | rfl <;> exact (hne rfl).elim
  | arrived hout =>
    rw [hout, List.mem_singleton] at he he'
    exact (hne (by rw [he, he'])).elim

/-- Only issuing changes what the current game settles at. -/
theorem Phase.settled (h : Phase u s) {e : Event} (horder : InOrder s e)
    (hst : (app catalogue).step s e = some t) :
    (content (currentlyPlayingRef u)).settled t =
      (content (currentlyPlayingRef u)).updateAll ((content (currentlyPlayingRef u)).settled s)
        ((((app catalogue).issues s e).map Prod.snd).getD []) := by
  have hobserved : (app catalogue).Observed (fun _ : Unit => content (currentlyPlayingRef u))
      fun _ => Write.Replaces (currentlyPlayingRef u) :=
    ⟨fun _ => content_follows rfl _, fun _ _ _ _ _ => rfl⟩
  exact hobserved.settled_step (fun _ e he => (h.writes e he).replaces) (fun _ => h.undisputed)
    horder hst ()

/-- What an operation by which a user goes online or offline gives the current game is its
    move. -/
theorem updateAll_begin {op : Op} (hop : op.presence = true) (hclient : client.user = u)
    {id : String} (l : Lobby String String) :
    (content (currentlyPlayingRef u)).updateAll (fun q => (playing (l u)).leafAt q)
        (opWrites client op id) =
      fun q => (playing ((moves s (.start client op id)).foldl Lobby.apply l u)).leafAt q := by
  subst hclient
  cases op with
  | goOnlineForGame game now => rfl
  | goOfflineForGame game =>
    have htarget : (content (currentlyPlayingRef client.user)).target (dropPlaying client.user) =
        some fun q => (playing none).leafAt q := content_target_put rfl
    simp [opWrites, Register.updateAll, Register.update, htarget, moves, Lobby.apply]
  | _ => cases hop

/-- So does a callback. -/
theorem updateAll_resume {request : Query} {callback : Callback} {response : Tree} {id : String}
    (hpresence : callback.presence = true) (hown : OwnCallback client request callback)
    (hclient : client.user = u) (l : Lobby String String) :
    (content (currentlyPlayingRef u)).updateAll (fun q => (playing (l u)).leafAt q)
        ((resume catalogue callback response id).filterMap Command.write?) =
      fun q => (playing ((callback.move response).toList.foldl Lobby.apply l u)).leafAt q := by
  cases callback with
  | goOnlineForGame currentUser game now =>
    obtain ⟨rfl, -⟩ := hown
    subst hclient
    have htarget : (content (currentlyPlayingRef client.user)).target
        (.setValue (currentlyPlayingRef client.user) (Tree.str game.name)) =
          some fun q => (playing (some game.name)).leafAt q := content_target_put rfl
    rw [resume_goOnlineForGame, goOnlineForGameRead_eq]
    cases huser : fetchedUser response <;> cases hplatform : game.playerPlatform <;>
      simp [Callback.move, huser, hplatform, Register.updateAll, Register.update, htarget,
        Command.write?, Lobby.apply]
  | goOfflineForGame game =>
    rw [resume_goOfflineForGame, goOfflineForGameRead_eq, Register.updateAll_of_none]
    · rfl
    · intro w hw
      obtain ⟨k, -, hk⟩ := List.mem_map.mp (mem_writes.mp hw)
      rw [← Command.write.inj hk]
      exact content_target_entry rfl
  | _ => cases hpresence


theorem lobby_others {ms : List (Move String String)} (h : ∀ m ∈ ms, m.user ≠ u)
    (l : Lobby String String) : ms.foldl Lobby.apply l u = l u := by
  induction ms generalizing l with
  | nil => rfl
  | cons m rest ih =>
    rw [List.foldl_cons, ih fun m' hm' => h m' (by simp [hm'])]
    have hne := h m (by simp)
    cases m <;> exact Function.update_of_ne (Ne.symm hne) _ _

/-- A step moves a user by an operation or a callback of the user's part only. -/
theorem user_of_begin {op : Op} {id : String} {m : Move String String}
    (hm : m ∈ moves s (.start client op id)) :
    m.user = client.user ∧ op.presence = true := by
  cases op with
  | goOfflineForGame game =>
    rw [List.mem_singleton.mp hm]
    exact ⟨rfl, rfl⟩
  | _ => cases hm

theorem user_of_callback {request : Query} {callback : Callback} {response : Tree}
    {m : Move String String} (hown : OwnCallback client request callback)
    (hm : m ∈ callback.move response) : m.user = client.user ∧ callback.presence = true := by
  cases callback with
  | goOnlineForGame currentUser game now =>
    simp only [Callback.move] at hm
    split at hm
    · rw [← Option.some.inj hm]
      exact ⟨hown.1, rfl⟩
    · cases hm
  | _ => cases hm

theorem Heading.congr {game : Option String} (h : Heading u s game)
    (hout : ((presenceOf u).of t).outstanding = ((presenceOf u).of s).outstanding)
    (hsame : Unchanged (currentlyPlayingRef u) s.store t.store) : Heading u t game := by
  have hread : (content (currentlyPlayingRef u)).read ((presenceOf u).of t).store =
      (content (currentlyPlayingRef u)).read ((presenceOf u).of s).store := funext hsame
  rw [Heading, Register.settled, hout, hread]
  exact h

/-- **A step heads a user for where it moves the user**, and nowhere if it does not move the
    user. -/
theorem Surrounded.heading (h : Surrounded catalogue past s)
    (hpresent : Present u ((presenceOf u).of s)) {l : Lobby String String}
    (hl : Heading u s (l u)) {e : Event} (horder : InOrder s e)
    (hst : (app catalogue).step s e = some t) :
    Heading u t ((moves s e).foldl Lobby.apply l u) := by
  cases e with
  | start client op id =>
    have hdecides : (presenceOf u).Decides (decide (client.user = u) && op.presence) client
        (begin client op id) := decides_of_presence presence_begin u
    cases hpart : decide (client.user = u) && op.presence with
    | true =>
      obtain ⟨hclient, hop⟩ := Bool.and_eq_true_iff.mp hpart
      rw [hpart] at hdecides
      have hstep := Slice.start (S := presenceOf u) (P := app catalogue) hdecides hst
      have hsettled := hpresent.phase.settled (e := .start client op id) trivial hstep
      rw [Heading, hsettled, hl]
      have hwrites : (begin client op id).filterMap Command.write? = opWrites client op id :=
        writes_begin client op id
      simp only [issues, app_begin, hwrites, Option.map_some, Option.getD_some]
      exact updateAll_begin hop (of_decide_eq_true hclient) l
    | false =>
      rw [hpart] at hdecides
      obtain ⟨-, -, rfl⟩ := step_start _ hst
      rw [lobby_others]
      · refine hl.congr ?_ fun _ => rfl
        rw [app_begin, Slice.of_issue_beside hdecides]
      · rintro m hm rfl
        obtain ⟨huser, hop⟩ := user_of_begin hm
        simp [← huser, hop] at hpart
  | deliver index =>
    rcases Slice.deliver (S := presenceOf u) horder hst with ⟨i, horder', hstep⟩ |
        ⟨e, he, hother, ht⟩
    · have hsettled := hpresent.phase.settled horder' hstep
      rw [Heading, hsettled]
      exact hl
    · have hstore : t.store = e.write.apply s.store := congrArg Config.store ht
      refine hl.congr (by rw [ht]) ?_
      rw [hstore]
      exact (h.leaves he hother).playing
  | serve index response =>
    obtain ⟨before, c, after, -, -, -, rfl⟩ := step_serve _ hst
    exact hl
  | resume index id =>
    obtain ⟨a, ha, hget, ⟨hpart, i, hget', hstep⟩ | ⟨hpart, hstore, ht⟩⟩ :=
      Slice.resume (S := presenceOf u) (P := app catalogue)
        (fun a _ => decides_of_presence presence_resume u) hst
    · obtain ⟨hclient, hpresence⟩ : a.client.user = u ∧ a.callback.presence = true := by
        simpa [presenceOf] using hpart
      have hsettled := hpresent.phase.settled (e := .resume i id) trivial hstep
      rw [Heading, hsettled, hl]
      simp only [issues, hget', hget, Option.map_some, Option.getD_some, moves, Option.bind_some]
      exact updateAll_resume hpresence (h.issued.answers a ha).2 hclient l
    · rw [lobby_others]
      · refine hl.congr (by rw [ht]) ?_
        rw [hstore]
        exact fun _ => rfl
      · rintro m hm rfl
        simp only [moves, hget, Option.bind_some, Option.mem_toList] at hm
        obtain ⟨huser, hpresence⟩ := user_of_callback (h.issued.answers a ha).2 hm
        simp [presenceOf, ← huser, hpresence] at hpart
  | observe client =>
    obtain rfl := step_observe _ hst
    exact hl

/-! ### The database refines the lobby -/

variable {db : Tree} {ids : List String} {events : List Event} {game : Option String}

theorem Seated.playing_leafAt (h : Seated u db game) :
    db.leafAt (currentlyPlayingRef u) = game.map .str := by
  have hleaf := h.stored.leafAt []
  rw [PathTree.leafAt_sub, List.append_nil] at hleaf
  rw [hleaf]
  cases game <;> rfl

theorem Seated.playing_has (h : Seated u db game) :
    db.has (currentlyPlayingRef u) = game.isSome := by
  have hhas := h.stored.has []
  rw [PathTree.has_sub, List.append_nil] at hhas
  rw [hhas]
  cases game <;> rfl

theorem Seated.agrees (h : Seated u db game) : PlayingAgrees u db := by
  constructor
  · intro g hg
    have hgame : game = some g := by
      rw [h.playing_leafAt] at hg
      cases game with
      | none => cases hg
      | some g' => exact congrArg some (Leaf.str.inj (Option.some.inj hg))
    obtain ⟨k, hlisted⟩ := (h.listed g).mpr hgame
    exact ⟨k, hlisted, fun g' k' hlisted' => h.once g k g' k' hlisted hlisted'⟩
  · intro habsent g k hlisted
    rw [h.playing_has, (h.listed g).mp ⟨k, hlisted⟩] at habsent
    cases habsent

/-- A record and lists that agree seat the user at what the record has. -/
theorem seated_of_agrees (h : PlayingAgrees u db)
    (hstored : PathTree.Same (db.sub (currentlyPlayingRef u)) (playing game)) :
    Seated u db game := by
  cases game with
  | none =>
    have habsent : db.has (currentlyPlayingRef u) = false := by
      have hhas := hstored.has []
      rwa [PathTree.has_sub, List.append_nil] at hhas
    have hnone := h.2 habsent
    refine ⟨hstored, fun g => ⟨?_, fun hg => nomatch hg⟩, fun g k g' k' hlisted => ?_⟩
    · rintro ⟨k, hlisted⟩
      exact (hnone g k hlisted).elim
    · exact (hnone g k hlisted).elim
  | some g =>
    have hleaf : db.leafAt (currentlyPlayingRef u) = some (.str g) := by
      have hleaf := hstored.leafAt []
      rwa [PathTree.leafAt_sub, List.append_nil] at hleaf
    obtain ⟨k, hlisted, honly⟩ := h.1 g hleaf
    refine ⟨hstored, fun g' => ⟨?_, ?_⟩, fun g' k' g'' k'' h' h'' => ?_⟩
    · rintro ⟨k', hlisted'⟩
      rw [(honly g' k' hlisted').1]
    · intro hg
      obtain rfl := Option.some.inj hg
      exact ⟨k, hlisted⟩
    · obtain ⟨rfl, rfl⟩ := honly g' k' h'
      exact honly g'' k'' h''

theorem named_of_run {ok : State → Event → Prop} (hnames : Named db)
    (run : (app catalogue).Run ok (State.initial db ids) events t) : Named t.store := by
  intro v name hname
  rcases (values_attributed run).stored (userRef v ++ ["username"], name) hname with
    hold | ⟨c, op, id, -, hputs⟩
  · exact hnames v name hold
  · exact (not_puts_username hputs).elim

/-- How a run that has come to a state follows the lobby for a user. -/
structure Tracks (catalogue : List Game) (db : Tree) (ids : List String) (u : String) (s : State)
    (l : Lobby String String) : Prop where
  reached : ∃ done, (app catalogue).Run (fun _ _ => True) (State.initial db ids) done s
  surrounded : Surrounded catalogue (fun _ _ _ => False) s
  present : Present u ((presenceOf u).of s)
  heading : Heading u s (l u)

theorem Tracks.step {l : Lobby String String} (h : Tracks catalogue db ids u s l)
    (hcatalogue : ∀ game ∈ catalogue, game.name ≠ "online") (hnames : Named db) {e : Event}
    (horder : InOrder s e) (hcareful : Careful u s e)
    (hst : (app catalogue).step s e = some t) :
    Tracks catalogue db ids u t ((moves s e).foldl Lobby.apply l) := by
  obtain ⟨done, run⟩ := h.reached
  have hnext := run.snoc trivial hst
  have hfetched := fun client name user => fetched_named hnames run client name user
  exact ⟨⟨done ++ [e], hnext⟩, h.surrounded.step hcatalogue hfetched hst,
    h.surrounded.present h.present hfetched (named_of_run hnames hnext) horder hcareful hst,
    h.surrounded.heading h.present h.heading horder hst⟩

/-- With nothing on its way the user is where the lobby has the user. -/
theorem Tracks.seated {l : Lobby String String} (h : Tracks catalogue db ids u s l)
    (hrest : ((presenceOf u).of s).Quiescent) : Seated u s.store (l u) := by
  refine seated_of_agrees (h.present.phase.agrees hrest) (PathTree.same_of_leafAt fun q => ?_)
  have hheading := h.heading
  rw [Heading, Register.settled_of_none_outstanding _ hrest.1] at hheading
  rw [PathTree.leafAt_sub]
  exact congrFun hheading q

theorem Tracks.initial {l : Lobby String String}
    (hids : ∀ list k, db.has (list ++ [k]) = true → k ∈ ids) (hnames : Named db)
    (hkeys : ∀ g k, Listed (onlineRef g) u db k → Tree.integerKey k = none)
    (hl : Seated u db (l u)) : Tracks catalogue db ids u (State.initial db ids) l := by
  have horderly : Orderly u db := by
    refine ⟨fun name hname => Leaf.str.inj (hnames u _ hname), fun hhas => ?_, hkeys⟩
    rw [hl.playing_has] at hhas
    obtain ⟨g, hg⟩ := Option.isSome_iff_exists.mp hhas
    exact ⟨g, by rw [hl.playing_leafAt, hg]; rfl⟩
  refine ⟨⟨[], .nil⟩, .initial hids, .initial horderly hl.agrees ids, ?_⟩
  funext q
  have hleaf := hl.stored.leafAt q
  rwa [PathTree.leafAt_sub] at hleaf

/-- **The database refines the lobby.**  As long as a user goes online and offline one after the
    other, the record and the lists show what the user plays in the lobby as soon as nothing is
    on its way by which the user goes online or offline, whatever else the user and all others
    do meanwhile. -/
theorem lobby_refined (hcatalogue : ∀ game ∈ catalogue, game.name ≠ "online")
    (hids : ∀ list k, db.has (list ++ [k]) = true → k ∈ ids) (hnames : Named db)
    (hkeys : ∀ g k, Listed (onlineRef g) u db k → Tree.integerKey k = none)
    {l : Lobby String String} (hl : Seated u db (l u))
    (run : (app catalogue).Run (fun s e => InOrder s e ∧ Careful u s e) (State.initial db ids)
      events t)
    (hrest : ((presenceOf u).of t).Quiescent) :
    Seated u t.store (lobby catalogue l (State.initial db ids) events u) := by
  have hend : Tracks catalogue db ids u t (lobby catalogue l (State.initial db ids) events) :=
    run.simulation Lobby.apply (Tracks catalogue db ids u)
      (fun s e v x h hok hst => h.step hcatalogue hnames hok.1 hok.2 hst)
      (.initial hids hnames hkeys hl)
  exact hend.seated hrest

/-- Alice edits her biography while she goes online, and bob leaves her. -/
def playsAmongOthers : List Event :=
  [.start ⟨"alice1", 1⟩ (.goOnlineForGame chess 5) "-1",
    .start ⟨"alice1", 1⟩ (.updateBio "hello") "-2",
    .start ⟨"bobbob", 1⟩ (.removeTeammate (somebody "alice1")) "-3",
    .serve 0 ((chessPlayer.sub (userRef "alice1")).put ["biography"] (Tree.str "hello")),
    .resume 0 "-4", .deliver 0, .deliver 4, .deliver 4]

theorem seated_chessPlayer : Seated "alice1" chessPlayer none :=
  seated_of_agrees orderly_chessPlayer.2 (by decide +kernel)

/-- The game is stored and listed while much else is still on its way. -/
theorem lobby_refined_playsAmongOthers :
    ∃ t, (app [chess]).exec (fun s e => decide (InOrder s e ∧ Careful "alice1" s e))
        (State.initial chessPlayer (usedKeys chessPlayer)) playsAmongOthers = some t ∧
      t.outstanding.length = 4 ∧ t.calls.length = 1 ∧ Seated "alice1" t.store (some "chess") := by
  have hend : ((app [chess]).exec (fun s e => decide (InOrder s e ∧ Careful "alice1" s e))
      (State.initial chessPlayer (usedKeys chessPlayer)) playsAmongOthers).map (fun t =>
        (decide ((presenceOf "alice1").of t).Quiescent, t.outstanding.length, t.calls.length)) =
      some (true, 4, 1) := by
    decide +kernel
  have hlobby : lobby [chess] (fun _ => none)
      (State.initial chessPlayer (usedKeys chessPlayer)) playsAmongOthers "alice1" =
        some "chess" := by
    decide +kernel
  obtain ⟨t, ht, hend⟩ := Option.map_eq_some_iff.mp hend
  simp only [Prod.mk.injEq, decide_eq_true_eq] at hend
  obtain ⟨hrest, hout, hcalls⟩ := hend
  have run := run_of_exec (fun s e h => of_decide_eq_true h) ht
  have hseated := lobby_refined (by decide) (mem_usedKeys chessPlayer)
    (names_of_leaves (by decide +kernel)) orderly_chessPlayer.1.keys
    (l := fun _ => none) seated_chessPlayer run hrest
  rw [hlobby] at hseated
  exact ⟨t, ht, hout, hcalls, hseated⟩

end TeamUp
