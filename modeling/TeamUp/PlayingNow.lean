import TeamUp.Entries
import TeamUp.Interleaving

/-!
# Playing now

That a user plays a game is stored twice: as `currentlyPlaying` in the record, and as an
entry of `lfg/online`.  Going online pushes a new entry without looking for an old one,
and going offline removes the first entry of the game the screen shows.  The two agree
as long as a session only goes online while nothing is under way and nothing is stored,
and only goes offline for the stored game while nobody goes online.
-/

namespace TeamUp

open Protocol

/-- The user has an entry under this key in the list of this game, and no other entry in
    the list of any game. -/
structure OneEntry (u : String) (db : Tree) (g k : String) : Prop where
  listed : Listed (onlineRef g) u db k
  only : ∀ g' k', Listed (onlineRef g') u db k' → g' = g ∧ k' = k

def NoEntry (u : String) (db : Tree) : Prop := ∀ g k, ¬ Listed (onlineRef g) u db k

/-- The record and the lists agree on what the user plays. -/
def PlayingAgrees (u : String) (db : Tree) : Prop :=
  (∀ g, db.leafAt (currentlyPlayingRef u) = some (.str g) → ∃ k, OneEntry u db g k) ∧
    (db.has (currentlyPlayingRef u) = false → NoEntry u db)

/-- The record is that of the user, who plays a game that has a name, and the entries of
    the user have generated keys. -/
structure Orderly (u : String) (db : Tree) : Prop where
  username : ∀ name, db.leafAt (userRef u ++ ["username"]) = some (.str name) → name = u
  playing : db.has (currentlyPlayingRef u) = true →
    ∃ g, db.leafAt (currentlyPlayingRef u) = some (.str g)
  keys : ∀ g k, Listed (onlineRef g) u db k → Tree.integerKey k = none

/-! ### The operations -/

/-- The user's sessions go online and offline, and nothing else is started. -/
def presenceOps (u : String) : Event → Bool
  | .start client (.goOnlineForGame _ _) _ => decide (client.user = u)
  | .start client (.goOfflineForGame _) _ => decide (client.user = u)
  | .start _ _ _ => false
  | _ => true

/-- The game the screen of a session shows, `userCurrentlyPlayedGame`. -/
def State.currentGame (catalogue : List Game) (s : State) (client : Session) : Option Game :=
  ((s.seen.filter fun view => view.1 = client).getLast?).bind fun view =>
    (Tree.asString (view.2.sub (currentlyPlayingRef client.user))).bind (getGame catalogue)

/-- A session goes online for one of the user's games while the screen shows none, and
    offline for the game the screen shows. -/
def asShown (catalogue : List Game) (s : State) : Event → Bool
  | .start client (.goOnlineForGame game _) _ =>
      decide (s.currentGame catalogue client = none) &&
        decide (game ∈ fetchedGames (s.store.sub (userRef client.user ++ ["games"])))
  | .start client (.goOfflineForGame game) _ =>
      decide (s.currentGame catalogue client = some game)
  | _ => true

def Callback.goesOnline : Callback → Bool
  | .goOnlineForGame _ _ _ => true
  | _ => false

def Write.removes : Write → Bool
  | .removeValue _ => true
  | _ => false

/-- No session is going online. -/
def NoneArriving (s : State) : Prop :=
  (∀ c ∈ s.calls, c.callback.goesOnline = false) ∧
    (∀ a ∈ s.answers, a.callback.goesOnline = false) ∧ ∀ e ∈ s.outstanding, e.write.removes = true

/-- A session goes online while nothing is under way and the user plays nothing, and offline
    while no session goes online, for the stored game if there is one. -/
def UpToDate (u : String) (s : State) : Event → Prop
  | .start _ (.goOnlineForGame _ _) _ =>
      s.Quiescent ∧ s.store.has (currentlyPlayingRef u) = false
  | .start _ (.goOfflineForGame game) _ =>
      NoneArriving s ∧ (s.store.leafAt (currentlyPlayingRef u) = none ∨
        s.store.leafAt (currentlyPlayingRef u) = some (.str game.name))
  | _ => True

instance (u : String) (s : State) (e : Event) : Decidable (UpToDate u s e) := by
  unfold UpToDate NoneArriving
  split <;> infer_instance

/-! ### What the callbacks issue -/

theorem goOfflineForGameRead_eq (game : Game) (snapshot : Tree) :
    goOfflineForGameRead game snapshot = (firstKey snapshot).toList.map fun k =>
      .write (.removeValue (onlineRef game.name ++ [k])) := by
  unfold goOfflineForGameRead firstKey
  split
  · rename_i k hk
    rw [hk]
    rfl
  · rename_i hk
    rw [hk]
    rfl

/-- What going online issues: nothing, or an entry with the name of the fetched user and
    the game. -/
theorem goOnlineForGameRead_cases (u : String) (game : Game) (now : Rat) (snapshot : Tree)
    (id : String) :
    goOnlineForGameRead u game now snapshot id = [] ∨
      ∃ user values, fetchedUser snapshot = some user ∧
        (values.map Prod.fst : List String).Nodup ∧ ("username", Tree.str user.username) ∈ values ∧
        goOnlineForGameRead u game now snapshot id =
          [.write (.updateChildValues (onlineRef game.name ++ [id]) values),
            .write (.setValue (currentlyPlayingRef u) (Tree.str game.name))] := by
  unfold goOnlineForGameRead
  split
  · rename_i user platform huser _
    exact Or.inr ⟨user, _, huser, by simp, by simp, rfl⟩
  · exact Or.inl rfl

/-! ### Writes and the two stored facts -/

section Writes

variable {u g k : String} {db : Tree}

theorem online_removeEntry (g' k' : String) :
    Listed (onlineRef g') u ((Write.removeValue (onlineRef g ++ [k])).apply db) k' ↔
      Listed (onlineRef g') u db k' ∧ ¬ (g' = g ∧ k' = k) := by
  by_cases hg : g' = g
  · subst hg
    rw [listed_removeEntry]
    simp
  · rw [listed_beside, and_iff_left]
    · exact fun h => hg h.1
    · simp [Incomparable, Write.ref, hg, Ne.symm hg]

theorem online_enter {values : Dictionary} (hnodup : (values.map Prod.fst).Nodup)
    (husername : ("username", Tree.str u) ∈ values) (g' k' : String) :
    Listed (onlineRef g') u ((Write.updateChildValues (onlineRef g ++ [k]) values).apply db) k' ↔
      (g' = g ∧ k' = k) ∨ Listed (onlineRef g') u db k' := by
  by_cases hg : g' = g
  · subst hg
    rw [listed_updateEntry hnodup husername]
    simp
  · rw [listed_beside, or_iff_right]
    · exact fun h => hg h.1
    · simp [Incomparable, Write.ref, hg, Ne.symm hg]

theorem online_beside {w : Write} (hw : w.ref = currentlyPlayingRef u) (g k : String) :
    Listed (onlineRef g) u (w.apply db) k ↔ Listed (onlineRef g) u db k :=
  listed_beside (by simp [Incomparable, hw])

/-- A write to the lists does not touch the record. -/
theorem record_beside {w : Write} {q : Ref} (hw : w.ref.head? = some "lfg")
    (hq : q.head? = some "users") : Incomparable w.ref q := by
  obtain ⟨list, hlist⟩ := List.head?_eq_some_iff.mp hw
  obtain ⟨rest, hrest⟩ := List.head?_eq_some_iff.mp hq
  rw [hlist, hrest]
  simp [Incomparable]

end Writes

/-- A write the sessions going offline have outstanding. -/
inductive Removal (u : String) (client : Session) : Write → Prop
  | playing : Removal u client (.removeValue (currentlyPlayingRef u))
  | entry (g k : String) : Removal u client (.removeValue (onlineRef g ++ [k]))

def OfflineCall (u : String) (_ : Session) (request : Query) (callback : Callback) : Prop :=
  ∃ game : Game, request = .equal (onlineRef game.name) "username" u ∧
    callback = .goOfflineForGame game

/-- A write the sessions have outstanding. -/
inductive PresenceWrite (u : String) (client : Session) : Write → Prop
  | removal {w : Write} (h : Removal u client w) : PresenceWrite u client w
  | enter {g k : String} {values : Dictionary} (hnodup : (values.map Prod.fst).Nodup)
      (husername : ("username", Tree.str u) ∈ values) (hk : Tree.integerKey k = none) :
      PresenceWrite u client (.updateChildValues (onlineRef g ++ [k]) values)
  | play (g : String) :
      PresenceWrite u client (.setValue (currentlyPlayingRef u) (Tree.str g))

theorem leafAt_play (u g : String) (db : Tree) :
    ((Write.setValue (currentlyPlayingRef u) (Tree.str g)).apply db).leafAt
      (currentlyPlayingRef u) = some (.str g) := by
  have hput := PathTree.leafAt_put_below db (Tree.str g) (currentlyPlayingRef u) []
  rwa [List.append_nil] at hput

/-- A write to the lists keeps the database orderly if it keeps the keys generated. -/
theorem Orderly.of_list {u : String} {db : Tree} (h : Orderly u db) {w : Write}
    (hw : w.ref.head? = some "lfg")
    (hkeys : ∀ g k, Listed (onlineRef g) u (w.apply db) k → Tree.integerKey k = none) :
    Orderly u (w.apply db) where
  username := by
    intro name hname
    rw [Write.leafAt_apply_beside _ (record_beside hw rfl)] at hname
    exact h.username name hname
  playing := by
    intro hhas
    rw [Write.has_apply_beside _ (record_beside hw rfl)] at hhas
    rw [Write.leafAt_apply_beside _ (record_beside hw rfl)]
    exact h.playing hhas
  keys := hkeys

/-- A write of the current game keeps the database orderly if it stores a name or nothing. -/
theorem Orderly.of_playing {u : String} {db : Tree} (h : Orderly u db) {w : Write}
    (hw : w.ref = currentlyPlayingRef u)
    (hplaying : (w.apply db).has (currentlyPlayingRef u) = true →
      ∃ g, (w.apply db).leafAt (currentlyPlayingRef u) = some (.str g)) :
    Orderly u (w.apply db) where
  username := by
    intro name hname
    rw [Write.leafAt_apply_beside _ (by simp [Incomparable, hw])] at hname
    exact h.username name hname
  playing := hplaying
  keys := fun g k hlisted => h.keys g k ((online_beside hw g k).mp hlisted)

theorem Orderly.apply {u : String} {db : Tree} (h : Orderly u db) {client : Session} {w : Write}
    (hw : PresenceWrite u client w) : Orderly u (w.apply db) := by
  cases hw with
  | removal hremoval =>
    cases hremoval with
    | playing => exact h.of_playing rfl fun hhas => by simp [Write.apply] at hhas
    | entry g k =>
      exact h.of_list rfl fun g' k' hlisted =>
        h.keys g' k' ((online_removeEntry g' k').mp hlisted).1
  | @enter g k values hnodup husername hk =>
    refine h.of_list rfl fun g' k' hlisted => ?_
    rcases (online_enter hnodup husername g' k').mp hlisted with ⟨-, rfl⟩ | hold
    · exact hk
    · exact h.keys g' k' hold
  | play g => exact h.of_playing rfl fun _ => ⟨g, leafAt_play u g db⟩

/-- What a session sees through its own removals. -/
theorem listed_applyAll {catalogue : List Game} {u g k : String} {db : Tree} {client : Session}
    {ws : List Write} (hws : ∀ w ∈ ws, Removal u client w) :
    Listed (onlineRef g) u ((app catalogue).applyAll ws db) k ↔
      Listed (onlineRef g) u db k ∧ .removeValue (onlineRef g ++ [k]) ∉ ws := by
  induction ws generalizing db with
  | nil => simp [applyAll]
  | cons w rest ih =>
    have hrest : Listed (onlineRef g) u ((app catalogue).applyAll rest (w.apply db)) k ↔
        Listed (onlineRef g) u (w.apply db) k ∧ .removeValue (onlineRef g ++ [k]) ∉ rest :=
      ih fun w' hw' => hws w' (by simp [hw'])
    rw [show (app catalogue).applyAll (w :: rest) db =
      (app catalogue).applyAll rest (w.apply db) from rfl, hrest, List.mem_cons, not_or]
    cases hws w (by simp) with
    | playing =>
      rw [online_beside rfl]
      simp
    | entry g' k' =>
      rw [online_removeEntry]
      simp only [Write.removeValue.injEq, onlineRef, List.cons_append, List.nil_append,
        List.cons.injEq, true_and, and_true, and_assoc]

/-! ### Phases -/

/-- The entry is going to be removed. -/
def Going (u : String) (s : State) (g k : String) : Prop :=
  (∃ c ∈ s.calls, c.request = .equal (onlineRef g) "username" u) ∨
    (∃ a ∈ s.answers, (∃ game : Game, a.callback = .goOfflineForGame game ∧ game.name = g) ∧
      firstKey a.response = some k) ∨
    ∃ e ∈ s.outstanding, e.write = .removeValue (onlineRef g ++ [k])

/-- Nothing or only sessions going offline are under way; what is still stored is going to
    be removed. -/
structure Leaving (u : String) (s : State) (g k : String) : Prop where
  issued : Issued (Removal u) (OfflineCall u) s
  only : ∀ g' k', Listed (onlineRef g') u s.store k' → g' = g ∧ k' = k
  playing : s.store.has (currentlyPlayingRef u) = true →
    ∃ e ∈ s.outstanding, e.write = .removeValue (currentlyPlayingRef u)
  going : Listed (onlineRef g) u s.store k → Going u s g k

theorem permitted_goOffline (client : Session) (game : Game) :
    Permitted (Removal client.user) (OfflineCall client.user) client
      (goOfflineForGame client.user game) := by
  constructor
  · intro w hw
    simp only [goOfflineForGame, List.mem_cons, Command.write.injEq, reduceCtorEq,
      List.not_mem_nil, or_false] at hw
    rw [hw]
    exact .playing
  · intro request callback hcall
    simp only [goOfflineForGame, List.mem_cons, Command.call.injEq, reduceCtorEq,
      List.not_mem_nil, or_false, false_or] at hcall
    exact ⟨game, hcall.1, hcall.2⟩

namespace Leaving

variable {catalogue : List Game} {u g k : String} {s t : State}

theorem start (h : Leaving u s g k) {client : Session} (hclient : client.user = u) {game : Game}
    {id : String}
    (hst : (app catalogue).step s (.start client (.goOfflineForGame game) id) = some t) :
    Leaving u t g k := by
  obtain ⟨-, -, rfl⟩ := step_start _ hst
  subst hclient
  refine ⟨h.issued.issue (permitted_goOffline client game) id, h.only, fun hhas => ?_,
    fun hlisted => ?_⟩
  · exact ⟨⟨client, .removeValue (currentlyPlayingRef client.user)⟩,
      by simp [Config.issue, app, begin, goOfflineForGame, Command.write?], rfl⟩
  · rcases h.going hlisted with ⟨c, hc, hrequest⟩ | ⟨a, ha, hanswer⟩ | ⟨e, he, hwrite⟩
    · exact Or.inl ⟨c, List.mem_append_left _ hc, hrequest⟩
    · exact Or.inr (Or.inl ⟨a, ha, hanswer⟩)
    · exact Or.inr (Or.inr ⟨e, List.mem_append_left _ he, hwrite⟩)

theorem deliver (h : Leaving u s g k) {index : Nat}
    (hst : (app catalogue).step s (.deliver index) = some t) : Leaving u t g k := by
  obtain ⟨before, e, after, hout, -, rfl⟩ := step_deliver _ hst
  have hremoval : Removal u e.client e.write := h.issued.writes e (mem_of_split hout)
  have hissued : Issued (Removal u) (OfflineCall u) { s with
      store := (app catalogue).apply e.write s.store, outstanding := before ++ after } :=
    ⟨fun e' he' => h.issued.writes e' (rest_of_split hout he'), h.issued.calls, h.issued.answers⟩
  -- another write stays outstanding
  have hstays : ∀ {w : Write}, (∃ e' ∈ s.outstanding, e'.write = w) → w ≠ e.write →
      ∃ e' ∈ before ++ after, e'.write = w := by
    rintro w ⟨e', he', rfl⟩ hne
    rw [hout, List.mem_append, List.mem_cons] at he'
    rcases he' with hbefore | rfl | hafter
    · exact ⟨e', List.mem_append_left _ hbefore, rfl⟩
    · exact (hne rfl).elim
    · exact ⟨e', List.mem_append_right _ hafter, rfl⟩
  have hgoing : ∀ {w : Write}, Going u s g k → w = e.write → w ≠ .removeValue (onlineRef g ++ [k]) →
      Going u { s with
        store := (app catalogue).apply e.write s.store, outstanding := before ++ after } g k := by
    rintro w (hcall | hanswer | hwrite) rfl hne
    · exact Or.inl hcall
    · exact Or.inr (Or.inl hanswer)
    · exact Or.inr (Or.inr (hstays hwrite (Ne.symm hne)))
  obtain ⟨client, w⟩ := e
  cases hremoval with
  | playing =>
    refine ⟨hissued, fun g' k' hlisted => h.only g' k' ((online_beside rfl g' k').mp hlisted),
      fun hhas => ?_, fun hlisted => ?_⟩
    · simp [app, Write.apply] at hhas
    · exact hgoing (h.going ((online_beside rfl g k).mp hlisted)) rfl (by simp)
  | entry g' k' =>
    refine ⟨hissued,
      fun g'' k'' hlisted => h.only g'' k'' ((online_removeEntry g'' k'').mp hlisted).1,
      fun hhas => ?_, fun hlisted => ?_⟩
    · have hstored : s.store.has (currentlyPlayingRef u) = true := by
        rw [← hhas]
        exact (Write.has_apply_beside _ (record_beside rfl rfl)).symm
      exact hstays (h.playing hstored) (by simp)
    · obtain ⟨hstored, hother⟩ := (online_removeEntry g k).mp hlisted
      refine hgoing (h.going hstored) rfl ?_
      intro heq
      obtain ⟨hg, hk⟩ : g' = g ∧ k' = k := by simpa using heq
      exact hother ⟨hg.symm, hk.symm⟩

theorem serve (h : Leaving u s g k) (horderly : Orderly u s.store) {index : Nat} {response : Tree}
    (hst : (app catalogue).step s (.serve index response) = some t) : Leaving u t g k := by
  obtain ⟨before, c, after, hcalls, -, hanswers, rfl⟩ := step_serve _ hst
  have hc : OfflineCall u c.client c.request c.callback := h.issued.calls c (mem_of_split hcalls)
  have hsub : ∀ c' ∈ before ++ after, c' ∈ s.calls := fun _ hc' => rest_of_split hcalls hc'
  have hissued : Issued (Removal u) (OfflineCall u) { s with
      calls := before ++ after
      answers := s.answers ++ [⟨c.client, c.request, c.callback, response⟩] } := by
    refine ⟨h.issued.writes, fun c' hc' => h.issued.calls c' (hsub c' hc'), fun a ha => ?_⟩
    rcases List.mem_append.mp ha with hold | hnew
    · exact h.issued.answers a hold
    · rw [List.mem_singleton.mp hnew]
      exact hc
  refine ⟨hissued, h.only, h.playing, fun hlisted => ?_⟩
  rcases h.going hlisted with ⟨c', hc', hrequest⟩ | ⟨a, ha, hanswer⟩ | hwrite
  · rw [hcalls, List.mem_append, List.mem_cons] at hc'
    rcases hc' with hbefore | rfl | hafter
    · exact Or.inl ⟨c', List.mem_append_left _ hbefore, hrequest⟩
    · -- the call is answered: it finds the entry, or its own session has removed it
      obtain ⟨game, hequal, hcallback⟩ := hc
      have hname : game.name = g := by
        have heq := hequal.symm.trans hrequest
        simpa using heq
      have hremovals : ∀ w ∈ (s.outstanding.filter fun e => e.client = c'.client).map Issue.write,
          Removal u c'.client w := by
        intro w hw
        obtain ⟨e, he, rfl⟩ := List.mem_map.mp hw
        obtain ⟨hmem, hclient⟩ := List.mem_filter.mp he
        rw [← of_decide_eq_true hclient]
        exact h.issued.writes e hmem
      have hview : ∀ g' k', Listed (onlineRef g') u ((app catalogue).view s c'.client) k' ↔ _ :=
        fun g' k' => listed_applyAll hremovals
      by_cases hseen : Listed (onlineRef g) u ((app catalogue).view s c'.client) k
      · rw [hrequest] at hanswers
        refine Or.inr (Or.inl ⟨_, List.mem_append_right _ (List.mem_singleton.mpr rfl),
          ⟨game, hcallback, hname⟩, ?_⟩)
        exact firstKey_of_only hanswers hseen
          (fun k' hk' => (h.only g k' ((hview g k').mp hk').1).2) (horderly.keys g k hlisted)
      · have hremoved : Write.removeValue (onlineRef g ++ [k]) ∈
            (s.outstanding.filter fun e => e.client = c'.client).map Issue.write := by
          by_contra hnot
          exact hseen ((hview g k).mpr ⟨hlisted, hnot⟩)
        obtain ⟨e, he, hwrite⟩ := List.mem_map.mp hremoved
        exact Or.inr (Or.inr ⟨e, (List.mem_filter.mp he).1, hwrite⟩)
    · exact Or.inl ⟨c', List.mem_append_right _ hafter, hrequest⟩
  · exact Or.inr (Or.inl ⟨a, List.mem_append_left _ ha, hanswer⟩)
  · exact Or.inr (Or.inr hwrite)

theorem resume (h : Leaving u s g k) {index : Nat} {id : String}
    (hst : (app catalogue).step s (.resume index id) = some t) : Leaving u t g k := by
  obtain ⟨before, a, after, hans, -, -, -, rfl⟩ := step_resume _ hst
  obtain ⟨game, hrequest, hcallback⟩ := h.issued.answers a (mem_of_split hans)
  have hcommands : (app catalogue).resume a.client a.callback a.response id =
      (firstKey a.response).toList.map fun k =>
        .write (.removeValue (onlineRef game.name ++ [k])) := by
    rw [hcallback]
    exact goOfflineForGameRead_eq game a.response
  have hrest : Issued (Removal u) (OfflineCall u) { s with answers := before ++ after } :=
    ⟨h.issued.writes, h.issued.calls, fun a' ha' => h.issued.answers a' (rest_of_split hans ha')⟩
  rw [hcommands]
  refine ⟨hrest.issue ⟨?_, ?_⟩ id, h.only, fun hhas => ?_, fun hlisted => ?_⟩
  · intro w hw
    obtain ⟨k', -, hk'⟩ := List.mem_map.mp hw
    rw [← Command.write.inj hk']
    exact .entry _ _
  · intro request callback hcall
    obtain ⟨k', -, hk'⟩ := List.mem_map.mp hcall
    cases hk'
  · obtain ⟨e, he, hwrite⟩ := h.playing hhas
    exact ⟨e, List.mem_append_left _ he, hwrite⟩
  · rcases h.going hlisted with ⟨c, hc, hcall⟩ | ⟨a', ha', hanswer⟩ | ⟨e, he, hwrite⟩
    · exact Or.inl ⟨c, List.mem_append_left _ hc, hcall⟩
    · rw [hans, List.mem_append, List.mem_cons] at ha'
      rcases ha' with hbefore | rfl | hafter
      · exact Or.inr (Or.inl ⟨a', List.mem_append_left _ hbefore, hanswer⟩)
      · obtain ⟨⟨game', hcallback', hname⟩, hkey⟩ := hanswer
        obtain rfl : game' = game := by
          have heq := hcallback'.symm.trans hcallback
          simpa using heq
        refine Or.inr (Or.inr ⟨⟨a'.client, .removeValue (onlineRef g ++ [k])⟩, ?_, rfl⟩)
        simp [Config.issue, hkey, hname, Command.write?]
      · exact Or.inr (Or.inl ⟨a', List.mem_append_right _ hafter, hanswer⟩)
    · exact Or.inr (Or.inr ⟨e, List.mem_append_left _ he, hwrite⟩)

end Leaving

/-- How far the user's sessions have got. -/
inductive Phase (u : String) (s : State) : Prop
  | leaving {g k : String} (h : Leaving u s g k)
  | playing {g k : String} (hrest : s.Quiescent)
      (hplaying : s.store.leafAt (currentlyPlayingRef u) = some (.str g))
      (hone : OneEntry u s.store g k)
  | asking {client : Session} {game : Game} {now : Rat}
      (hcalls : s.calls = [⟨client, .value (userRef u), .goOnlineForGame u game now⟩])
      (hans : s.answers = []) (hout : s.outstanding = []) (hnone : NoEntry u s.store)
      (habsent : s.store.has (currentlyPlayingRef u) = false)
  | answered {client : Session} {game : Game} {now : Rat} {snapshot : Tree}
      (hans : s.answers = [⟨client, .value (userRef u), .goOnlineForGame u game now, snapshot⟩])
      (hcalls : s.calls = []) (hout : s.outstanding = [])
      (hsnapshot : ∀ user, fetchedUser snapshot = some user → user.username = u)
      (hnone : NoEntry u s.store) (habsent : s.store.has (currentlyPlayingRef u) = false)
  | arriving {client : Session} {g k : String} {values : Dictionary}
      (hout : s.outstanding = [⟨client, .updateChildValues (onlineRef g ++ [k]) values⟩,
        ⟨client, .setValue (currentlyPlayingRef u) (Tree.str g)⟩])
      (hcalls : s.calls = []) (hans : s.answers = [])
      (hnodup : (values.map Prod.fst).Nodup) (husername : ("username", Tree.str u) ∈ values)
      (hk : Tree.integerKey k = none) (hnone : NoEntry u s.store)
  | arrived {client : Session} {g k : String}
      (hout : s.outstanding = [⟨client, .setValue (currentlyPlayingRef u) (Tree.str g)⟩])
      (hcalls : s.calls = []) (hans : s.answers = []) (hone : OneEntry u s.store g k)

namespace Phase

variable {catalogue : List Game} {u : String} {s t : State}

theorem writes (h : Phase u s) : ∀ e ∈ s.outstanding, PresenceWrite u e.client e.write := by
  cases h with
  | leaving h => exact fun e he => .removal (h.issued.writes e he)
  | playing hrest hplaying hone => simp [hrest.1]
  | asking hcalls hans hout hnone habsent => simp [hout]
  | answered hans hcalls hout hsnapshot hnone habsent => simp [hout]
  | arriving hout hcalls hans hnodup husername hk hnone =>
    rw [hout]
    simp only [List.mem_cons, List.not_mem_nil, or_false]
    rintro e (rfl | rfl)
    · exact .enter hnodup husername hk
    · exact .play _
  | arrived hout hcalls hans hone =>
    rw [hout]
    intro e he
    rw [List.mem_singleton.mp he]
    exact .play _

/-- With nothing under way the record and the lists agree. -/
theorem agrees (h : Phase u s) (hrest : s.Quiescent) : PlayingAgrees u s.store := by
  obtain ⟨hout', hcalls', hans'⟩ := hrest
  cases h with
  | @leaving g k h =>
    have habsent : s.store.has (currentlyPlayingRef u) = false := by
      refine Bool.eq_false_iff.mpr fun hhas => ?_
      obtain ⟨e, he, -⟩ := h.playing hhas
      rw [hout'] at he
      cases he
    refine ⟨fun g' hg' => ?_, fun _ g' k' hlisted => ?_⟩
    · have hhas := PathTree.has_of_leafAt (p := currentlyPlayingRef u) (q := []) hg'
      rw [habsent] at hhas
      cases hhas
    · obtain ⟨rfl, rfl⟩ := h.only g' k' hlisted
      rcases h.going hlisted with ⟨c, hc, -⟩ | ⟨a, ha, -⟩ | ⟨e, he, -⟩
      · rw [hcalls'] at hc
        cases hc
      · rw [hans'] at ha
        cases ha
      · rw [hout'] at he
        cases he
  | @playing g k hrest hplaying hone =>
    refine ⟨fun g' hg' => ?_, fun habsent => ?_⟩
    · obtain rfl : g = g' := by simpa using hplaying.symm.trans hg'
      exact ⟨k, hone⟩
    · have hhas := PathTree.has_of_leafAt (p := currentlyPlayingRef u) (q := []) hplaying
      rw [habsent] at hhas
      cases hhas
  | asking hcalls hans hout hnone habsent => simp [hcalls] at hcalls'
  | answered hans hcalls hout hsnapshot hnone habsent => simp [hans] at hans'
  | arriving hout hcalls hans hnodup husername hk hnone => simp [hout] at hout'
  | arrived hout hcalls hans hone => simp [hout] at hout'

theorem goOnline (h : Phase u s) {client : Session} (hclient : client.user = u) {game : Game}
    {now : Rat} {id : String} (hok : UpToDate u s (.start client (.goOnlineForGame game now) id))
    (hst : (app catalogue).step s (.start client (.goOnlineForGame game now) id) = some t) :
    Phase u t := by
  obtain ⟨hrest, habsent⟩ := hok
  have hnone := (h.agrees hrest).2 habsent
  obtain ⟨hout, hcalls, hans⟩ := hrest
  obtain ⟨-, -, rfl⟩ := step_start _ hst
  subst hclient
  have hasking : (s.issue client id (goOnlineForGame client.user game now)).calls =
      [⟨client, .value (userRef client.user), .goOnlineForGame client.user game now⟩] := by
    simp [Config.issue, hcalls, goOnlineForGame, Command.call?]
  refine .asking hasking hans ?_ hnone habsent
  simp [Config.issue, hout, app, begin, goOnlineForGame, Command.write?]

theorem goOffline (h : Phase u s) {client : Session} (hclient : client.user = u) {game : Game}
    {id : String} (hok : UpToDate u s (.start client (.goOfflineForGame game) id))
    (hst : (app catalogue).step s (.start client (.goOfflineForGame game) id) = some t) :
    Phase u t := by
  obtain ⟨⟨hcalls', hans', hout'⟩, hstored⟩ := hok
  cases h with
  | leaving h => exact .leaving (h.start hclient hst)
  | @playing g k hrest hplaying hone =>
    obtain rfl : g = game.name := by simpa [hplaying] using hstored
    obtain ⟨-, -, rfl⟩ := step_start _ hst
    subst hclient
    refine .leaving (g := game.name) (k := k)
      ⟨(Issued.of_quiescent hrest).issue (permitted_goOffline client game) id,
        hone.only, fun _ => ?_, fun _ => Or.inl ?_⟩
    · exact ⟨⟨client, .removeValue (currentlyPlayingRef client.user)⟩,
        by simp [Config.issue, app, begin, goOfflineForGame, Command.write?], rfl⟩
    · exact ⟨⟨client, .equal (onlineRef game.name) "username" client.user, .goOfflineForGame game⟩,
        by simp [Config.issue, app, begin, goOfflineForGame, Command.call?], rfl⟩
  | asking hcalls hans hout hnone habsent =>
    have hfalse := hcalls' _ (by rw [hcalls]; exact List.mem_singleton.mpr rfl)
    cases hfalse
  | answered hans hcalls hout hsnapshot hnone habsent =>
    have hfalse := hans' _ (by rw [hans]; exact List.mem_singleton.mpr rfl)
    cases hfalse
  | arriving hout hcalls hans hnodup husername hk hnone =>
    have hfalse := hout' _ (by rw [hout]; exact List.mem_cons_self ..)
    cases hfalse
  | arrived hout hcalls hans hone =>
    have hfalse := hout' _ (by rw [hout]; exact List.mem_singleton.mpr rfl)
    cases hfalse

theorem deliver (h : Phase u s) {index : Nat}
    (horder : InOrder s (.deliver index : Event))
    (hst : (app catalogue).step s (.deliver index) = some t) : Phase u t := by
  cases h with
  | leaving h => exact .leaving (h.deliver hst)
  | playing hrest hplaying hone =>
    obtain ⟨before, e, after, hsplit, -, -⟩ := step_deliver _ hst
    simp [hrest.1] at hsplit
  | asking hcalls hans hout hnone habsent =>
    obtain ⟨before, e, after, hsplit, -, -⟩ := step_deliver _ hst
    simp [hout] at hsplit
  | answered hans hcalls hout hsnapshot hnone habsent =>
    obtain ⟨before, e, after, hsplit, -, -⟩ := step_deliver _ hst
    simp [hout] at hsplit
  | @arriving client g k values hout hcalls hans hnodup husername hk hnone =>
    obtain ⟨before, e, after, hsplit, hlength, rfl⟩ := step_deliver _ hst
    have hbefore := horder.before hsplit hlength
    rw [hout] at hsplit
    cases before with
    | nil =>
      obtain ⟨rfl, rfl⟩ := List.cons.inj hsplit
      refine .arrived (g := g) (k := k) rfl hcalls hans ⟨?_, fun g' k' hlisted => ?_⟩
      · exact (online_enter hnodup husername g k).mpr (Or.inl ⟨rfl, rfl⟩)
      · exact ((online_enter hnodup husername g' k').mp hlisted).resolve_right (hnone g' k')
    | cons e' rest =>
      obtain ⟨rfl, htail⟩ := List.cons.inj hsplit
      obtain ⟨rfl, rfl⟩ :
          rest = [] ∧ e = ⟨client, .setValue (currentlyPlayingRef u) (Tree.str g)⟩ := by
        cases rest with
        | nil => exact ⟨rfl, (List.cons.inj htail).1.symm⟩
        | cons e'' rest => simp at htail
      exact (hbefore _ (List.mem_singleton.mpr rfl) rfl).elim
  | @arrived client g k hout hcalls hans hone =>
    obtain ⟨before, e, after, hsplit, -, rfl⟩ := step_deliver _ hst
    rw [hout] at hsplit
    cases before with
    | cons e' rest => simp at hsplit
    | nil =>
      obtain ⟨rfl, rfl⟩ := List.cons.inj hsplit
      refine .playing (g := g) (k := k) ⟨rfl, hcalls, hans⟩ (leafAt_play u g s.store)
        ⟨(online_beside rfl g k).mpr hone.listed, fun g' k' hlisted => ?_⟩
      exact hone.only g' k' ((online_beside rfl g' k').mp hlisted)

theorem serve (h : Phase u s) (horderly : Orderly u s.store) {index : Nat} {response : Tree}
    (hst : (app catalogue).step s (.serve index response) = some t) : Phase u t := by
  cases h with
  | leaving h => exact .leaving (h.serve horderly hst)
  | playing hrest hplaying hone =>
    obtain ⟨before, c, after, hsplit, -⟩ := step_serve _ hst
    simp [hrest.2.1] at hsplit
  | @asking client game now hcalls hans hout hnone habsent =>
    obtain ⟨before, c, after, hsplit, -, hanswers, rfl⟩ := step_serve _ hst
    rw [hcalls] at hsplit
    cases before with
    | cons c' rest => simp at hsplit
    | nil =>
      obtain ⟨rfl, rfl⟩ := List.cons.inj hsplit
      have hanswered : s.answers ++
          [⟨client, .value (userRef u), .goOnlineForGame u game now, response⟩] =
            [⟨client, .value (userRef u), .goOnlineForGame u game now, response⟩] := by
        rw [hans]
        rfl
      refine .answered hanswered rfl hout (fun user huser => ?_) hnone habsent
      have hview : (app catalogue).view s client = s.store := by simp [view, hout, applyAll]
      rw [hview] at hanswers
      have hsame : PathTree.Same response (s.store.sub (userRef u)) := of_decide_eq_true hanswers
      obtain ⟨dictionary, hdictionary, hdecode⟩ := Option.bind_eq_some_iff.mp huser
      obtain rfl := Tree.asDictionary_eq_some hdictionary
      have hname := (User.stored_of_ofDictionary hdecode).username
      rw [hsame.leafAt, PathTree.leafAt_sub] at hname
      exact horderly.username _ hname
  | answered hans hcalls hout hsnapshot hnone habsent =>
    obtain ⟨before, c, after, hsplit, -⟩ := step_serve _ hst
    simp [hcalls] at hsplit
  | arriving hout hcalls hans hnodup husername hk hnone =>
    obtain ⟨before, c, after, hsplit, -⟩ := step_serve _ hst
    simp [hcalls] at hsplit
  | arrived hout hcalls hans hone =>
    obtain ⟨before, c, after, hsplit, -⟩ := step_serve _ hst
    simp [hcalls] at hsplit

theorem resume (h : Phase u s) {index : Nat} {id : String}
    (hst : (app catalogue).step s (.resume index id) = some t) : Phase u t := by
  cases h with
  | leaving h => exact .leaving (h.resume hst)
  | playing hrest hplaying hone =>
    obtain ⟨before, a, after, hsplit, -⟩ := step_resume _ hst
    simp [hrest.2.2] at hsplit
  | asking hcalls hans hout hnone habsent =>
    obtain ⟨before, a, after, hsplit, -⟩ := step_resume _ hst
    simp [hans] at hsplit
  | @answered client game now snapshot hans hcalls hout hsnapshot hnone habsent =>
    obtain ⟨before, a, after, hsplit, -, hmintable, -, rfl⟩ := step_resume _ hst
    rw [hans] at hsplit
    cases before with
    | cons a' rest => simp at hsplit
    | nil =>
      obtain ⟨rfl, rfl⟩ := List.cons.inj hsplit
      rw [app_resume, resume_goOnlineForGame]
      rcases goOnlineForGameRead_cases u game now snapshot id with
        hnothing | ⟨user, values, huser, hnodup, husername, hcommands⟩
      · -- the record or the platform is missing
        rw [hnothing]
        refine .leaving (g := game.name) (k := id) ⟨?_, fun g k hlisted => (hnone g k hlisted).elim,
          fun hhas => ?_, fun hlisted => (hnone _ _ hlisted).elim⟩
        · exact .of_quiescent ⟨by simp [Config.issue, hout], by simp [Config.issue, hcalls], rfl⟩
        · have hstored : s.store.has (currentlyPlayingRef u) = true := hhas
          rw [habsent] at hstored
          cases hstored
      · rw [hcommands]
        rw [hsnapshot user huser] at husername
        have harriving : s.outstanding ++
            [⟨client, .updateChildValues (onlineRef game.name ++ [id]) values⟩,
              ⟨client, .setValue (currentlyPlayingRef u) (Tree.str game.name)⟩] =
            [⟨client, .updateChildValues (onlineRef game.name ++ [id]) values⟩,
              ⟨client, .setValue (currentlyPlayingRef u) (Tree.str game.name)⟩] := by
          rw [hout]
          rfl
        exact .arriving harriving (by simp [Config.issue, hcalls, Command.call?]) rfl hnodup
          husername (Tree.integerKey_of_hyphen hmintable) hnone
  | arriving hout hcalls hans hnodup husername hk hnone =>
    obtain ⟨before, a, after, hsplit, -⟩ := step_resume _ hst
    simp [hans] at hsplit
  | arrived hout hcalls hans hone =>
    obtain ⟨before, a, after, hsplit, -⟩ := step_resume _ hst
    simp [hans] at hsplit

theorem observe (h : Phase u s) {client : Session}
    (hst : (app catalogue).step s (.observe client) = some t) : Phase u t := by
  obtain rfl := step_observe _ hst
  cases h with
  | leaving h =>
    exact .leaving ⟨⟨h.issued.writes, h.issued.calls, h.issued.answers⟩, h.only, h.playing, h.going⟩
  | playing hrest hplaying hone => exact .playing hrest hplaying hone
  | asking hcalls hans hout hnone habsent => exact .asking hcalls hans hout hnone habsent
  | answered hans hcalls hout hsnapshot hnone habsent =>
    exact .answered hans hcalls hout hsnapshot hnone habsent
  | arriving hout hcalls hans hnodup husername hk hnone =>
    exact .arriving hout hcalls hans hnodup husername hk hnone
  | arrived hout hcalls hans hone => exact .arrived hout hcalls hans hone

end Phase

/-! ### The record and the lists agree -/

/-- An orderly database and sessions in one of the phases. -/
structure Present (u : String) (s : State) : Prop where
  orderly : Orderly u s.store
  phase : Phase u s

theorem Present.initial {u : String} {db : Tree} (horderly : Orderly u db)
    (hagrees : PlayingAgrees u db) (ids : List String) : Present u (State.initial db ids) := by
  refine ⟨horderly, ?_⟩
  have hrest : (State.initial db ids).Quiescent := ⟨rfl, rfl, rfl⟩
  by_cases hhas : db.has (currentlyPlayingRef u) = true
  · obtain ⟨g, hg⟩ := horderly.playing hhas
    obtain ⟨k, hone⟩ := hagrees.1 g hg
    exact .playing hrest hg hone
  · have hnone := hagrees.2 (Bool.eq_false_iff.mpr hhas)
    exact .leaving (g := "") (k := "") ⟨.of_quiescent hrest,
      fun g k hlisted => (hnone g k hlisted).elim, fun h => (hhas h).elim,
      fun hlisted => (hnone _ _ hlisted).elim⟩

theorem Present.step {catalogue : List Game} {u : String} {s t : State} (h : Present u s)
    {e : Event} (hop : presenceOps u e = true) (horder : InOrder s e) (hok : UpToDate u s e)
    (hst : (app catalogue).step s e = some t) : Present u t := by
  cases e with
  | start client op id =>
    have hstore : t.store = s.store := by
      obtain ⟨-, -, rfl⟩ := step_start _ hst
      rfl
    refine ⟨hstore ▸ h.orderly, ?_⟩
    cases op with
    | goOnlineForGame game now => exact h.phase.goOnline (of_decide_eq_true hop) hok hst
    | goOfflineForGame game => exact h.phase.goOffline (of_decide_eq_true hop) hok hst
    | _ => cases hop
  | deliver index =>
    refine ⟨?_, h.phase.deliver horder hst⟩
    obtain ⟨before, e, after, hout, -, rfl⟩ := step_deliver _ hst
    exact h.orderly.apply (h.phase.writes e (mem_of_split hout))
  | serve index response =>
    refine ⟨?_, h.phase.serve h.orderly hst⟩
    obtain ⟨before, c, after, -, -, -, rfl⟩ := step_serve _ hst
    exact h.orderly
  | resume index id =>
    refine ⟨?_, h.phase.resume hst⟩
    obtain ⟨before, a, after, -, -, -, -, rfl⟩ := step_resume _ hst
    exact h.orderly
  | observe client =>
    refine ⟨?_, h.phase.observe hst⟩
    obtain rfl := step_observe _ hst
    exact h.orderly

/-- **The stored game and the entries of a user agree** in every state with nothing under
    way, if the sessions are up to date when they go online or offline. -/
theorem playing_agrees {catalogue : List Game} {u : String} {db : Tree} {ids : List String}
    {events : List Event} {t : State} (horderly : Orderly u db) (hagrees : PlayingAgrees u db)
    (run : (app catalogue).Run
      (fun s e => presenceOps u e = true ∧ InOrder s e ∧ UpToDate u s e)
      (State.initial db ids) events t)
    (hrest : t.Quiescent) : PlayingAgrees u t.store := by
  have hpresent : Present u t := run.invariant (Present u)
    (fun v e w hv hok hst => hv.step hok.1 hok.2.1 hok.2.2 hst) (.initial horderly hagrees ids)
  exact hpresent.phase.agrees hrest

/-- Alice has chess among her games and plays nothing. -/
def chessPlayer : Tree :=
  (PathTree.empty : Tree).put (userRef "alice1")
    ((record "alice1").put ["games"] (Tree.ofDictionary (gamesDictionary [chess])))

theorem orderly_chessPlayer :
    Orderly "alice1" chessPlayer ∧ PlayingAgrees "alice1" chessPlayer := by
  have hname : chessPlayer.leafAt (userRef "alice1" ++ ["username"]) = some (.str "alice1") := by
    decide +kernel
  have habsent : chessPlayer.has (currentlyPlayingRef "alice1") = false := by
    decide +kernel
  have hnone : NoEntry "alice1" chessPlayer := by
    intro g k hlisted
    have hlist : chessPlayer.leafAt (onlineRef g ++ [k, "username"]) =
        (PathTree.empty : Tree).leafAt (onlineRef g ++ [k, "username"]) :=
      PathTree.leafAt_put_beside _ _ (by simp [Incomparable])
    cases hlist.symm.trans hlisted
  refine ⟨⟨fun name h => ?_, fun hhas => ?_, fun g k hlisted => (hnone g k hlisted).elim⟩,
    fun g hg => ?_, fun _ => hnone⟩
  · simpa using h.symm.trans hname
  · rw [habsent] at hhas
    cases hhas
  · have hhas := PathTree.has_of_leafAt (p := currentlyPlayingRef "alice1") (q := []) hg
    rw [habsent] at hhas
    cases hhas

/-- The answer to the query for alice's entry under this key. -/
def chessEntry (key : String) : Tree :=
  Tree.ofDictionary [(key, Tree.ofDictionary
    [("username", Tree.str "alice1"), ("region", Tree.str "Europe"), ("profilePicUrl", Tree.str ""),
      ("mic", Tree.str "mic"), ("biography", Tree.str ""), ("platform", Tree.str "PC"),
      ("compoundQuery", Tree.str "PC_Europe"), ("currentlyPlaying", Tree.str "chess"),
      ("onlineSince", Tree.double 0)])]

/-- Alice goes online, and offline again. -/
def session : List Event :=
  [.start ⟨"alice1", 1⟩ (.goOnlineForGame chess 0) "-1",
    .serve 0 (chessPlayer.sub (userRef "alice1")), .resume 0 "-2", .deliver 0, .deliver 0,
    .observe ⟨"alice1", 1⟩, .start ⟨"alice1", 1⟩ (.goOfflineForGame chess) "-3",
    .serve 0 (chessEntry "-2"), .deliver 0, .resume 0 "-4", .deliver 0]

theorem playing_agrees_session :
    ∃ t, (app [chess]).exec
        (fun s e => decide (presenceOps "alice1" e = true ∧ InOrder s e ∧ UpToDate "alice1" s e))
        (State.initial chessPlayer []) session = some t ∧ PlayingAgrees "alice1" t.store := by
  have hend : ((app [chess]).exec
      (fun s e => decide (presenceOps "alice1" e = true ∧ InOrder s e ∧ UpToDate "alice1" s e))
      (State.initial chessPlayer []) session).map (fun t => decide t.Quiescent) = some true := by
    decide +kernel
  obtain ⟨t, ht, hrest⟩ := Option.map_eq_some_iff.mp hend
  have run := run_of_exec (fun s e h => of_decide_eq_true h) ht
  exact ⟨t, ht, playing_agrees orderly_chessPlayer.1 orderly_chessPlayer.2 run
    (of_decide_eq_true hrest)⟩

/-- Alice goes online on two devices that both show that she plays nothing. -/
def twoDevices : List Event :=
  [.start ⟨"alice1", 1⟩ (.goOnlineForGame chess 0) "-1",
    .start ⟨"alice1", 2⟩ (.goOnlineForGame chess 0) "-2",
    .serve 0 (chessPlayer.sub (userRef "alice1")), .serve 0 (chessPlayer.sub (userRef "alice1")),
    .resume 0 "-3", .resume 0 "-4", .deliver 0, .deliver 0, .deliver 0, .deliver 0]

theorem not_always_playing_agrees :
    ¬ ∀ (catalogue : List Game) (u : String) (db : Tree) (ids : List String)
      (events : List Event) (t : State), Orderly u db → PlayingAgrees u db →
      (app catalogue).Run
        (fun s e => presenceOps u e = true ∧ asShown catalogue s e = true ∧ InOrder s e)
        (State.initial db ids) events t →
      t.Quiescent → PlayingAgrees u t.store := by
  intro hall
  have hend : ((app [chess]).exec
      (fun s e => decide (presenceOps "alice1" e = true ∧ asShown [chess] s e = true ∧ InOrder s e))
      (State.initial chessPlayer []) twoDevices).map (fun t => (decide t.Quiescent,
        t.store.leafAt (currentlyPlayingRef "alice1"),
        decide (Listed (onlineRef "chess") "alice1" t.store "-3"),
        decide (Listed (onlineRef "chess") "alice1" t.store "-4"))) =
      some (true, some (.str "chess"), true, true) := by
    decide +kernel
  obtain ⟨t, ht, hrest⟩ := Option.map_eq_some_iff.mp hend
  simp only [Prod.mk.injEq, decide_eq_true_eq] at hrest
  obtain ⟨hquiet, hplaying, hthree, hfour⟩ := hrest
  have run := run_of_exec (fun s e h => of_decide_eq_true h) ht
  obtain ⟨k, hone⟩ := (hall [chess] "alice1" chessPlayer [] twoDevices t orderly_chessPlayer.1
    orderly_chessPlayer.2 run hquiet).1 "chess" hplaying
  have hsame := (hone.only _ _ hthree).2.trans (hone.only _ _ hfour).2.symm
  exact absurd hsame (by decide)

end TeamUp
