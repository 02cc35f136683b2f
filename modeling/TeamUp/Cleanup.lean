import Mathlib.Data.Fintype.EquivFin
import TeamUp.PlayingNow
import TeamUp.Renewals
import TeamUp.Schedules

/-!
# Cleaning the lists up

Entries are pushed under generated keys, so overlapping runs can leave a user with several
in one list.  Only two operations remove entries: the renewal of the lists, and going
offline.  Both take the first key of the answer for the only one, so each call removes or
updates one entry, and a list with more of them is not repaired.
-/

namespace TeamUp

open Protocol

variable {catalogue games : List Game} {client : Session} {u g k : String} {list : Ref}
variable {db db' : Tree} {ids : List String} {s t : State}

/-! ### EndsAlone runs -/

/-- The end of an undisturbed run of some commands of one session, on a database whose keys
    are not generated again. -/
def EndsAlone (catalogue : List Game) (client : Session) (commands : Commands) (db : Tree)
    (t : State) : Prop :=
  ∃ ids id events, (∀ list k, db.has (list ++ [k]) = true → k ∈ ids) ∧
    (app catalogue).Run (fun s e => undisturbed e = true ∧ InOrder s e)
      ((State.initial db ids).issue client id commands) events t ∧ t.Quiescent

theorem exists_mintable (catalogue : List Game) (ids : List String) :
    ∃ id, (app catalogue).mintable id = true ∧ id ∉ ids := by
  -- hyphens, of a number that no identifier has one more letters than
  obtain ⟨n, hn⟩ := Infinite.exists_notMem_finset (ids.map fun id => id.length - 1).toFinset
  let id := String.ofList (List.replicate (n + 1) '-')
  have hmem : '-' ∈ id.toList := by simp [id]
  have hlength : id.length - 1 = n := by simp [id]
  refine ⟨id, List.contains_iff_mem.mpr hmem, fun hused => hn ?_⟩
  exact List.mem_toFinset.mpr (List.mem_map.mpr ⟨id, hused, hlength⟩)

/-- The keys of a database. -/
def usedKeys (db : Tree) : List String := db.leaves.flatMap Prod.fst

theorem mem_usedKeys (db : Tree) (list : Ref) (k : String) (h : db.has (list ++ [k]) = true) :
    k ∈ usedKeys db := by
  obtain ⟨q, v, hmem⟩ := PathTree.has_iff.mp h
  refine List.mem_flatMap.mpr ⟨_, hmem, ?_⟩
  simp

/-- The lists renewed one after the other, all from the entries found in one database. -/
def renewAll (catalogue : List Game) (u : String) (user : User) (games : List Game) (found : Tree)
    (renewals : List (Game × String)) (db : Tree) : Tree :=
  renewals.foldl (fun db x => applied catalogue (updateGameLFGRead x.1 games
    (lfgDictionary u user games x.1) ((listQuery u x.1).snapshot found) x.2) db) db

/-- The first key of the user's entries in the list of a game. -/
abbrev foundKey (u g : String) (db : Tree) : Option String :=
  firstKey ((Query.equal (lfgRef g) "username" u).snapshot db)

variable (catalogue games u) in
theorem listed_renewAll (user : User) (found : Tree) (renewals : List (Game × String))
    (db : Tree) (g k : String) :
    Listed (lfgRef g) u (renewAll catalogue u user games found renewals db) k ↔
      match platformOf games g with
      | some _ => Listed (lfgRef g) u db k ∨
          ∃ x ∈ renewals, x.1.name = g ∧ k = (foundKey u g found).getD x.2
      | none => Listed (lfgRef g) u db k ∧
          ((∃ x ∈ renewals, x.1.name = g) → foundKey u g found ≠ some k) := by
  induction renewals generalizing db with
  | nil => cases platformOf games g <;> simp [renewAll]
  | cons x rest ih =>
    obtain ⟨game, id⟩ := x
    have hfirst := listed_updateGameLFGRead u db catalogue games user game
      ((listQuery u game).snapshot found) id g k
    have hnext := ih (applied catalogue (updateGameLFGRead game games
      (lfgDictionary u user games game) ((listQuery u game).snapshot found) id) db)
    rw [show renewAll catalogue u user games found ((game, id) :: rest) db =
      renewAll catalogue u user games found rest (applied catalogue (updateGameLFGRead game games
        (lfgDictionary u user games game) ((listQuery u game).snapshot found) id) db) from rfl]
    by_cases hname : game.name = g
    · subst hname
      cases hplatform : platformOf games game.name with
      | some platform =>
        simp only [hplatform, if_true, entryKey] at hfirst hnext ⊢
        rw [hnext, hfirst]
        simp only [List.mem_cons, exists_eq_or_imp, true_and]
        rw [or_assoc, or_left_comm]
      | none =>
        simp only [hplatform, if_true] at hfirst hnext ⊢
        rw [hnext, hfirst]
        simp only [List.mem_cons, exists_eq_or_imp, true_or, true_implies]
        exact ⟨fun h => h.1, fun h => ⟨h, fun _ => h.2⟩⟩
    · cases hplatform : platformOf games g with
      | some platform =>
        simp only [hplatform, if_neg hname] at hfirst hnext ⊢
        rw [hnext, hfirst]
        simp [hname]
      | none =>
        simp only [hplatform, if_neg hname] at hfirst hnext ⊢
        rw [hnext, hfirst]
        simp [hname]

/-- The state in which a session has asked for the renewal of its lists. -/
abbrev renewalBegun (client : Session) (games : List Game) (db : Tree) (ids : List String)
    (id : String) : State :=
  (State.initial db ids).issue client id (updateUserLFG client.user games)

/-- The call for the list of a game. -/
def listCall (client : Session) (user : User) (games : List Game) (game : Game) : PendingCall :=
  ⟨client, listQuery client.user game,
    .updateGameLFG game games (lfgDictionary client.user user games game)⟩

/-- Its answer, from this database. -/
def listAnswer (client : Session) (user : User) (games : List Game) (db : Tree) (game : Game) :
    PendingAnswer :=
  ⟨client, listQuery client.user game,
    .updateGameLFG game games (lfgDictionary client.user user games game),
    (listQuery client.user game).snapshot db⟩

/-- All lists asked for, or all read, and none renewed yet. -/
def listsOpen (db : Tree) (calls : List PendingCall) (answers : List PendingAnswer)
    (minted : List String) : State :=
  { store := db, outstanding := [], calls, answers, seen := [], minted }

/-- Every call is answered from the database as it is. -/
theorem exists_served (catalogue : List Game) (db : Tree) {s : State} (hstore : s.store = db)
    (hout : s.outstanding = []) :
    ∃ events, (app catalogue).Run (fun s e => undisturbed e = true ∧ InOrder s e) s events
      (served s fun c => c.request.snapshot db) := by
  refine serve_all _ (fun _ _ _ _ => rfl) (fun _ _ => ⟨rfl, trivial⟩) s _ fun c _ => ?_
  rw [view, hout, hstore]
  exact decide_eq_true (PathTree.Same.refl _)

/-- The record of the user is read. -/
theorem exists_recordRead (catalogue : List Game) (client : Session) (games : List Game)
    (db : Tree) (ids : List String) (id : String) :
    ∃ events id', (app catalogue).Run (fun s e => undisturbed e = true ∧ InOrder s e)
      (renewalBegun client games db ids id) events
      ((listsOpen db [] [] (id :: ids)).issue client id'
        (updateUserLFGRead catalogue client.user games (db.sub (userRef client.user)))) := by
  obtain ⟨events, run⟩ := exists_served catalogue db (s := renewalBegun client games db ids id)
    rfl rfl
  obtain ⟨fresh, hlength, -, -, events', run'⟩ := resume_all (P := app catalogue)
    (fun s e => undisturbed e = true ∧ InOrder s e)
    (exists_mintable catalogue) (fun _ _ => ⟨rfl, trivial⟩)
    (served (renewalBegun client games db ids id) fun c => c.request.snapshot db)
  obtain ⟨id', rfl⟩ := List.length_eq_one_iff.mp hlength
  exact ⟨_, id', run.append run'⟩

/-- All lists can be read before any of them is renewed. -/
theorem exists_listsRead {user : User} (catalogue games : List Game) (ids : List String)
    (id : String)
    (huser : fetchedUser (db.sub (userRef client.user)) = some user) :
    ∃ events minted, ids ⊆ minted ∧
      (app catalogue).Run (fun s e => undisturbed e = true ∧ InOrder s e)
        (renewalBegun client games db ids id) events
        (listsOpen db [] (catalogue.map (listAnswer client user games db)) minted) := by
  obtain ⟨events, id', run⟩ := exists_recordRead catalogue client games db ids id
  have hasked : (listsOpen db [] [] (id :: ids)).issue client id'
      (updateUserLFGRead catalogue client.user games (db.sub (userRef client.user))) =
        listsOpen db (catalogue.map (listCall client user games)) [] (id' :: id :: ids) := by
    rw [updateUserLFGRead, huser]
    simp [listsOpen, listCall, Config.issue, Command.write?, Command.call?, List.filterMap_map,
      Function.comp_def]
  obtain ⟨events', run'⟩ := exists_served catalogue db
    (s := listsOpen db (catalogue.map (listCall client user games)) [] (id' :: id :: ids)) rfl rfl
  have hread : (served (listsOpen db (catalogue.map (listCall client user games)) []
      (id' :: id :: ids)) fun c => c.request.snapshot db) =
        listsOpen db [] (catalogue.map (listAnswer client user games db)) (id' :: id :: ids) := by
    simp [served, listsOpen, listAnswer, listCall, Function.comp_def]
  rw [hasked] at run
  rw [hread] at run'
  refine ⟨_, _, fun k hk => ?_, run.append run'⟩
  exact List.mem_cons_of_mem id' (List.mem_cons_of_mem id hk)

/-- **An undisturbed run** that renews every list from what all were read as. -/
theorem exists_undisturbed {user : User} {used : List String} (catalogue : List Game)
    (client : Session) (games : List Game)
    (huser : fetchedUser (db.sub (userRef client.user)) = some user)
    (hused : usedKeys db ⊆ used) :
    ∃ t events ids, (app catalogue).Run (fun s e => undisturbed e = true ∧ InOrder s e)
        (renewalBegun client games db used "") events t ∧ t.Quiescent ∧
      ids.length = catalogue.length ∧ ids.Nodup ∧
      (∀ id ∈ ids, ∀ list, db.has (list ++ [id]) = false) ∧
      t.store = renewAll catalogue client.user user games db (catalogue.zip ids) db := by
  obtain ⟨events, minted, hminted, run⟩ :=
    exists_listsRead catalogue games used "" huser
  let read := listsOpen db [] (catalogue.map (listAnswer client user games db)) minted
  obtain ⟨ids, hlength, hnodup, hnew, events', run'⟩ := resume_all (P := app catalogue)
    (fun s e => undisturbed e = true ∧ InOrder s e)
    (exists_mintable catalogue) (fun _ _ => ⟨rfl, trivial⟩) read
  let renewed := (app catalogue).resumed (read.answers.zip ids) { read with answers := [] }
  obtain ⟨events'', run''⟩ := deliver_all (P := app catalogue)
    (fun s e => undisturbed e = true ∧ InOrder s e)
    (fun _ => ⟨rfl, fun _ _ e' he' => by cases he'⟩) renewed
  have hzip : read.answers.zip ids =
      (catalogue.zip ids).map fun x => (listAnswer client user games db x.1, x.2) :=
    List.zip_map_left
  have hnocalls : ∀ x ∈ read.answers.zip ids, ((app catalogue).resume x.1.client x.1.callback
      x.1.response x.2).filterMap Command.call? = [] := by
    intro x hx
    rw [hzip] at hx
    obtain ⟨⟨game, id⟩, -, rfl⟩ := List.mem_map.mp hx
    change (updateGameLFGRead game games (lfgDictionary client.user user games game)
      ((listQuery client.user game).snapshot db) id).filterMap Command.call? = []
    rw [updateGameLFGRead_eq]
    split <;> rfl
  obtain ⟨hcalls, hanswers⟩ := calls_resumed hnocalls { read with answers := [] }
  refine ⟨_, _, ids, (run.append run').append run'', ⟨rfl, hcalls, hanswers⟩,
    by simpa [read, listsOpen] using hlength, hnodup, fun id hid list => ?_, ?_⟩
  · refine Bool.eq_false_iff.mpr fun htrue => (hnew id hid).2 ?_
    exact hminted (hused (mem_usedKeys db list id htrue))
  · change (app catalogue).flush renewed = _
    rw [flush_resumed, hzip, List.foldl_map]
    rfl

/-- The record of the user could not be read, so the lists are not asked for. -/
structure Unread (catalogue : List Game) (client : Session) (games : List Game) (db : Tree)
    (s : State) : Prop where
  flush : (app catalogue).flush s = db
  calls : ∀ c ∈ s.calls, c.callback = .updateUserLFG client.user games
  answers : ∀ a ∈ s.answers, a.callback = .updateUserLFG client.user games

theorem Unread.step (h : Unread catalogue client games db s)
    (hrenewing : Renewing catalogue client games db ids s)
    (hread : fetchedUser (db.sub (userRef client.user)) = none) {e : Event}
    (hquiet : undisturbed e = true) (horder : InOrder s e)
    (hst : (app catalogue).step s e = some t) : Unread catalogue client games db t := by
  cases quiet_of_undisturbed hrenewing.active hquiet horder hst with
  | kept hflush hcalls hanswers =>
    exact ⟨hflush.trans h.flush, hcalls ▸ h.calls, hanswers ▸ h.answers⟩
  | served before c after response hasked hanswer hflush hcalls hanswers =>
    refine ⟨hflush.trans h.flush, fun c' hc' => h.calls c' ?_, fun a ha => ?_⟩
    · rw [hcalls] at hc'
      exact rest_of_split hasked hc'
    · rw [hanswers] at ha
      rcases List.mem_append.mp ha with hold | hnew
      · exact h.answers a hold
      · rw [List.mem_singleton.mp hnew]
        exact h.calls c (mem_of_split hasked)
  | resumed before a after id hanswered hmintable hfresh hflush hcalls hanswers =>
    have ha : a ∈ s.answers := mem_of_split hanswered
    have hnone : (app catalogue).resume a.client a.callback a.response id = [] := by
      have hfetched := hrenewing.read a ha (h.answers a ha)
      rw [hread, Option.isSome_none, Option.isSome_eq_false_iff, Option.isNone_iff_eq_none]
        at hfetched
      rw [h.answers a ha, app_resume, resume_updateUserLFG, updateUserLFGRead, hfetched]
    rw [hnone] at hflush hcalls
    refine ⟨hflush.trans h.flush, fun c hc => h.calls c ?_, fun a' ha' => h.answers a' ?_⟩
    · simpa [hcalls] using hc
    · rw [hanswers] at ha'
      exact rest_of_split hanswered ha'

/-- The state a renewal is in when it has been asked for. -/
theorem renewing_begun (catalogue : List Game) (client : Session) (games : List Game) (db : Tree)
    (ids : List String) (id : String) :
    Renewing catalogue client games db ids (renewalBegun client games db ids id) := by
  have hflush : (app catalogue).flush (renewalBegun client games db ids id) = db := rfl
  have hcalls : ∀ c ∈ (renewalBegun client games db ids id).calls,
      c = ⟨client, .value (userRef client.user), .updateUserLFG client.user games⟩ := by
    intro c hc
    exact List.mem_singleton.mp hc
  refine ⟨⟨fun e he => (by cases he), fun c hc => ?_, fun a ha => (by cases ha)⟩,
    ⟨fun e he => trivial, fun c hc => ?_, fun a ha => (by cases ha)⟩,
    List.subset_cons_self id ids, fun _ _ _ _ => ?_, fun _ _ => ?_, fun a ha => (by cases ha),
    fun a ha => (by cases ha)⟩
  · rw [hcalls c hc]
  · rw [hcalls c hc]
    exact .user
  · exact fun _ => rfl
  · exact fun _ => rfl

/-- What holds along every undisturbed renewal holds at its end. -/
theorem EndsAlone.invariant (h : EndsAlone catalogue client (updateUserLFG client.user games)
    db t) (I : State → Prop)
    (hstart : ∀ ids id, I (renewalBegun client games db ids id))
    (hstep : ∀ ids s e v, Renewing catalogue client games db ids s → I s →
      undisturbed e = true → InOrder s e → (app catalogue).step s e = some v → I v) :
    I t ∧ t.Quiescent ∧ ∃ ids, (∀ list k, db.has (list ++ [k]) = true → k ∈ ids) ∧
      Renewing catalogue client games db ids t := by
  obtain ⟨ids, id, events, hused, run, hrest⟩ := h
  obtain ⟨hrenewing, hI⟩ := run.invariant
    (fun s => Renewing catalogue client games db ids s ∧ I s)
    (fun s e v hs hok hst => ⟨hs.1.step hok.1 hok.2 hst, hstep ids s e v hs.1 hs.2 hok.1 hok.2 hst⟩)
    ⟨renewing_begun catalogue client games db ids id, hstart ids id⟩
  exact ⟨hI, hrest, ids, hused, hrenewing⟩

/-! ### What a renewal of the lists repairs -/

/-- Each list has one entry of the user if the first of the games of that name has a platform,
    and none otherwise. -/
def Cleaned (catalogue games : List Game) (u : String) (db : Tree) : Prop :=
  ∀ game ∈ catalogue, match platformOf games game.name with
    | some _ => ∃ k, ∀ k', Listed (lfgRef game.name) u db k' ↔ k' = k
    | none => ∀ k, ¬ Listed (lfgRef game.name) u db k

/-- The record of the user can be read and every list has one entry of the user at most,
    which can be read too; and where an entry is missing, only one callback will push one.
    Without a record the lists must be as they should be already. -/
def Repairable (catalogue games : List Game) (u : String) (db : Tree) : Prop :=
  match fetchedUser (db.sub (userRef u)) with
  | some _ => ∀ game ∈ catalogue, Single (lfgRef game.name) u db ∧
      (platformOf games game.name ≠ none → (∀ k, ¬ Listed (lfgRef game.name) u db k) →
        (catalogue.countP fun other => decide (other.name = game.name)) = 1)
  | none => Cleaned catalogue games u db

/-- In these lists no entry of another user has changed, and nothing has changed outside them
    and the user's own data. -/
structure OthersKept (lists own : List Ref) (u : String) (db db' : Tree) : Prop where
  entries : ∀ list ∈ lists, ∀ v k, v ≠ u → Listed list v db k → Unchanged (list ++ [k]) db db'
  elsewhere : ∀ ref, (∀ list ∈ lists ++ own, Incomparable list ref) → Unchanged ref db db'

/-- The lists of the games. -/
abbrev listRefs (catalogue : List Game) : List Ref := catalogue.map fun game => lfgRef game.name

/-- An entry of another user is neither the user's nor a new one. -/
theorem not_own_of_listed {v : String} (hne : v ≠ u) (hk : Listed list v db k)
    (hused : ∀ list k, db.has (list ++ [k]) = true → k ∈ ids) : ¬ Own list u db ids k := by
  rintro (hlisted | hnew)
  · refine hne ?_
    simpa using hk.symm.trans hlisted
  · refine hnew (hused list k (PathTree.has_of_leafAt (q := ["username"]) (v := .str v) ?_))
    rw [List.append_assoc]
    exact hk

theorem othersKept_renewal (h : EndsAlone catalogue client (updateUserLFG client.user games)
    db t) : OthersKept (listRefs catalogue) [] client.user db t.store := by
  obtain ⟨-, hrest, ids, hused, hrenewing⟩ := h.invariant (fun _ => True) (fun _ _ => trivial)
    (fun _ _ _ _ _ _ _ _ _ => trivial)
  have hentries := hrenewing.entries
  have helsewhere := hrenewing.elsewhere
  rw [flush_of_quiescent hrest] at hentries helsewhere
  refine ⟨fun list hlist v k hne hk => ?_, fun ref href => helsewhere ref fun game hgame => ?_⟩
  · obtain ⟨game, hgame, rfl⟩ := List.mem_map.mp hlist
    exact hentries game hgame k (not_own_of_listed hne hk hused)
  · exact href _ (List.mem_append_left _ (List.mem_map.mpr ⟨game, hgame, rfl⟩))

/-- The user has one entry in the list of the game, with this platform, or none at all. -/
def ListedWith (platform : Option String) (u g : String) (db : Tree) : Prop :=
  match platform with
  | some platform => ∃ k, (∀ k', Listed (lfgRef g) u db k' ↔ k' = k) ∧
      db.leafAt (lfgRef g ++ [k, "platform"]) = some (.str platform)
  | none => ∀ k, ¬ Listed (lfgRef g) u db k

/-- Nothing is left to do: the list is as the games ask for it. -/
theorem listedWith_of_inHand (h : InHand games u g db [] 0) :
    ListedWith (platformOf games g) u g db := by
  have hrest := h.rest
  cases hplatform : platformOf games g with
  | none =>
    rw [hplatform] at hrest
    exact hrest.resolve_right (lt_irrefl 0)
  | some platform =>
    rw [hplatform] at hrest
    obtain ⟨k, hk, hleaf⟩ := hrest.resolve_right fun hmore => lt_irrefl 0 hmore.1
    exact ⟨k, fun k' => ⟨fun hk' => h.single.only k k' hk hk', fun heq => heq ▸ hk⟩, hleaf⟩

/-- The list of a game can be repaired: the user has one readable entry at most, and where it
    is missing, only one callback will push one. -/
def RepairableList (catalogue games : List Game) (u g : String) (db : Tree) : Prop :=
  Single (lfgRef g) u db ∧
    (platformOf games g ≠ none → (∀ k, ¬ Listed (lfgRef g) u db k) →
      (catalogue.countP fun other => decide (other.name = g)) = 1)

/-- **A renewal that has run to its end** leaves a list that can be repaired as the games ask
    for it. -/
theorem inHand_of_run {game : Game} (hgame : game ∈ catalogue)
    (hread : (fetchedUser (db.sub (userRef client.user))).isSome)
    (hlist : RepairableList catalogue games client.user game.name db)
    (hrenewing : Renewing catalogue client games db ids s)
    (hstart : (app catalogue).flush s = db ∧ s.answers = [] ∧
      rounds catalogue game.name s = catalogue.countP fun other => decide (other.name = game.name))
    {events : List Event}
    (run : (app catalogue).Run (fun s e => undisturbed e = true ∧ InOrder s e) s events t)
    (hrest : t.Quiescent) : InHand games client.user game.name t.store [] 0 := by
  obtain ⟨hflush, hanswers, hrounds⟩ := hstart
  obtain ⟨hsingle, hpush⟩ := hlist
  have hpos : 0 < catalogue.countP fun other => decide (other.name = game.name) :=
    List.countP_pos_iff.mpr ⟨game, hgame, decide_eq_true rfl⟩
  have hin : InHand games client.user game.name ((app catalogue).flush s) s.answers
      (rounds catalogue game.name s) := by
    rw [hflush, hanswers, hrounds]
    refine ⟨hsingle, fun a ha => (by cases ha), ?_⟩
    cases hplatform : platformOf games game.name with
    | none => exact Or.inr hpos
    | some platform => exact Or.inr ⟨hpos, hpush (by simp [hplatform])⟩
  obtain ⟨-, hend⟩ := run.invariant (fun v => Renewing catalogue client games db ids v ∧
      InHand games client.user game.name ((app catalogue).flush v) v.answers
        (rounds catalogue game.name v))
    (fun _ _ _ hv hok hst => ⟨hv.1.step hok.1 hok.2 hst, hv.1.inHand hread hv.2 hok.1 hok.2 hst⟩)
    ⟨hrenewing, hin⟩
  have hzero : rounds catalogue game.name t = 0 := by
    rw [rounds, hrest.2.1, hrest.2.2]
    rfl
  rwa [flush_of_quiescent hrest, hrest.2.2, hzero] at hend

theorem cleaned_of_inHand (h : InHand games u g db [] 0) :
    match platformOf games g with
    | some _ => ∃ k, ∀ k', Listed (lfgRef g) u db k' ↔ k' = k
    | none => ∀ k, ¬ Listed (lfgRef g) u db k := by
  have hlisted := listedWith_of_inHand h
  cases hplatform : platformOf games g with
  | none =>
    rw [hplatform] at hlisted
    exact hlisted
  | some platform =>
    rw [hplatform] at hlisted
    obtain ⟨k, hone, -⟩ := hlisted
    exact ⟨k, hone⟩

/-- A record that cannot be read leaves the database as it is. -/
theorem store_of_unread (hread : fetchedUser (db.sub (userRef client.user)) = none)
    (hrenewing : Renewing catalogue client games db ids s)
    (hunread : Unread catalogue client games db s) {events : List Event}
    (run : (app catalogue).Run (fun s e => undisturbed e = true ∧ InOrder s e) s events t)
    (hrest : t.Quiescent) : t.store = db := by
  obtain ⟨-, hend⟩ := run.invariant
    (fun v => Renewing catalogue client games db ids v ∧ Unread catalogue client games db v)
    (fun _ _ _ hv hok hst =>
      ⟨hv.1.step hok.1 hok.2 hst, hv.2.step hv.1 hread hok.1 hok.2 hst⟩)
    ⟨hrenewing, hunread⟩
  rw [← hend.flush, flush_of_quiescent hrest]

theorem unread_begun (client : Session) (games : List Game) (db : Tree) (ids : List String)
    (id : String) : Unread catalogue client games db (renewalBegun client games db ids id) :=
  ⟨rfl, fun c hc => by rw [List.mem_singleton.mp hc], fun a ha => by cases ha⟩

theorem rounds_begun (client : Session) (games : List Game) (db : Tree) (ids : List String)
    (id g : String) : rounds catalogue g (renewalBegun client games db ids id) =
      catalogue.countP fun other => decide (other.name = g) := by
  simp [rounds, renewalBegun, updateUserLFG, Config.issue, State.initial, Command.call?,
    Callback.rounds]

theorem cleaned_of_repairable (hrepairable : Repairable catalogue games client.user db)
    (h : EndsAlone catalogue client (updateUserLFG client.user games) db t) :
    Cleaned catalogue games client.user t.store := by
  obtain ⟨ids, id, events, -, run, hrest⟩ := h
  have hrenewing := renewing_begun catalogue client games db ids id
  rw [Repairable] at hrepairable
  cases hread : fetchedUser (db.sub (userRef client.user)) with
  | none =>
    rw [hread] at hrepairable
    rw [store_of_unread hread hrenewing (unread_begun client games db ids id) run hrest]
    exact hrepairable
  | some user =>
    rw [hread] at hrepairable
    intro game hgame
    exact cleaned_of_inHand (inHand_of_run hgame (by simp [hread]) (hrepairable game hgame)
      hrenewing ⟨rfl, rfl, rounds_begun client games db ids id game.name⟩ run hrest)

theorem exists_unread (catalogue : List Game) (client : Session) (games : List Game)
    (used : List String)
    (hread : fetchedUser (db.sub (userRef client.user)) = none) :
    ∃ t events, (app catalogue).Run (fun s e => undisturbed e = true ∧ InOrder s e)
      (renewalBegun client games db used "") events t ∧ t.Quiescent := by
  obtain ⟨events, id', run⟩ := exists_recordRead catalogue client games db used ""
  rw [updateUserLFGRead, hread] at run
  exact ⟨_, events, run, rfl, rfl, rfl⟩

/-- A list has one entry at most once its renewals, all from one snapshot, have run. -/
theorem single_of_renewAll {user : User} {renewals : List (Game × String)} {game : Game}
    (hcleaned : match platformOf games game.name with
      | some _ => ∃ k, ∀ k', Listed (lfgRef game.name) u
          (renewAll catalogue u user games db renewals db) k' ↔ k' = k
      | none => ∀ k, ¬ Listed (lfgRef game.name) u
          (renewAll catalogue u user games db renewals db) k)
    (hgame : ∃ x ∈ renewals, x.1.name = game.name)
    (hnew : ∀ x ∈ renewals, ∀ list, db.has (list ++ [x.2]) = false) :
    Single (lfgRef game.name) u db := by
  have hanswers : (Query.equal (lfgRef game.name) "username" u).answers db
      ((Query.equal (lfgRef game.name) "username" u).snapshot db) = true :=
    decide_eq_true (PathTree.Same.refl _)
  have hlisted := listed_renewAll catalogue games u user db renewals db game.name
  refine (single_iff hanswers).mpr fun k hk => ?_
  cases hplatform : platformOf games game.name with
  | none =>
    simp only [hplatform] at hcleaned hlisted
    by_contra hne
    exact hcleaned k ((hlisted k).mpr ⟨hk, fun _ => hne⟩)
  | some platform =>
    simp only [hplatform] at hcleaned hlisted
    obtain ⟨only, honly⟩ := hcleaned
    obtain ⟨x, hx, hname⟩ := hgame
    have hentry := (honly _).mp ((hlisted _).mpr (Or.inr ⟨x, hx, hname, rfl⟩))
    rw [← (honly k).mp ((hlisted k).mpr (Or.inl hk))] at hentry
    cases hfirst : foundKey u game.name db with
    | some k' => rw [hfirst, Option.getD_some] at hentry; rw [← hentry]; exact hfirst
    | none =>
      rw [hfirst, Option.getD_none] at hentry
      have hhas : db.has (lfgRef game.name ++ [k]) = true :=
        PathTree.has_of_leafAt (q := ["username"]) (v := .str u)
          (by rw [List.append_assoc]; exact hk)
      rw [← hentry, hnew x hx] at hhas
      cases hhas

/-- Two callbacks that both push an entry leave two. -/
theorem countP_of_renewAll {user : User} {ids : List String} {game : Game}
    (hlength : ids.length = catalogue.length) (hnodup : ids.Nodup)
    {k : String} (honly : ∀ k', Listed (lfgRef game.name) u
      (renewAll catalogue u user games db (catalogue.zip ids) db) k' ↔ k' = k)
    (hplatform : platformOf games game.name ≠ none)
    (hempty : ∀ k, ¬ Listed (lfgRef game.name) u db k) :
    (catalogue.countP fun other => decide (other.name = game.name)) ≤ 1 := by
  have hnone : foundKey u game.name db = none := by
    cases hfirst : foundKey u game.name db with
    | none => rfl
    | some k' =>
      exact (hempty k' (listed_of_firstKey (decide_eq_true (PathTree.Same.refl _)) hfirst)).elim
  obtain ⟨platform, hsome⟩ := Option.ne_none_iff_exists'.mp hplatform
  have hlisted := listed_renewAll catalogue games u user db (catalogue.zip ids) db game.name
  simp only [hsome, hnone, Option.getD_none] at hlisted
  -- the new keys of the callbacks of this list are all the only key
  let mine := (catalogue.zip ids).filter fun x => decide (x.1.name = game.name)
  have hkeys : ∀ id ∈ mine.map Prod.snd, id = k := by
    intro id hid
    obtain ⟨x, hx, rfl⟩ := List.mem_map.mp hid
    obtain ⟨hmem, hname⟩ := List.mem_filter.mp hx
    exact (honly _).mp ((hlisted _).mpr (Or.inr ⟨x, hmem, of_decide_eq_true hname, rfl⟩))
  have hdistinct : (mine.map Prod.snd).Nodup := by
    have hsub : (mine.map Prod.snd).Sublist ids := by
      have hzip : (catalogue.zip ids).map Prod.snd = ids := List.map_snd_zip hlength.le
      exact hzip ▸ (List.filter_sublist.map Prod.snd)
    exact hnodup.sublist hsub
  rw [List.eq_replicate_of_mem hkeys, List.nodup_replicate, List.length_map] at hdistinct
  have hcount : (catalogue.countP fun other => decide (other.name = game.name)) = mine.length := by
    have hzip : (catalogue.zip ids).map Prod.fst = catalogue := List.map_fst_zip hlength.ge
    calc (catalogue.countP fun other => decide (other.name = game.name))
        = ((catalogue.zip ids).map Prod.fst).countP fun other =>
            decide (other.name = game.name) := by rw [hzip]
      _ = mine.length := by
        rw [List.countP_map, List.countP_eq_length_filter]
        rfl
  rw [hcount]
  exact hdistinct

/-- Every list is renewed. -/
theorem renewal_of_mem {ids : List String} {game : Game} (hgame : game ∈ catalogue)
    (hlength : ids.length = catalogue.length) :
    ∃ x ∈ catalogue.zip ids, x.1.name = game.name := by
  have hzip : (catalogue.zip ids).map Prod.fst = catalogue := List.map_fst_zip hlength.ge
  rw [← hzip] at hgame
  obtain ⟨x, hx, rfl⟩ := List.mem_map.mp hgame
  exact ⟨x, hx, rfl⟩

variable (games u) in
/-- **A list that is as it should be** after a renewal from one snapshot could be repaired. -/
theorem repairable_of_renewAll (user : User) {ids : List String} {game : Game}
    (hgame : game ∈ catalogue) (hlength : ids.length = catalogue.length) (hnodup : ids.Nodup)
    (hnew : ∀ id ∈ ids, ∀ list, db.has (list ++ [id]) = false)
    (hcleaned : match platformOf games game.name with
      | some _ => ∃ k, ∀ k', Listed (lfgRef game.name) u
          (renewAll catalogue u user games db (catalogue.zip ids) db) k' ↔ k' = k
      | none => ∀ k, ¬ Listed (lfgRef game.name) u
          (renewAll catalogue u user games db (catalogue.zip ids) db) k) :
    RepairableList catalogue games u game.name db := by
  have hpos : 0 < catalogue.countP fun other => decide (other.name = game.name) :=
    List.countP_pos_iff.mpr ⟨game, hgame, decide_eq_true rfl⟩
  refine ⟨single_of_renewAll hcleaned (renewal_of_mem hgame hlength)
    fun x hx => hnew x.2 (List.of_mem_zip hx).2,
    fun hplatform hempty => ?_⟩
  obtain ⟨platform, hsome⟩ := Option.ne_none_iff_exists'.mp hplatform
  simp only [hsome] at hcleaned
  obtain ⟨k, honly⟩ := hcleaned
  have hle := countP_of_renewAll hlength hnodup honly hplatform hempty
  omega

variable (client) in
theorem repairable_of_cleaned (h : ∀ t, EndsAlone catalogue client
    (updateUserLFG client.user games) db t → Cleaned catalogue games client.user t.store) :
    Repairable catalogue games client.user db := by
  rw [Repairable]
  cases hread : fetchedUser (db.sub (userRef client.user)) with
  | none =>
    obtain ⟨t, events, run, hrest⟩ :=
      exists_unread catalogue client games (usedKeys db) hread
    have hcleaned := h t ⟨usedKeys db, "", events, mem_usedKeys db, run, hrest⟩
    rwa [store_of_unread hread (renewing_begun catalogue client games db _ _)
      (unread_begun client games db _ _) run hrest] at hcleaned
  | some user =>
    obtain ⟨t, events, ids, run, hrest, hlength, hnodup, hnew, hstore⟩ :=
      exists_undisturbed catalogue client games hread (List.Subset.refl (usedKeys db))
    have hcleaned := h t ⟨usedKeys db, "", events, mem_usedKeys db, run, hrest⟩
    rw [hstore] at hcleaned
    exact fun game hgame => repairable_of_renewAll games client.user user hgame hlength hnodup hnew
      (hcleaned game hgame)

/-! ### Going offline -/

/-- The state in which a session has gone offline. -/
abbrev offlineBegun (client : Session) (game : Game) (db : Tree) (ids : List String)
    (id : String) : State :=
  (State.initial db ids).issue client id (goOfflineForGame client.user game)

/-- The database once the user plays nothing. -/
def notPlaying (u : String) (db : Tree) : Tree :=
  (Write.removeValue (currentlyPlayingRef u)).apply db

/-- The query for the user's entries among those who play the game. -/
abbrev onlineQuery (u : String) (game : Game) : Query :=
  .equal (onlineRef game.name) "username" u

theorem unchanged_notPlaying {ref : Ref} (h : Incomparable (currentlyPlayingRef u) ref) :
    Unchanged ref db (notPlaying u db) :=
  unchanged_of_beside h

theorem listed_notPlaying (game : Game) (v k : String) :
    Listed (onlineRef game.name) v (notPlaying u db) k ↔ Listed (onlineRef game.name) v db k :=
  (unchanged_notPlaying (by simp [Incomparable])).listed k

/-- Going offline under way: the entries are asked for, found, or the first one is removed. -/
inductive GoingOffline (client : Session) (game : Game) (db : Tree) :
    List PendingCall → List PendingAnswer → Tree → Prop
  | asked : GoingOffline client game db
      [⟨client, onlineQuery client.user game, .goOfflineForGame game⟩] []
      (notPlaying client.user db)
  | found {response : Tree}
      (h : (onlineQuery client.user game).answers (notPlaying client.user db) response = true) :
      GoingOffline client game db []
        [⟨client, onlineQuery client.user game, .goOfflineForGame game, response⟩]
        (notPlaying client.user db)
  | done {response : Tree}
      (h : (onlineQuery client.user game).answers (notPlaying client.user db) response = true) :
      GoingOffline client game db [] []
        (applied [] (goOfflineForGameRead game response) (notPlaying client.user db))

theorem GoingOffline.step {game : Game}
    (h : GoingOffline client game db s.calls s.answers ((app catalogue).flush s))
    (hactive : Active client s) {e : Event} (hquiet : undisturbed e = true) (horder : InOrder s e)
    (hst : (app catalogue).step s e = some t) :
    GoingOffline client game db t.calls t.answers ((app catalogue).flush t) := by
  cases quiet_of_undisturbed hactive hquiet horder hst with
  | kept hflush hcalls hanswers =>
    rw [hflush, hcalls, hanswers]
    exact h
  | served before c after response hasked hanswer hflush hcalls hanswers =>
    rw [hflush, hcalls, hanswers]
    generalize (app catalogue).flush s = stored at h hanswer ⊢
    generalize s.answers = answers at h ⊢
    rw [hasked] at h
    generalize hall : before ++ c :: after = calls at h
    cases h with
    | asked =>
      obtain ⟨rfl, rfl, rfl⟩ : before = [] ∧ c = _ ∧ after = [] := by
        simpa [List.append_eq_cons_iff] using hall
      exact .found hanswer
    | found hresponse => simp at hall
    | done hresponse => simp at hall
  | resumed before a after id hanswered hmintable hfresh hflush hcalls hanswers =>
    rw [hflush, hcalls, hanswers]
    generalize (app catalogue).flush s = stored at h ⊢
    generalize s.calls = calls at h ⊢
    rw [hanswered] at h
    generalize hall : before ++ a :: after = answers at h
    cases h with
    | asked => simp at hall
    | @found response hresponse =>
      obtain ⟨rfl, rfl, rfl⟩ : before = [] ∧ a = _ ∧ after = [] := by
        simpa [List.append_eq_cons_iff] using hall
      have hnocalls : (goOfflineForGameRead game response).filterMap Command.call? = [] := by
        rw [goOfflineForGameRead]
        split <;> rfl
      rw [app_resume, resume_goOfflineForGame, hnocalls]
      exact .done hresponse
    | done hresponse => simp at hall

variable (catalogue) in
/-- Only the first of the user's entries is removed. -/
theorem listed_goOfflineForGameRead {game : Game} {response : Tree} (k : String)
    (hanswer : (onlineQuery u game).answers db response = true) :
    (Listed (onlineRef game.name) u (applied catalogue (goOfflineForGameRead game response) db) k ↔
      Listed (onlineRef game.name) u db k ∧ firstKey response ≠ some k) ∧
    OthersKept [onlineRef game.name] [] u db
      (applied catalogue (goOfflineForGameRead game response) db) := by
  rw [goOfflineForGameRead_eq]
  cases hfirst : firstKey response with
  | none =>
    exact ⟨by simp [applied, applyAll], fun _ _ _ _ _ _ _ => rfl, fun _ _ _ => rfl⟩
  | some k' =>
    refine ⟨?_, fun list hlist v' k₂ hne hk₂ => ?_, fun ref href => ?_⟩
    · refine (listed_removeEntry k).trans (and_congr_right fun _ => ?_)
      rw [ne_eq, ne_eq, Option.some.injEq, eq_comm]
    · obtain rfl := List.mem_singleton.mp hlist
      have hmine := listed_of_firstKey hanswer hfirst
      refine unchanged_of_beside (w := .removeValue (onlineRef game.name ++ [k'])) ?_
      have hdiff : k' ≠ k₂ := by
        rintro rfl
        refine hne ?_
        simpa using hk₂.symm.trans hmine
      change Incomparable (onlineRef game.name ++ [k']) (onlineRef game.name ++ [k₂])
      rw [Incomparable.append_left]
      simp [Incomparable, hdiff, Ne.symm hdiff]
    · refine unchanged_of_beside (w := .removeValue (onlineRef game.name ++ [k'])) ?_
      exact Incomparable.of_prefix (href _ (by simp)) (List.prefix_append _ _)

/-- Whatever order its parts run in, going offline ends with one snapshot's first key removed. -/
theorem offline_done {game : Game}
    (h : EndsAlone catalogue client (goOfflineForGame client.user game) db t) :
    ∃ response, (onlineQuery client.user game).answers (notPlaying client.user db) response = true ∧
      t.store = applied catalogue (goOfflineForGameRead game response)
        (notPlaying client.user db) := by
  obtain ⟨ids, id, events, -, run, hrest⟩ := h
  have hstart : Active client (offlineBegun client game db ids id) := by
    refine ⟨fun e he => ?_, fun c hc => ?_, fun a ha => (by cases ha)⟩
    · rw [List.mem_singleton.mp he]
    · rw [List.mem_singleton.mp hc]
  obtain ⟨-, hend⟩ := run.invariant
    (fun s => Active client s ∧
      GoingOffline client game db s.calls s.answers ((app catalogue).flush s))
    (fun s e v hs hok hst => ⟨hs.1.step (fun _ _ _ he => by subst he; cases hok.1) hst,
      hs.2.step hs.1 hok.1 hok.2 hst⟩)
    ⟨hstart, .asked⟩
  rw [flush_of_quiescent hrest, hrest.2.1, hrest.2.2] at hend
  generalize hstore : t.store = stored at hend
  cases hend with
  | @done response hresponse => exact ⟨response, hresponse, rfl⟩

theorem exists_offline (catalogue : List Game) (client : Session) (game : Game) (db : Tree) :
    ∃ t, EndsAlone catalogue client (goOfflineForGame client.user game) db t := by
  let ok : State → Event → Prop := fun s e => undisturbed e = true ∧ InOrder s e
  let begun := offlineBegun client game db (usedKeys db) ""
  let respond : PendingCall → Tree := fun c => c.request.snapshot ((app catalogue).view begun
    c.client)
  obtain ⟨events, run⟩ := serve_all (P := app catalogue) ok (fun _ _ _ _ => rfl)
    (fun _ _ => ⟨rfl, trivial⟩) begun respond
    (fun c _ => decide_eq_true (PathTree.Same.refl _))
  obtain ⟨ids, hlength, -, -, events', run'⟩ := resume_all (P := app catalogue) ok
    (exists_mintable catalogue) (fun _ _ => ⟨rfl, trivial⟩) (served begun respond)
  obtain ⟨events'', run''⟩ := deliver_all (P := app catalogue) ok
    (fun _ => ⟨rfl, fun _ _ e' he' => by cases he'⟩)
    ((app catalogue).resumed ((served begun respond).answers.zip ids)
      { served begun respond with answers := [] })
  obtain ⟨id, rfl⟩ := List.length_eq_one_iff.mp hlength
  have hnocalls : ∀ x ∈ (served begun respond).answers.zip [id], ((app catalogue).resume
      x.1.client x.1.callback x.1.response x.2).filterMap Command.call? = [] := by
    intro x hx
    obtain rfl := List.mem_singleton.mp hx
    change (goOfflineForGameRead game _).filterMap Command.call? = []
    rw [goOfflineForGameRead]
    split <;> rfl
  obtain ⟨hcalls, hanswers⟩ := calls_resumed hnocalls { served begun respond with answers := [] }
  exact ⟨_, usedKeys db, "", _, mem_usedKeys db, (run.append run').append run'', rfl, hcalls,
    hanswers⟩

theorem goOffline_leaves {game : Game}
    (h : EndsAlone catalogue client (goOfflineForGame client.user game) db t) :
    OthersKept [onlineRef game.name] [currentlyPlayingRef client.user] client.user db t.store ∧
      ((∀ k, ¬ Listed (onlineRef game.name) client.user t.store k) ↔
        Single (onlineRef game.name) client.user db) := by
  obtain ⟨response, hanswer, hstore⟩ := offline_done h
  have hsingle : Single (onlineRef game.name) client.user (notPlaying client.user db) ↔
      Single (onlineRef game.name) client.user db :=
    ⟨fun h => h.congr fun k => (listed_notPlaying game _ k).symm,
      fun h => h.congr fun k => listed_notPlaying game _ k⟩
  rw [hstore]
  refine ⟨⟨fun list hlist v k hne hk => ?_, fun ref href => ?_⟩, ?_⟩
  · have hkept := (listed_goOfflineForGameRead catalogue k hanswer).2
    obtain rfl := List.mem_singleton.mp hlist
    have hfirst : Unchanged (onlineRef game.name ++ [k]) db (notPlaying client.user db) :=
      unchanged_notPlaying (by simp [Incomparable])
    exact hfirst.trans (hkept.entries _ hlist v k hne ((listed_notPlaying game v k).mpr hk))
  · have hkept := (listed_goOfflineForGameRead catalogue "" hanswer).2
    have hfirst : Unchanged ref db (notPlaying client.user db) :=
      unchanged_notPlaying (href _ (by simp))
    refine hfirst.trans (hkept.elsewhere ref fun list hlist => href list ?_)
    exact List.mem_append_left _ (by simpa using hlist)
  · rw [← hsingle, single_iff hanswer]
    refine forall_congr' fun k => ?_
    rw [(listed_goOfflineForGameRead _ k hanswer).1, not_and, not_not]

/-- **What is cleaned up.**  Entries of others are kept in every undisturbed run.  A renewal
    leaves the lists as the games ask for it exactly if the user has one readable entry at
    most in each of them, going offline under the same condition on the online list. -/
theorem lists_cleaned (catalogue games : List Game) (client : Session) (game : Game) (db : Tree) :
    (∀ t, EndsAlone catalogue client (updateUserLFG client.user games) db t →
      OthersKept (listRefs catalogue) [] client.user db t.store) ∧
    ((∀ t, EndsAlone catalogue client (updateUserLFG client.user games) db t →
      Cleaned catalogue games client.user t.store) ↔
        Repairable catalogue games client.user db) ∧
    (∀ t, EndsAlone catalogue client (goOfflineForGame client.user game) db t →
      OthersKept [onlineRef game.name] [currentlyPlayingRef client.user] client.user db t.store) ∧
    ((∀ t, EndsAlone catalogue client (goOfflineForGame client.user game) db t →
      ∀ k, ¬ Listed (onlineRef game.name) client.user t.store k) ↔
        Single (onlineRef game.name) client.user db) := by
  refine ⟨fun t => othersKept_renewal, ⟨repairable_of_cleaned client,
    fun h t => cleaned_of_repairable h⟩,
    fun t ht => (goOffline_leaves ht).1, fun h => ?_, fun h t ht => (goOffline_leaves ht).2.mpr h⟩
  obtain ⟨t, ht⟩ := exists_offline catalogue client game db
  exact (goOffline_leaves ht).2.mp (h t ht)

/-- Alice has two entries in the list of chess, and two among those who play it. -/
def listedTwice : Tree :=
  [lfgRef "chess", onlineRef "chess"].foldl
    (fun db list => ["-1", "-2"].foldl
      (fun db key => db.put (list ++ [key, "username"]) (Tree.str "alice1")) db) newcomer

theorem not_always_cleaned :
    (¬ ∀ t, EndsAlone [chess] ⟨"alice1", 1⟩ (updateUserLFG "alice1" [chess]) listedTwice t →
      Cleaned [chess] [chess] "alice1" t.store) ∧
    ¬ ∀ t, EndsAlone [chess] ⟨"alice1", 1⟩ (goOfflineForGame "alice1" chess) listedTwice t →
      ∀ k, ¬ Listed (onlineRef "chess") "alice1" t.store k := by
  constructor
  · intro hall
    have hrepairable := repairable_of_cleaned ⟨"alice1", 1⟩ hall
    have hread : (fetchedUser (listedTwice.sub (userRef "alice1"))).isSome = true := by
      decide +kernel
    obtain ⟨user, huser⟩ := Option.isSome_iff_exists.mp hread
    rw [Repairable, huser] at hrepairable
    have hsame := (hrepairable chess (by simp)).1.only "-1" "-2" (by decide +kernel)
      (by decide +kernel)
    exact absurd hsame (by decide)
  · intro hall
    obtain ⟨t, ht⟩ := exists_offline [chess] ⟨"alice1", 1⟩ chess listedTwice
    have hsame := ((goOffline_leaves ht).2.mp (hall t ht)).only "-1" "-2" (by decide +kernel)
      (by decide +kernel)
    exact absurd hsame (by decide)

end TeamUp
