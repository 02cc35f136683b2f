import Mathlib.Algebra.GroupWithZero.Nat
import TeamUp.ProfileEdits

/-!
# Renewals of the lists

One call of `updateUserLFG` on an otherwise idle database.  The lists are renewed by
callbacks that run in any order, each on one entry of its list: the first one found, or a
new one.  What is said here is about one such renewal under way: which entries it can
touch, and what is left to do for each list.
-/

namespace TeamUp

open Protocol

/-! ### The first key -/

/-- The user has at most one entry in the list, and not under a key that alone would make
    the answer an array. -/
structure Single (list : Ref) (u : String) (db : Tree) : Prop where
  only : ∀ k k', Listed list u db k → Listed list u db k' → k' = k
  key : ∀ k, Listed list u db k → ∀ n, Tree.integerKey k = some n → 2 ≤ n

variable {list : Ref} {u g k : String} {db db' snapshot : Tree}

theorem Single.congr (h : Single list u db)
    (hlisted : ∀ k, Listed list u db' k ↔ Listed list u db k) : Single list u db' := by
  refine ⟨fun k k' hk hk' => ?_, fun k hk => ?_⟩
  · exact h.only k k' ((hlisted k).mp hk) ((hlisted k').mp hk')
  · exact h.key k ((hlisted k).mp hk)

theorem Single.of_none (h : ∀ k, ¬ Listed list u db k) : Single list u db :=
  ⟨fun k _ hk => (h k hk).elim, fun k hk => (h k hk).elim⟩

/-- The only key of an answer: whether it is taken depends on the key alone. -/
theorem firstKey_of_keys (hroot : snapshot.leafAt [] = none) (hkeys : snapshot.keys = [k]) :
    firstKey snapshot = some k ↔ ∀ n, Tree.integerKey k = some n → 2 ≤ n := by
  have hempty : snapshot.isEmpty = false := by
    have hmem : k ∈ snapshot.keys := by
      rw [hkeys]
      exact List.mem_singleton.mpr rfl
    obtain ⟨q, hq⟩ := PathTree.has_iff_leafAt.mp (PathTree.mem_keys.mp hmem)
    exact Bool.eq_false_iff.mpr fun htrue => hq (PathTree.isEmpty_iff.mp htrue _)
  have harray : snapshot.exportsArray = false ↔ ∀ n, Tree.integerKey k = some n → 2 ≤ n := by
    rw [Tree.exportsArray, hkeys]
    cases hint : Tree.integerKey k with
    | none => simp [hint]
    | some n =>
      have hindexed : [k].all (fun k => (Tree.integerKey k).isSome) = true := by simp [hint]
      have hlargest : List.foldl max 0 (List.filterMap Tree.integerKey [k]) = n := by simp [hint]
      rw [hindexed, hlargest, Bool.true_and, decide_eq_false_iff_not, Nat.not_lt]
      exact ⟨fun h _ hn => Option.some.inj hn ▸ h, fun h => h n rfl⟩
  rw [← harray, firstKey, Tree.asDictionary, hempty, hroot]
  cases snapshot.exportsArray with
  | true => simp
  | false => simp [hkeys]

theorem keys_of_only (h : (Query.equal list "username" u).answers db snapshot = true)
    (hk : Listed list u db k) (honly : ∀ k', Listed list u db k' → k' = k) :
    snapshot.keys = [k] := by
  have hnodup : snapshot.keys.Nodup := List.nodup_dedup _
  refine List.perm_singleton.mp ((List.perm_ext_iff_of_nodup hnodup
    (List.nodup_singleton k)).mpr fun k' => ?_)
  rw [mem_keys_answer h, List.mem_singleton]
  exact ⟨honly k', fun heq => heq ▸ hk⟩

/-- **The first key is the only one** exactly if there is one at most and it can be read. -/
theorem single_iff (h : (Query.equal list "username" u).answers db snapshot = true) :
    Single list u db ↔ ∀ k, Listed list u db k → firstKey snapshot = some k := by
  have hsame : PathTree.Same snapshot ((Query.equal list "username" u).snapshot db) :=
    of_decide_eq_true h
  have hroot : snapshot.leafAt [] = none := by
    rw [hsame.leafAt]
    exact PathTree.leafAt_filterKeys_nil _ _
  constructor
  · intro hsingle k hk
    have hkeys := keys_of_only h hk fun k' hk' => hsingle.only k k' hk hk'
    exact (firstKey_of_keys hroot hkeys).mpr (hsingle.key k hk)
  · intro hfound
    have honly : ∀ k k', Listed list u db k → Listed list u db k' → k' = k :=
      fun k k' hk hk' => Option.some.inj ((hfound k' hk').symm.trans (hfound k hk))
    refine ⟨honly, fun k hk => ?_⟩
    have hkeys := keys_of_only h hk fun k' hk' => honly k k' hk hk'
    exact (firstKey_of_keys hroot hkeys).mp (hfound k hk)

/-! ### What one callback does to a list -/

/-- The key a list's callback writes at. -/
def entryKey (snapshot : Tree) (freshId : String) : String := (firstKey snapshot).getD freshId

variable {catalogue games : List Game}

/-- The writes a list's callback issues: one of one entry, or none. -/
theorem writes_updateGameLFGRead (u : String) (user : User) (games : List Game) (game : Game)
    (snapshot : Tree) (freshId : String) :
    (updateGameLFGRead game games (lfgDictionary u user games game) snapshot freshId).filterMap
        Command.write? =
      match platformOf games game.name, firstKey snapshot with
      | some platform, _ => [.updateChildValues (lfgRef game.name ++ [entryKey snapshot freshId])
          (entryValues u user platform)]
      | none, some k => [.removeValue (lfgRef game.name ++ [k])]
      | none, none => [] := by
  rw [updateGameLFGRead_eq, entryKey]
  cases firstKey snapshot <;> cases platformOf games game.name <;> rfl

theorem ref_updateGameLFGRead {user : User} {game : Game} {freshId : String} {w : Write}
    (hw : w ∈ (updateGameLFGRead game games (lfgDictionary u user games game) snapshot
      freshId).filterMap Command.write?) :
    w.ref = lfgRef game.name ++ [entryKey snapshot freshId] := by
  rw [writes_updateGameLFGRead] at hw
  split at hw
  · rw [List.mem_singleton.mp hw]
    rfl
  · rename_i hfirst
    rw [List.mem_singleton.mp hw, entryKey, hfirst]
    rfl
  · cases hw

/-- What is stored once the writes among some commands have been applied. -/
abbrev applied (catalogue : List Game) (commands : Commands) (db : Tree) : Tree :=
  (app catalogue).applyAll (commands.filterMap Command.write?) db

variable (u db catalogue games) in
/-- **A list's callback** changes the entry under its key only. -/
theorem listed_updateGameLFGRead (user : User) (game : Game) (snapshot : Tree)
    (freshId g k : String) :
    Listed (lfgRef g) u (applied catalogue (updateGameLFGRead game games
        (lfgDictionary u user games game) snapshot freshId) db) k ↔
      if game.name = g then
        match platformOf games g with
        | some _ => k = entryKey snapshot freshId ∨ Listed (lfgRef g) u db k
        | none => Listed (lfgRef g) u db k ∧ firstKey snapshot ≠ some k
      else Listed (lfgRef g) u db k := by
  rw [applied, writes_updateGameLFGRead]
  by_cases hname : game.name = g
  · subst hname
    rw [if_pos rfl]
    cases platformOf games game.name with
    | some platform =>
      exact listed_updateEntry (nodup_entryValues u user platform) (by simp [entryValues]) k
    | none =>
      cases firstKey snapshot with
      | some k' =>
        refine (listed_removeEntry k).trans (and_congr_right fun _ => ?_)
        rw [ne_eq, ne_eq, Option.some.injEq, eq_comm]
      | none => exact (and_iff_left (Option.some_ne_none k).symm).symm
  · rw [if_neg hname]
    -- a write of one list's entry is beside every other list
    have hother : ∀ w : Write, ∀ k', w.ref = lfgRef game.name ++ [k'] →
        (Listed (lfgRef g) u (w.apply db) k ↔ Listed (lfgRef g) u db k) :=
      fun w k' hw => ((unchanged_of_entry (u := u) hw).2 g (Ne.symm hname)).listed k
    split
    · rename_i platform _
      exact hother (.updateChildValues _ (entryValues u user platform)) _ rfl
    · exact hother (.removeValue _) _ rfl
    · exact Iff.rfl

/-! ### One renewal of the lists -/

/-- What one call of `updateUserLFG` asks for. -/
inductive Renewal (catalogue : List Game) (u : String) (games : List Game) :
    Query → Callback → Prop
  | user : Renewal catalogue u games (.value (userRef u)) (.updateUserLFG u games)
  | list {game : Game} (hgame : game ∈ catalogue) (user : User) :
      Renewal catalogue u games (listQuery u game)
        (.updateGameLFG game games (lfgDictionary u user games game))

/-- How many callbacks of the list of the game are still to run. -/
def Callback.rounds (catalogue : List Game) (g : String) : Callback → Nat
  | .updateUserLFG _ _ => catalogue.countP fun game => decide (game.name = g)
  | .updateGameLFG game _ _ => if game.name = g then 1 else 0
  | _ => 0

def rounds (catalogue : List Game) (g : String) (s : State) : Nat :=
  (s.calls.map fun c => c.callback.rounds catalogue g).sum +
    (s.answers.map fun a => a.callback.rounds catalogue g).sum

/-- An entry the user had in the list, or one under a new key. -/
def Own (list : Ref) (u : String) (db : Tree) (ids : List String) (k : String) : Prop :=
  Listed list u db k ∨ k ∉ ids

/-- A renewal under way, from this database. -/
structure Renewing (catalogue : List Game) (client : Session) (games : List Game) (db : Tree)
    (ids : List String) (s : State) : Prop where
  active : Active client s
  issued : Issued (fun _ _ => True) (fun _ => Renewal catalogue client.user games) s
  minted : ids ⊆ s.minted
  entries : ∀ game ∈ catalogue, ∀ k, ¬ Own (lfgRef game.name) client.user db ids k →
    Unchanged (lfgRef game.name ++ [k]) db ((app catalogue).flush s)
  elsewhere : ∀ ref, (∀ game ∈ catalogue, Incomparable (lfgRef game.name) ref) →
    Unchanged ref db ((app catalogue).flush s)
  own : ∀ a ∈ s.answers, ∀ game lfgDictionary k,
    a.callback = .updateGameLFG game games lfgDictionary → firstKey a.response = some k →
    Own (lfgRef game.name) client.user db ids k
  read : ∀ a ∈ s.answers, a.callback = .updateUserLFG client.user games →
    (fetchedUser a.response).isSome = (fetchedUser (db.sub (userRef client.user))).isSome

variable {client : Session} {ids : List String} {s t : State}

theorem Renewal.permitted {request : Query} {callback : Callback}
    (h : Renewal catalogue u games request callback) (client : Session) (snapshot : Tree)
    (id : String) :
    Permitted (fun _ _ => True) (fun _ => Renewal catalogue u games) client
      (resume catalogue callback snapshot id) := by
  refine ⟨fun _ _ => trivial, fun request' callback' hmem => ?_⟩
  cases h with
  | user =>
    simp only [resume, updateUserLFGRead] at hmem
    split at hmem
    · obtain ⟨game, hgame, heq⟩ := List.mem_map.mp hmem
      obtain ⟨rfl, rfl⟩ := Command.call.inj heq
      exact .list hgame _
    · cases hmem
  | list hgame user =>
    simp only [resume, updateGameLFGRead_eq] at hmem
    split at hmem <;> simp at hmem

/-- The user's entries are own ones as long as the others are unchanged. -/
theorem Renewing.listed (h : Renewing catalogue client games db ids s) {game : Game}
    (hgame : game ∈ catalogue)
    (hk : Listed (lfgRef game.name) client.user ((app catalogue).flush s) k) :
    Own (lfgRef game.name) client.user db ids k := by
  by_contra hown
  have hsame := h.entries game hgame k hown ["username"]
  rw [List.append_assoc] at hsame
  exact hown (Or.inl (hsame.symm.trans hk))

theorem isSome_fetchedUser {t t' : Tree} (h : PathTree.Same t t') :
    (fetchedUser t).isSome = (fetchedUser t').isSome := by
  have hidentity := congrArg Option.isSome (User.identity_congr h)
  rwa [Option.isSome_map, Option.isSome_map] at hidentity

/-- Nothing is started while a run is under way. -/
def undisturbed : Event → Bool
  | .start _ _ _ => false
  | _ => true

theorem quiet_of_undisturbed {e : Event} (h : Active client s) (hquiet : undisturbed e = true)
    (horder : InOrder s e) (hst : (app catalogue).step s e = some t) :
    (app catalogue).Quiet s t := by
  refine h.quiet (fun _ _ _ _ => rfl) ?_ horder hst
  rintro client' op id rfl
  cases hquiet

theorem Renewing.serve (h : Renewing catalogue client games db ids s) {index : Nat}
    {response : Tree} (hst : (app catalogue).step s (.serve index response) = some t) :
    Renewing catalogue client games db ids t := by
  have hactive := h.active.step (fun _ _ _ he => by cases he) hst
  have hissued := h.issued.step (fun _ _ _ he => by cases he)
    (fun client' request callback response' id hc => hc.permitted client' response' id) hst
  obtain ⟨before, c, after, hcalls, -, hanswers, rfl⟩ := step_serve _ hst
  have hc : c ∈ s.calls := mem_of_split hcalls
  have hrenewal := h.issued.calls c hc
  rw [h.active.calls c hc, view_eq_flush h.active.writes] at hanswers
  have hanswer : c.request.answers ((app catalogue).flush s) response = true := hanswers
  obtain ⟨asking, request, callback⟩ := c
  refine ⟨hactive, hissued, h.minted, h.entries, h.elsewhere, fun a ha => ?_, fun a ha => ?_⟩
  · rcases List.mem_append.mp ha with hold | hnew
    · exact h.own a hold
    · obtain rfl := List.mem_singleton.mp hnew
      intro game lfgDictionary k hcallback hk
      dsimp only at hcallback hrenewal hanswer
      rw [hcallback] at hrenewal
      cases hrenewal with
      | list hgame user => exact h.listed hgame (listed_of_firstKey hanswer hk)
  · rcases List.mem_append.mp ha with hold | hnew
    · exact h.read a hold
    · obtain rfl := List.mem_singleton.mp hnew
      intro hcallback
      dsimp only at hcallback hrenewal hanswer
      rw [hcallback] at hrenewal
      cases hrenewal with
      | user =>
        have hsame : PathTree.Same response (((app catalogue).flush s).sub
          (userRef client.user)) := of_decide_eq_true hanswer
        have hrecord := h.elsewhere (userRef client.user) fun game _ => by simp [Incomparable]
        exact (isSome_fetchedUser hsame).trans (isSome_fetchedUser hrecord.same)

theorem Unchanged.trans {ref : Ref} {db'' : Tree} (h : Unchanged ref db db')
    (h' : Unchanged ref db' db'') : Unchanged ref db db'' :=
  fun q => (h' q).trans (h q)

variable (catalogue) in
/-- Writes beside a reference leave it alone. -/
theorem unchanged_applied {ref : Ref} {commands : Commands}
    (h : ∀ w ∈ commands.filterMap Command.write?, Incomparable w.ref ref) :
    Unchanged ref db (applied catalogue commands db) := by
  rw [applied]
  revert h
  generalize commands.filterMap Command.write? = writes
  intro h
  induction writes generalizing db with
  | nil => exact fun _ => rfl
  | cons w rest ih =>
    have hfirst : Unchanged ref db (w.apply db) :=
      unchanged_of_beside (h w List.mem_cons_self)
    exact hfirst.trans (ih fun w' hw' => h w' (List.mem_cons_of_mem w hw'))

/-- The key a pending callback of a list writes at is an own one. -/
theorem Renewing.entryKey (h : Renewing catalogue client games db ids s) {a : PendingAnswer}
    (ha : a ∈ s.answers) {game : Game} {lfgDictionary : Option Dictionary}
    (hcallback : a.callback = .updateGameLFG game games lfgDictionary) {id : String}
    (hid : id ∉ s.minted) :
    Own (lfgRef game.name) client.user db ids (entryKey a.response id) := by
  rw [TeamUp.entryKey]
  cases hfirst : firstKey a.response with
  | some k => exact h.own a ha game lfgDictionary k hcallback hfirst
  | none => exact Or.inr fun hmem => hid (h.minted hmem)

theorem incomparable_entries {g g' k k' : String} (h : g = g' → k ≠ k') :
    Incomparable (lfgRef g ++ [k]) (lfgRef g' ++ [k']) := by
  by_cases hg : g = g'
  · subst hg
    rw [Incomparable.append_left]
    simp [Incomparable, h rfl, Ne.symm (h rfl)]
  · simp [Incomparable, hg, Ne.symm hg]

theorem Renewing.resume (h : Renewing catalogue client games db ids s) {index : Nat} {id : String}
    (hst : (app catalogue).step s (.resume index id) = some t) :
    Renewing catalogue client games db ids t := by
  have hactive := h.active.step (fun _ _ _ he => by cases he) hst
  have hissued := h.issued.step (fun _ _ _ he => by cases he)
    (fun client' request callback response' id hc => hc.permitted client' response' id) hst
  obtain ⟨before, a, after, hanswers, -, -, hid, heq⟩ := step_resume _ hst
  have ha : a ∈ s.answers := mem_of_split hanswers
  have hrest : t.answers ⊆ s.answers := by
    rw [heq, hanswers]
    exact (split_sublist before a after).subset
  have hflush : (app catalogue).flush t =
      applied catalogue ((app catalogue).resume a.client a.callback a.response id)
        ((app catalogue).flush s) := by
    rw [heq, flush_issue]
    rfl
  have hminted : ids ⊆ t.minted := by
    rw [heq]
    exact fun k hk => List.mem_cons_of_mem id (h.minted hk)
  suffices hwrites : (∀ game ∈ catalogue, ∀ k, ¬ Own (lfgRef game.name) client.user db ids k →
      Unchanged (lfgRef game.name ++ [k]) ((app catalogue).flush s) ((app catalogue).flush t)) ∧
      ∀ ref, (∀ game ∈ catalogue, Incomparable (lfgRef game.name) ref) →
        Unchanged ref ((app catalogue).flush s) ((app catalogue).flush t) from
    ⟨hactive, hissued, hminted,
      fun game hgame k hown => (h.entries game hgame k hown).trans (hwrites.1 game hgame k hown),
      fun ref href => (h.elsewhere ref href).trans (hwrites.2 ref href),
      fun a' ha' => h.own a' (hrest ha'), fun a' ha' => h.read a' (hrest ha')⟩
  have hrenewal := h.issued.answers a ha
  have hkey : ∀ game lfgDictionary, a.callback = .updateGameLFG game games lfgDictionary →
      Own (lfgRef game.name) client.user db ids (TeamUp.entryKey a.response id) :=
    fun _ _ hcallback => h.entryKey ha hcallback hid
  rw [hflush]
  obtain ⟨answering, request, callback, response⟩ := a
  dsimp only at hrenewal hkey ⊢
  cases hrenewal with
  | user =>
    have hnone : ((app catalogue).resume answering (.updateUserLFG client.user games) response
        id).filterMap Command.write? = [] :=
      (handsOn_updateUserLFG catalogue client.user db games response).writes
    constructor <;> intros <;> refine unchanged_applied _ fun w hw => ?_ <;>
      rw [hnone] at hw <;> cases hw
  | @list game hgame user =>
    have hown := hkey game _ rfl
    constructor
    · intro game' hgame' k hk
      refine unchanged_applied _ fun w hw => ?_
      have href := ref_updateGameLFGRead hw
      rw [href]
      refine incomparable_entries fun hname heq => hk ?_
      rw [← heq, ← hname]
      exact hown
    · intro ref href
      refine unchanged_applied _ fun w hw => ?_
      have hentry := ref_updateGameLFGRead hw
      rw [hentry]
      exact Incomparable.of_prefix (href game hgame) (List.prefix_append _ _)

theorem Renewing.step (h : Renewing catalogue client games db ids s) {e : Event}
    (hquiet : undisturbed e = true) (horder : InOrder s e)
    (hst : (app catalogue).step s e = some t) : Renewing catalogue client games db ids t := by
  cases e with
  | start client' op id => cases hquiet
  | deliver index =>
    have hactive := h.active.step (fun _ _ _ he => by cases he) hst
    have hissued := h.issued.step (fun _ _ _ he => by cases he)
      (fun client' request callback response' id hc => hc.permitted client' response' id) hst
    obtain ⟨-, hflush⟩ := flush_deliver h.active.writes horder hst
    obtain ⟨before, w, after, hout, -, rfl⟩ := step_deliver _ hst
    refine ⟨hactive, hissued, h.minted, ?_, ?_, h.own, h.read⟩ <;> rw [hflush]
    · exact h.entries
    · exact h.elsewhere
  | serve index response => exact h.serve hst
  | resume index id => exact h.resume hst
  | observe client' =>
    obtain rfl := step_observe _ hst
    exact ⟨⟨h.active.writes, h.active.calls, h.active.answers⟩,
      ⟨h.issued.writes, h.issued.calls, h.issued.answers⟩, h.minted, h.entries, h.elsewhere, h.own,
      h.read⟩

/-! ### What is left to do for one list -/

/-- The list can only end as the games ask for it: what is in it will be found, and an entry
    that is missing or still to be removed has a callback left. -/
structure InHand (games : List Game) (u g : String) (db : Tree) (answers : List PendingAnswer)
    (rounds : Nat) : Prop where
  single : Single (lfgRef g) u db
  found : ∀ a ∈ answers, ∀ game lfgDictionary,
    a.callback = .updateGameLFG game games lfgDictionary → game.name = g →
    (∀ k, Listed (lfgRef g) u db k → firstKey a.response = some k) ∧
      (platformOf games g ≠ none → ∀ k, firstKey a.response = some k → Listed (lfgRef g) u db k)
  rest : match platformOf games g with
    | some platform => (∃ k, Listed (lfgRef g) u db k ∧
        db.leafAt (lfgRef g ++ [k, "platform"]) = some (.str platform)) ∨
        0 < rounds ∧ ((∀ k, ¬ Listed (lfgRef g) u db k) → rounds = 1)
    | none => (∀ k, ¬ Listed (lfgRef g) u db k) ∨ 0 < rounds

theorem InHand.unchanged {answers answers' : List PendingAnswer} {n : Nat}
    (h : InHand games u g db answers n) (hlist : Unchanged (lfgRef g) db db')
    (hanswers : answers' ⊆ answers) : InHand games u g db' answers' n := by
  have hrest := h.rest
  refine ⟨h.single.congr hlist.listed, fun a ha game lfgDictionary hcallback hname => ?_, ?_⟩
  · obtain ⟨hfound, hkeys⟩ := h.found a (hanswers ha) game lfgDictionary hcallback hname
    simp only [hlist.listed]
    exact ⟨hfound, hkeys⟩
  · simp only [hlist.listed, hlist _]
    exact hrest

theorem InHand.removed {answers : List PendingAnswer} {n : Nat}
    (hplatform : platformOf games g = none) (hnone : ∀ k, ¬ Listed (lfgRef g) u db k) :
    InHand games u g db answers n := by
  refine ⟨.of_none hnone, fun a _ game lfgDictionary _ _ => ⟨fun k hk => (hnone k hk).elim,
    fun hsome => (hsome hplatform).elim⟩, ?_⟩
  rw [hplatform]
  exact Or.inl hnone

theorem InHand.updated {answers answers' : List PendingAnswer} {n m : Nat} {platform : String}
    (h : InHand games u g db answers n) (hplatform : platformOf games g = some platform)
    (hk : Listed (lfgRef g) u db k)
    (hsame : ∀ k', Listed (lfgRef g) u db' k' ↔ Listed (lfgRef g) u db k')
    (hleaf : db'.leafAt (lfgRef g ++ [k, "platform"]) = some (.str platform))
    (hanswers : answers' ⊆ answers) : InHand games u g db' answers' m := by
  refine ⟨h.single.congr hsame, fun a ha game lfgDictionary hcallback hname => ?_, ?_⟩
  · obtain ⟨hfound, hkeys⟩ := h.found a (hanswers ha) game lfgDictionary hcallback hname
    simp only [hsame]
    exact ⟨hfound, hkeys⟩
  · rw [hplatform]
    exact Or.inl ⟨k, (hsame k).mpr hk, hleaf⟩

theorem InHand.pushed {answers : List PendingAnswer} {n : Nat} {platform : String}
    (hplatform : platformOf games g = some platform)
    (hone : ∀ k', Listed (lfgRef g) u db k' ↔ k' = k) (hint : Tree.integerKey k = none)
    (hleaf : db.leafAt (lfgRef g ++ [k, "platform"]) = some (.str platform))
    (hlast : ∀ a ∈ answers, ∀ game lfgDictionary,
      a.callback = .updateGameLFG game games lfgDictionary → game.name ≠ g) :
    InHand games u g db answers n := by
  refine ⟨⟨fun k₁ k₂ h₁ h₂ => ((hone k₂).mp h₂).trans ((hone k₁).mp h₁).symm,
    fun k' hk' m hm => ?_⟩,
    fun a ha game lfgDictionary hcallback hname =>
      (hlast a ha game lfgDictionary hcallback hname).elim, ?_⟩
  · rw [(hone k').mp hk', hint] at hm
    cases hm
  · rw [hplatform]
    exact Or.inl ⟨k, (hone k).mpr rfl, hleaf⟩

variable (u db catalogue) in
/-- The entry a list's callback writes has the platform of the first game of that name. -/
theorem platform_updateGameLFGRead {game : Game} {platform : String} (user : User)
    (hplatform : platformOf games game.name = some platform) (snapshot : Tree)
    (freshId : String) :
    (applied catalogue (updateGameLFGRead game games (lfgDictionary u user games game) snapshot
        freshId) db).leafAt (lfgRef game.name ++ [entryKey snapshot freshId, "platform"]) =
      some (.str platform) := by
  have hmem : ("platform", Tree.str platform) ∈ entryValues u user platform := by
    simp [entryValues]
  have hleaf : ((Write.updateChildValues (lfgRef game.name ++ [entryKey snapshot freshId])
      (entryValues u user platform)).apply db).leafAt
        ((lfgRef game.name ++ [entryKey snapshot freshId]) ++ ["platform"]) =
          some (.str platform) :=
    Write.leafAt_update_named (nodup_entryValues u user platform) hmem []
  rw [List.append_assoc] at hleaf
  rw [applied, writes_updateGameLFGRead, hplatform]
  exact hleaf

/-- **The callback of the list** runs: the list is as it should be, or will be. -/
theorem InHand.resume {answers answers' : List PendingAnswer} {n : Nat} {game : Game}
    (h : InHand games u game.name db answers (n + 1)) {a : PendingAnswer} (ha : a ∈ answers)
    {user : User}
    (hcallback : a.callback = .updateGameLFG game games (lfgDictionary u user games game))
    (hanswers : answers' ⊆ answers)
    (hlast : n = 0 → ∀ a' ∈ answers', ∀ game' lfgDictionary',
      a'.callback = .updateGameLFG game' games lfgDictionary' → game'.name ≠ game.name)
    {id : String} (hid : Tree.integerKey id = none) :
    InHand games u game.name (applied catalogue (updateGameLFGRead game games
      (lfgDictionary u user games game) a.response id) db) answers' n := by
  obtain ⟨hfound, hkeys⟩ := h.found a ha game _ hcallback rfl
  have hlisted := fun k => listed_updateGameLFGRead u db catalogue games user game a.response
    id game.name k
  simp only [if_true] at hlisted
  have hrest := h.rest
  cases hplatform : platformOf games game.name with
  | none =>
    -- the only entry that is left was found, and is removed
    simp only [hplatform] at hlisted
    refine .removed hplatform fun k hk => ?_
    obtain ⟨hold, hne⟩ := (hlisted k).mp hk
    exact hne (hfound k hold)
  | some platform =>
    simp only [hplatform] at hlisted hrest
    have hleaf := platform_updateGameLFGRead u db catalogue user hplatform a.response id
    rw [entryKey] at hlisted hleaf
    cases hfirst : firstKey a.response with
    | some k =>
      rw [hfirst, Option.getD_some] at hlisted hleaf
      have hold : Listed (lfgRef game.name) u db k := hkeys (by simp [hplatform]) k hfirst
      exact h.updated hplatform hold
        (fun k' => (hlisted k').trans (or_iff_right_of_imp fun heq => heq ▸ hold)) hleaf hanswers
    | none =>
      rw [hfirst, Option.getD_none] at hlisted hleaf
      have hempty : ∀ k, ¬ Listed (lfgRef game.name) u db k := by
        intro k hk
        exact Option.some_ne_none k ((hfound k hk).symm.trans hfirst)
      -- a second callback of this list would push a second entry
      have hzero : n = 0 := by
        rcases hrest with ⟨k, hk, -⟩ | ⟨-, hone⟩
        · exact (hempty k hk).elim
        · exact Nat.succ.inj (hone hempty)
      exact .pushed hplatform (fun k' => (hlisted k').trans (or_iff_left (hempty k'))) hid hleaf
        (hlast hzero)

theorem rounds_served {before after : List PendingCall} {c : PendingCall} {response : Tree}
    (hasked : s.calls = before ++ c :: after) (hcalls : t.calls = before ++ after)
    (hanswers : t.answers = s.answers ++ [⟨c.client, c.request, c.callback, response⟩])
    (g : String) : rounds catalogue g t = rounds catalogue g s := by
  simp only [rounds, hasked, hcalls, hanswers, List.map_append, List.map_cons, List.map_nil,
    List.sum_append, List.sum_cons, List.sum_nil]
  omega

theorem rounds_resumed {answers : List PendingAnswer} {calls : List (Query × Callback)}
    (hcalls : t.calls = s.calls ++ calls.map fun c => ⟨client, c.1, c.2⟩)
    (hanswers : t.answers = answers) (g : String) :
    rounds catalogue g t = rounds catalogue g ({ s with answers } : State) +
      (calls.map fun c => c.2.rounds catalogue g).sum := by
  simp only [rounds, hcalls, hanswers, List.map_append, List.map_map, List.sum_append,
    Function.comp_def]
  omega

variable (catalogue) in
theorem rounds_answer {before after : List PendingAnswer} {a : PendingAnswer}
    (hanswers : s.answers = before ++ a :: after) (g : String) :
    rounds catalogue g s = rounds catalogue g ({ s with answers := before ++ after } : State) +
      a.callback.rounds catalogue g := by
  simp only [rounds, hanswers, List.map_append, List.map_cons, List.sum_append, List.sum_cons]
  omega

variable (u catalogue games) in
theorem rounds_updateUserLFGRead {snapshot : Tree} (h : (fetchedUser snapshot).isSome)
    (g : String) :
    (((updateUserLFGRead catalogue u games snapshot).filterMap Command.call?).map fun c =>
      c.2.rounds catalogue g).sum = catalogue.countP fun game => decide (game.name = g) := by
  obtain ⟨user, huser⟩ := Option.isSome_iff_exists.mp h
  have hsum : ∀ rest : List Game, (rest.map fun game => if game.name = g then 1 else 0).sum =
      rest.countP fun game => decide (game.name = g) := by
    intro rest
    induction rest with
    | nil => rfl
    | cons game rest ih =>
      rw [List.map_cons, List.sum_cons, List.countP_cons, ih, Nat.add_comm]
      simp only [decide_eq_true_eq]
  rw [updateUserLFGRead, huser, ← hsum catalogue]
  simp [List.filterMap_map, Function.comp_def, Command.call?, Callback.rounds]

/-- Running a callback of a renewal keeps a list in hand. -/
theorem Renewing.inHand_resumed (h : Renewing catalogue client games db ids s)
    (hread : (fetchedUser (db.sub (userRef client.user))).isSome)
    (hin : InHand games client.user g ((app catalogue).flush s) s.answers (rounds catalogue g s))
    {before after : List PendingAnswer} {a : PendingAnswer} {id : String}
    (hanswered : s.answers = before ++ a :: after)
    (hmintable : (app catalogue).mintable id = true) :
    InHand games client.user g
      (applied catalogue ((app catalogue).resume a.client a.callback a.response id)
        ((app catalogue).flush s)) (before ++ after)
      (rounds catalogue g ({ s with answers := before ++ after } : State) +
        ((((app catalogue).resume a.client a.callback a.response id).filterMap
          Command.call?).map fun c => c.2.rounds catalogue g).sum) := by
  have ha : a ∈ s.answers := mem_of_split hanswered
  have hrest : before ++ after ⊆ s.answers := rest_of_split hanswered
  have hrounds := rounds_answer catalogue hanswered g
  have hrenewal := h.issued.answers a ha
  have hfetched := h.read a ha
  obtain ⟨answering, request, callback, response⟩ := a
  dsimp only at hrenewal hfetched hrounds ⊢
  cases hrenewal with
  | user =>
    have hsum := rounds_updateUserLFGRead client.user catalogue games ((hfetched rfl).trans hread) g
    have hwrites := (handsOn_updateUserLFG catalogue client.user db games response).writes
    rw [app_resume, resume_updateUserLFG, hsum, applied, hwrites]
    rw [hrounds] at hin
    exact hin.unchanged (fun _ => rfl) hrest
  | @list game hgame user =>
    have hcalls : (updateGameLFGRead game games (lfgDictionary client.user user games game)
        response id).filterMap Command.call? = [] := by
      rw [updateGameLFGRead_eq]
      split <;> rfl
    rw [app_resume, resume_updateGameLFG, hcalls, List.map_nil, List.sum_nil, Nat.add_zero]
    by_cases hname : game.name = g
    · subst hname
      simp only [Callback.rounds, if_true] at hrounds
      rw [hrounds] at hin
      refine hin.resume ha rfl hrest (fun hzero a' ha' game' lfgDictionary' hcallback hname => ?_)
        (Tree.integerKey_of_hyphen hmintable)
      have hone : a'.callback.rounds catalogue game.name = 1 := by
        rw [hcallback]
        exact if_pos hname
      have hnone := List.sum_eq_zero_iff_forall_eq_nat.mp (Nat.add_eq_zero_iff.mp hzero).2 _
        (List.mem_map.mpr ⟨a', ha', hone⟩)
      exact Nat.one_ne_zero hnone
    · simp only [Callback.rounds, if_neg hname, Nat.add_zero] at hrounds
      rw [hrounds] at hin
      refine hin.unchanged (unchanged_applied _ fun w hw => ?_) hrest
      rw [ref_updateGameLFGRead hw]
      simp [Incomparable, hname, Ne.symm hname]

/-- **A step keeps a list in hand**, if the record of the user can be read. -/
theorem Renewing.inHand (h : Renewing catalogue client games db ids s)
    (hread : (fetchedUser (db.sub (userRef client.user))).isSome)
    (hin : InHand games client.user g ((app catalogue).flush s) s.answers (rounds catalogue g s))
    {e : Event} (hquiet : undisturbed e = true) (horder : InOrder s e)
    (hst : (app catalogue).step s e = some t) :
    InHand games client.user g ((app catalogue).flush t) t.answers (rounds catalogue g t) := by
  cases quiet_of_undisturbed h.active hquiet horder hst with
  | kept hflush hcalls hanswers =>
    rw [hflush, hanswers, rounds, hcalls, hanswers]
    exact hin
  | served before c after response hasked hanswer hflush hcalls hanswers =>
    have hc : c ∈ s.calls := mem_of_split hasked
    have hrenewal := h.issued.calls c hc
    have hanswer : c.request.answers ((app catalogue).flush s) response = true := hanswer
    rw [hflush, hanswers, rounds_served hasked hcalls hanswers]
    refine ⟨hin.single, fun a ha => ?_, hin.rest⟩
    rcases List.mem_append.mp ha with hold | hnew
    · exact hin.found a hold
    · obtain rfl := List.mem_singleton.mp hnew
      intro game lfgDictionary hcallback hname
      dsimp only at hcallback
      rw [hcallback] at hrenewal
      generalize c.request = request at hrenewal hanswer
      cases hrenewal with
      | list hgame user =>
        subst hname
        exact ⟨(single_iff hanswer).mp hin.single, fun _ k hk => listed_of_firstKey hanswer hk⟩
  | resumed before a after id hanswered hmintable hfresh hflush hcalls hanswers =>
    rw [hflush, hanswers, rounds_resumed hcalls hanswers]
    exact h.inHand_resumed hread hin hanswered hmintable

end TeamUp
