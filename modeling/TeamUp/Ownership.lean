import TeamUp.Authorship
import TeamUp.Cleanup
import TeamUp.Filters

/-!
# Whose entries are whose

The lists of players are written by all sessions, and an entry is found by a query that may
be answered long before its key is used.  Still an entry never changes hands: its key was
generated by a session of its user or found under the name of the user, so everything
that is on its way to an entry comes from the user it names.
-/

namespace TeamUp

open Protocol

variable {client : Session} {catalogue : List Game} {w : Write} {list : Ref} {k : String}
variable {v v' : Leaf} {s t : State}

/-! ### What is issued for the lists -/

/-- The players of a game, or those who play it now. -/
inductive PlayerList : Ref → Prop
  | lfg (g : String) : PlayerList (lfgRef g)
  | online (g : String) : PlayerList (onlineRef g)

/-- Entries are told apart by their paths. -/
theorem PlayerList.entry_inj {list' : Ref} {k' field field' : String} (h : PlayerList list)
    (h' : PlayerList list') (heq : list ++ [k, field] = list' ++ [k', field']) :
    list = list' ∧ k = k' ∧ field = field' := by
  cases h <;> cases h' <;> simp_all

/-- The write concerns users, or an entry that it names after its own user. -/
def OwnWrite (client : Session) (w : Write) : Prop :=
  w.ref.head? = some "users" ∨
    ∃ list k, PlayerList list ∧ w.ref = list ++ [k] ∧ ∀ p v, w.PutsLeaf p v →
      ∃ field, p = list ++ [k, field] ∧ (field = "username" → v = .str client.user)

/-- The callback is one of its session's own, and asks for the session's own data. -/
def OwnCallback (client : Session) (request : Query) : Callback → Prop
  | .requestPlayerToTeamUp _ _ => True
  | .goOnlineForGame u _ _ => u = client.user ∧ request = .value (userRef client.user)
  | .goOfflineForGame game => request = .equal (onlineRef game.name) "username" client.user
  | .editUserLFGInfo u => u = client.user
  | .updateUserLFG u _ => u = client.user
  | .updateGameLFG game _ lfgDictionary =>
      request = .equal (lfgRef game.name) "username" client.user ∧
        ∀ values, lfgDictionary = some values →
          ∃ user platform, values = entryValues client.user user platform

/-- The user that was fetched has the name under which it was asked for. -/
def FetchedOwn (response : Tree) : Callback → Prop
  | .goOnlineForGame u _ _ => ∀ user, fetchedUser response = some user → user.username = u
  | _ => True

theorem ownWrite_update {values : Dictionary} (hlist : PlayerList list)
    (hvalues : ∀ e ∈ values, ∃ x, e.2 = .leaf x ∧ (e.1 = "username" → x = .str client.user)) :
    OwnWrite client (.updateChildValues (list ++ [k]) values) := by
  refine Or.inr ⟨list, k, hlist, rfl, fun p v hputs => ?_⟩
  obtain ⟨e, he, r, rfl, hleaf⟩ := Write.putsLeaf_update.mp hputs
  obtain ⟨x, hx, hname⟩ := hvalues e he
  rw [hx] at hleaf
  obtain ⟨rfl, rfl⟩ := leafAt_leaf.mp hleaf
  exact ⟨e.1, by simp, hname⟩

theorem ownWrite_remove (hlist : PlayerList list) :
    OwnWrite client (.removeValue (list ++ [k])) :=
  Or.inr ⟨list, k, hlist, rfl, fun _ _ hputs => (Write.not_putsLeaf_remove hputs).elim⟩

theorem own_begin (op : Op) (id : String) :
    Permitted OwnWrite OwnCallback client (begin client op id) := by
  refine ⟨fun w hw => Or.inl (users_of_opWrites client op id ?_), fun request callback hcall => ?_⟩
  · exact writes_begin client op id ▸ mem_writes.mpr hw
  · cases op with
    | goOnlineForGame game now =>
      simp only [begin, goOnlineForGame, List.mem_singleton, Command.call.injEq] at hcall
      obtain ⟨rfl, rfl⟩ := hcall
      exact ⟨rfl, rfl⟩
    | goOfflineForGame game =>
      simp only [begin, goOfflineForGame, List.mem_cons, reduceCtorEq, Command.call.injEq,
        List.not_mem_nil, or_false, false_or] at hcall
      obtain ⟨rfl, rfl⟩ := hcall
      rfl
    | requestPlayerToTeamUp | updateBio | updateUserGames | editRegion | editMicStatus
    | setProfilePicture =>
      simp only [begin, requestPlayerToTeamUp, updateBio, updateUserGames, editRegion,
        editMicStatus, setProfilePicture, editProfile, editUserLFGInfo, updateUserLFG,
        List.mem_cons, List.not_mem_nil, reduceCtorEq, Command.call.injEq, or_false,
        false_or] at hcall
      obtain ⟨-, rfl⟩ := hcall
      trivial
    | markDirectChatMessagesAsRead chat =>
      simp only [begin, markDirectChatMessagesAsRead] at hcall
      split at hcall <;> simp at hcall
    | _ =>
      simp [begin, acceptTeammateRequest, declineTeammateRequest, removeTeammate,
        sendDirectMessage, deleteDirectChat, storeFCMToken] at hcall

theorem own_resume {request : Query} {callback : Callback} {response : Tree} {id : String}
    (hown : OwnCallback client request callback) (hfetched : FetchedOwn response callback) :
    Permitted OwnWrite OwnCallback client (resume catalogue callback response id) := by
  cases callback with
  | requestPlayerToTeamUp currentUserName username =>
    simp only [resume, requestPlayerToTeamUpRead]
    split
    · exact ⟨fun _ hw => (by cases hw), fun _ _ hcall => (by cases hcall)⟩
    · refine ⟨fun w hw => ?_, fun _ _ hcall => (by simp at hcall)⟩
      rw [Command.write.inj (List.mem_singleton.mp hw)]
      exact Or.inl rfl
  | goOnlineForGame currentUser game now =>
    obtain ⟨rfl, -⟩ := hown
    rw [resume_goOnlineForGame, goOnlineForGameRead_eq]
    split
    · rename_i user platform huser hplatform
      refine ⟨fun w hw => ?_, fun _ _ hcall => (by simp at hcall)⟩
      simp only [List.mem_cons, Command.write.injEq, List.not_mem_nil, or_false] at hw
      rcases hw with rfl | rfl
      · refine ownWrite_update (.online game.name) fun e he => ?_
        rw [← hfetched user huser]
        exact leaf_of_mem_onlineValues he
      · exact Or.inl rfl
    · exact ⟨fun _ hw => (by cases hw), fun _ _ hcall => (by cases hcall)⟩
  | goOfflineForGame game =>
    simp only [resume, goOfflineForGameRead]
    split
    · refine ⟨fun w hw => ?_, fun _ _ hcall => (by simp at hcall)⟩
      rw [Command.write.inj (List.mem_singleton.mp hw)]
      exact ownWrite_remove (.online game.name)
    · exact ⟨fun _ hw => (by cases hw), fun _ _ hcall => (by cases hcall)⟩
  | editUserLFGInfo currentUser =>
    simp only [resume, editUserLFGInfoRead, updateUserLFG]
    split
    · exact ⟨fun _ hw => (by cases hw), fun _ _ hcall => (by cases hcall)⟩
    · refine ⟨fun _ hw => (by simp at hw), fun _ _ hcall => ?_⟩
      obtain ⟨rfl, rfl⟩ := Command.call.inj (List.mem_singleton.mp hcall)
      exact hown
  | updateUserLFG username games =>
    obtain rfl := hown
    simp only [resume, updateUserLFGRead]
    split
    · rename_i user huser
      refine ⟨fun _ hw => (by simp at hw), fun _ _ hcall => ?_⟩
      obtain ⟨game, -, heq⟩ := List.mem_map.mp hcall
      obtain ⟨rfl, rfl⟩ := Command.call.inj heq
      refine ⟨rfl, fun values hvalues => ?_⟩
      rw [lfgDictionary_eq] at hvalues
      obtain ⟨platform, -, rfl⟩ := Option.map_eq_some_iff.mp hvalues
      exact ⟨user, platform, rfl⟩
    · exact ⟨fun _ hw => (by cases hw), fun _ _ hcall => (by cases hcall)⟩
  | updateGameLFG game games lfgDictionary =>
    have hentry : ∀ {key values}, lfgDictionary = some values →
        OwnWrite client (.updateChildValues (lfgRef game.name ++ [key]) values) := by
      intro key values hvalues
      obtain ⟨user, platform, rfl⟩ := hown.2 values hvalues
      exact ownWrite_update (.lfg game.name) fun e he => leaf_of_mem_entryValues he
    simp only [resume, updateGameLFGRead]
    split
    · split
      · refine ⟨fun w hw => ?_, fun _ _ hcall => (by simp at hcall)⟩
        rw [Command.write.inj (List.mem_singleton.mp hw)]
        exact hentry rfl
      · refine ⟨fun w hw => ?_, fun _ _ hcall => (by simp at hcall)⟩
        rw [Command.write.inj (List.mem_singleton.mp hw)]
        exact ownWrite_remove (.lfg game.name)
    · split
      · refine ⟨fun w hw => ?_, fun _ _ hcall => (by simp at hcall)⟩
        rw [Command.write.inj (List.mem_singleton.mp hw)]
        exact hentry rfl
      · exact ⟨fun _ hw => (by cases hw), fun _ _ hcall => (by cases hcall)⟩

/-! ### Claims to an entry -/

/-- A name the entry had or has, or that something on its way to it stands for. -/
inductive Claim (past : Ref → String → Leaf → Prop) (s : State) (list : Ref) (k : String) :
    Leaf → Prop
  | past {v : Leaf} (h : past list k v) : Claim past s list k v
  | stored {v : Leaf} (h : s.store.leafAt (list ++ [k, "username"]) = some v) :
      Claim past s list k v
  | writing {e : Issue Session Write} (he : e ∈ s.outstanding) (href : e.write.ref = list ++ [k]) :
      Claim past s list k (.str e.client.user)
  | found {a : Answer Session Query Callback Tree} (ha : a ∈ s.answers)
      (hrequest : a.request = .equal list "username" a.client.user) (hk : k ∈ a.response.keys) :
      Claim past s list k (.str a.client.user)

variable {past : Ref → String → Leaf → Prop}

/-- Each entry is claimed by one user, under a key that has been used. -/
structure Owned (past : Ref → String → Leaf → Prop) (s : State) : Prop where
  issued : Issued OwnWrite OwnCallback s
  fetched : ∀ a ∈ s.answers, FetchedOwn a.response a.callback
  minted : ∀ list k v, PlayerList list → Claim past s list k v → k ∈ s.minted
  single : ∀ list k v v', PlayerList list → Claim past s list k v → Claim past s list k v' → v = v'

theorem OwnWrite.of_puts (hw : OwnWrite client w) (hlist : PlayerList list)
    (h : w.PutsLeaf (list ++ [k, "username"]) v) : w.ref = list ++ [k] ∧ v = .str client.user := by
  rcases hw with husers | ⟨list', k', hlist', href, hputs⟩
  · obtain ⟨e, he, r, hpath, -⟩ := h
    obtain ⟨q, hq⟩ := Write.ref_prefix_of_puts he
    rw [← hq] at hpath
    cases href : w.ref with
    | nil => simp [href] at husers
    | cons a rest =>
      rw [href] at husers hpath
      cases hlist <;> simp_all
  · obtain ⟨field, hpath, hname⟩ := hputs _ _ h
    obtain ⟨rfl, rfl, rfl⟩ := hlist.entry_inj hlist' hpath
    exact ⟨href, hname rfl⟩

/-- What a session sees of an entry is a claim to it. -/
theorem Owned.of_view (h : Owned past s) (hlist : PlayerList list)
    (hleaf : ((app catalogue).view s client).leafAt (list ++ [k, "username"]) = some v) :
    Claim past s list k v := by
  rcases Sources.holds_applyAll (S := values catalogue s.store)
    (f := (list ++ [k, "username"], v)) hleaf with hst | ⟨w, hw, hputs⟩
  · exact .stored hst
  · obtain ⟨e, he, rfl⟩ := List.mem_map.mp hw
    have hmem := (List.mem_filter.mp he).1
    obtain ⟨href, rfl⟩ := (h.issued.writes e hmem).of_puts hlist hputs
    exact .writing hmem href

/-- The entries that a callback writes to were found by its answer, or have the new key. -/
theorem entry_of_resume {request : Query} {callback : Callback} {response : Tree} {id : String}
    (hown : OwnCallback client request callback) (hlist : PlayerList list)
    (hw : .write w ∈ resume catalogue callback response id) (href : w.ref = list ++ [k]) :
    k = id ∨ request = .equal list "username" client.user ∧ k ∈ response.keys := by
  have hfound : ∀ {key : String}, (response.asDictionary.bind fun dictionary =>
      dictionary.keys.head?) = some key → key ∈ response.keys := by
    intro key hkey
    obtain ⟨dictionary, hdictionary, hhead⟩ := Option.bind_eq_some_iff.mp hkey
    obtain rfl := Tree.asDictionary_eq_some hdictionary
    exact List.mem_of_head? hhead
  cases callback with
  | requestPlayerToTeamUp currentUserName username =>
    simp only [resume, requestPlayerToTeamUpRead] at hw
    split at hw
    · cases hw
    · rw [Command.write.inj (List.mem_singleton.mp hw)] at href
      cases hlist <;> simp [Write.ref] at href
  | goOnlineForGame currentUser game now =>
    simp only [resume, goOnlineForGameRead] at hw
    split at hw
    · simp only [List.mem_cons, Command.write.injEq, List.not_mem_nil, or_false] at hw
      rcases hw with rfl | rfl <;> cases hlist <;> simp_all [Write.ref]
    · cases hw
  | goOfflineForGame game =>
    simp only [resume, goOfflineForGameRead] at hw
    split at hw
    · rename_i autoId hautoId
      rw [Command.write.inj (List.mem_singleton.mp hw)] at href
      cases hlist <;> simp_all [Write.ref, OwnCallback]
    · cases hw
  | editUserLFGInfo currentUser =>
    simp only [resume, editUserLFGInfoRead] at hw
    split at hw <;> simp [updateUserLFG] at hw
  | updateUserLFG username games =>
    simp only [resume, updateUserLFGRead] at hw
    split at hw <;> simp at hw
  | updateGameLFG game games lfgDictionary =>
    have hentry : ∀ {key : String} {w' : Write}, w'.ref = lfgRef game.name ++ [key] →
        .write w ∈ ([.write w'] : Commands) → list = lfgRef game.name ∧ k = key := by
      intro key w' href' hmem
      rw [Command.write.inj (List.mem_singleton.mp hmem), href'] at href
      cases hlist <;> simp_all
    simp only [resume, updateGameLFGRead] at hw
    split at hw
    · rename_i autoId hautoId
      refine Or.inr ?_
      have hkey : list = lfgRef game.name ∧ k = autoId := by
        split at hw
        · exact hentry rfl hw
        · exact hentry rfl hw
      obtain ⟨rfl, rfl⟩ := hkey
      exact ⟨hown.1, hfound hautoId⟩
    · split at hw
      · exact Or.inl (hentry rfl hw).2
      · cases hw

/-! ### Steps -/

theorem fetchedOwn_of_answer {request : Query} {callback : Callback} {db response : Tree}
    (hown : OwnCallback client request callback)
    (hnames : ∀ u user, fetchedUser (db.sub (userRef u)) = some user → user.username = u)
    (hanswer : request.answers db response = true) : FetchedOwn response callback := by
  cases callback with
  | goOnlineForGame u game now =>
    obtain ⟨rfl, rfl⟩ := hown
    intro user huser
    have hsame : PathTree.Same response (db.sub (userRef client.user)) := of_decide_eq_true hanswer
    have hidentity := User.identity_congr hsame
    rw [show response.asDictionary.bind User.ofDictionary = some user from huser] at hidentity
    obtain ⟨user', huser', heq⟩ := Option.map_eq_some_iff.mp hidentity.symm
    have hname : user'.username = user.username := congrArg Prod.fst heq
    rw [← hname]
    exact hnames client.user user' huser'
  | _ => trivial

namespace Owned

/-- Commands whose writes are to entries that their client has a claim to, or to new ones. -/
theorem claims_issue {id : String} {commands : Commands}
    (hwrites : ∀ w list k, PlayerList list → .write w ∈ commands → w.ref = list ++ [k] →
      k = id ∨ Claim past s list k (.str client.user)) (hlist : PlayerList list)
    (h : Claim past (s.issue client id commands) list k v) :
    Claim past s list k v ∨ k = id ∧ v = .str client.user := by
  cases h with
  | past hpast => exact Or.inl (.past hpast)
  | stored hleaf => exact Or.inl (.stored hleaf)
  | @writing e he href =>
    rcases List.mem_append.mp he with hold | hnew
    · exact Or.inl (.writing hold href)
    · obtain ⟨w, hw, rfl⟩ := List.mem_map.mp hnew
      rcases hwrites w list k hlist (mem_writes.mp hw) href with rfl | hclaim
      · exact Or.inr ⟨rfl, rfl⟩
      · exact Or.inl hclaim
  | found ha hrequest hk => exact Or.inl (.found ha hrequest hk)

/-- Issuing commands of a client with an identifier that is new. -/
theorem issue (h : Owned past s) {id : String} (hfresh : id ∉ s.minted) {commands : Commands}
    (hpermitted : Permitted OwnWrite OwnCallback client commands)
    (hwrites : ∀ w list k, PlayerList list → .write w ∈ commands → w.ref = list ++ [k] →
      k = id ∨ Claim past s list k (.str client.user)) :
    Owned past (s.issue client id commands) where
  issued := h.issued.issue hpermitted id
  fetched := h.fetched
  minted := fun list k v hlist hclaim => by
    rcases claims_issue hwrites hlist hclaim with hold | ⟨rfl, -⟩
    · exact List.mem_cons_of_mem _ (h.minted list k v hlist hold)
    · exact List.mem_cons_self
  single := fun list k v v' hlist hclaim hclaim' => by
    rcases claims_issue hwrites hlist hclaim with hold | ⟨rfl, rfl⟩ <;>
      rcases claims_issue hwrites hlist hclaim' with hold' | ⟨hid, rfl⟩
    · exact h.single list k v v' hlist hold hold'
    · exact (hfresh (hid ▸ h.minted list k v hlist hold)).elim
    · exact (hfresh (h.minted list _ v' hlist hold')).elim
    · rfl

/-- What only has claims that were there before is owned as before. -/
theorem of_claims (h : Owned past s) (hissued : Issued OwnWrite OwnCallback t)
    (hfetched : ∀ a ∈ t.answers, FetchedOwn a.response a.callback) (hminted : t.minted = s.minted)
    (hclaims : ∀ list k v, PlayerList list → Claim past t list k v → Claim past s list k v) :
    Owned past t where
  issued := hissued
  fetched := hfetched
  minted := fun list k v hlist hclaim =>
    hminted ▸ h.minted list k v hlist (hclaims list k v hlist hclaim)
  single := fun list k v v' hlist hclaim hclaim' =>
    h.single list k v v' hlist (hclaims list k v hlist hclaim) (hclaims list k v' hlist hclaim')

theorem deliver (h : Owned past s) {index : Nat}
    (hst : (app catalogue).step s (.deliver index) = some t) :
    ∀ list k v, PlayerList list → Claim past t list k v → Claim past s list k v := by
  obtain ⟨before, e, after, hout, -, rfl⟩ := step_deliver _ hst
  intro list k v hlist hclaim
  cases hclaim with
  | past hpast => exact .past hpast
  | stored hleaf =>
    rcases Write.leafAt_apply_cases hleaf with hold | hputs
    · exact .stored hold
    · have hmem := mem_of_split hout
      obtain ⟨href, rfl⟩ := (h.issued.writes e hmem).of_puts hlist hputs
      exact .writing hmem href
  | writing he href => exact .writing (rest_of_split hout he) href
  | found ha hrequest hk => exact .found ha hrequest hk

theorem serve (h : Owned past s) {index : Nat} {response : Tree}
    (hst : (app catalogue).step s (.serve index response) = some t) :
    ∀ list k v, PlayerList list → Claim past t list k v → Claim past s list k v := by
  obtain ⟨before, c, after, hcalls, -, hanswer, rfl⟩ := step_serve _ hst
  intro list k v hlist hclaim
  cases hclaim with
  | past hpast => exact .past hpast
  | stored hleaf => exact .stored hleaf
  | writing he href => exact .writing he href
  | found ha hrequest hk =>
    rcases List.mem_append.mp ha with hold | hnew
    · exact .found hold hrequest hk
    · obtain rfl := List.mem_singleton.mp hnew
      simp only at hrequest hk ⊢
      have hanswer' : (Query.equal list "username" c.client.user).answers
          ((app catalogue).view s c.client) response = true := hrequest ▸ hanswer
      exact h.of_view hlist ((mem_keys_answer hanswer').mp hk)

/-- **Every step leaves each entry to its user**, if fetched users have the names under which
    they are asked for. -/
theorem step (h : Owned past s) {e : Event}
    (hnames : ∀ client u user,
      fetchedUser (((app catalogue).view s client).sub (userRef u)) = some user → user.username = u)
    (hst : (app catalogue).step s e = some t) : Owned past t := by
  cases e with
  | start client op id =>
    obtain ⟨-, hfresh, rfl⟩ := step_start _ hst
    refine h.issue hfresh (own_begin op id) fun w list k hlist hw href => ?_
    have husers := users_of_opWrites client op id (writes_begin client op id ▸ mem_writes.mpr hw)
    rw [href] at husers
    cases hlist <;> simp at husers
  | deliver index =>
    have hclaims := h.deliver hst
    obtain ⟨before, e, after, hout, -, rfl⟩ := step_deliver _ hst
    exact h.of_claims ⟨fun e' he' => h.issued.writes e' (rest_of_split hout he'), h.issued.calls,
      h.issued.answers⟩ h.fetched rfl hclaims
  | serve index response =>
    have hclaims := h.serve hst
    obtain ⟨before, c, after, hcalls, -, hanswer, rfl⟩ := step_serve _ hst
    have hown := h.issued.calls c (mem_of_split hcalls)
    refine h.of_claims ⟨h.issued.writes,
      fun c' hc' => h.issued.calls c' (rest_of_split hcalls hc'), fun a ha => ?_⟩
      (fun a ha => ?_) rfl hclaims
    · rcases List.mem_append.mp ha with hold | hnew
      · exact h.issued.answers a hold
      · obtain rfl := List.mem_singleton.mp hnew
        exact hown
    · rcases List.mem_append.mp ha with hold | hnew
      · exact h.fetched a hold
      · obtain rfl := List.mem_singleton.mp hnew
        exact fetchedOwn_of_answer hown (hnames c.client) hanswer
  | resume index id =>
    obtain ⟨before, a, after, hanswers, -, -, hfresh, rfl⟩ := step_resume _ hst
    have ha := mem_of_split hanswers
    have hown := h.issued.answers a ha
    have hpermitted : Permitted OwnWrite OwnCallback a.client
        (TeamUp.resume catalogue a.callback a.response id) := own_resume hown (h.fetched a ha)
    have hissue := h.issue hfresh hpermitted fun w list k hlist hw href =>
      (entry_of_resume hown hlist hw href).imp_right fun hfound => .found ha hfound.1 hfound.2
    refine hissue.of_claims ⟨hissue.issued.writes, hissue.issued.calls,
      fun a' ha' => hissue.issued.answers a' (rest_of_split hanswers ha')⟩
      (fun a' ha' => h.fetched a' (rest_of_split hanswers ha')) rfl
      fun list k v hlist hclaim => ?_
    cases hclaim with
    | past hpast => exact .past hpast
    | stored hleaf => exact .stored hleaf
    | writing he href => exact .writing he href
    | found ha' hrequest hk => exact .found (rest_of_split hanswers ha') hrequest hk
  | observe client =>
    obtain rfl := step_observe _ hst
    refine h.of_claims ⟨h.issued.writes, h.issued.calls, h.issued.answers⟩ h.fetched rfl
      fun list k v hlist hclaim => ?_
    cases hclaim with
    | past hpast => exact .past hpast
    | stored hleaf => exact .stored hleaf
    | writing he href => exact .writing he href
    | found ha hrequest hk => exact .found ha hrequest hk

theorem initial {db : Tree} {ids : List String}
    (hids : ∀ list k, db.has (list ++ [k]) = true → k ∈ ids) :
    Owned (fun _ _ _ => False) (State.initial db ids) where
  issued := .of_quiescent ⟨rfl, rfl, rfl⟩
  fetched := by simp [State.initial]
  minted := fun list k v _ hclaim => by
    cases hclaim with
    | past hpast => exact hpast.elim
    | stored hleaf =>
      refine hids list k (PathTree.has_of_leafAt (q := ["username"]) (v := v) ?_)
      rw [List.append_assoc]
      exact hleaf
    | writing he _ => cases he
    | found ha _ _ => cases ha
  single := fun list k v v' _ hclaim hclaim' => by
    have hstored : ∀ {x : Leaf}, Claim (fun _ _ _ => False) (State.initial db ids) list k x →
        db.leafAt (list ++ [k, "username"]) = some x := by
      intro x hx
      cases hx with
      | past hpast => exact hpast.elim
      | stored hleaf => exact hleaf
      | writing he _ => cases he
      | found ha _ _ => cases ha
    exact Option.some.inj ((hstored hclaim).symm.trans (hstored hclaim'))

/-- The claims to the entries as they are now stay claims. -/
theorem remembered (h : Owned past s) : Owned (Claim past s) s := by
  have hsame : ∀ {list k v}, Claim (Claim past s) s list k v → Claim past s list k v := by
    intro list k v hclaim
    cases hclaim with
    | past hpast => exact hpast
    | stored hleaf => exact .stored hleaf
    | writing he href => exact .writing he href
    | found ha hrequest hk => exact .found ha hrequest hk
  exact ⟨h.issued, h.fetched, fun list k v hlist hclaim => h.minted list k v hlist (hsame hclaim),
    fun list k v v' hlist hclaim hclaim' =>
      h.single list k v v' hlist (hsame hclaim) (hsame hclaim')⟩

end Owned

/-! ### Runs -/

variable {db : Tree} {ids : List String} {events later : List Event} {u : State}
variable {ok : State → Event → Prop}

/-- Whom a session fetches has the name it asked for, in every run. -/
theorem fetched_named (hnames : Named db)
    (run : (app catalogue).Run ok (State.initial db ids) events t) (client : Session)
    (name : String) (user : User)
    (huser : fetchedUser (((app catalogue).view t client).sub (userRef name)) = some user) :
    user.username = name := by
  obtain ⟨dictionary, hdictionary, hdecode⟩ := Option.bind_eq_some_iff.mp huser
  obtain rfl := Tree.asDictionary_eq_some hdictionary
  have hleaf := (User.stored_of_ofDictionary hdecode).username
  rw [PathTree.leafAt_sub] at hleaf
  rcases (values_attributed run).view (f := (userRef name ++ ["username"], .str user.username))
    hleaf with hold | ⟨c, op, id, -, hputs⟩
  · exact Leaf.str.inj (hnames name _ hold)
  · exact (not_puts_username hputs).elim

theorem owned_of_run (hnames : Named db) {done : List Event}
    (hbefore : (app catalogue).Run ok (State.initial db ids) done s) (hs : Owned past s)
    (run : (app catalogue).Run ok s events t) : Owned past t := by
  have hall : (∃ all, (app catalogue).Run ok (State.initial db ids) all t) ∧ Owned past t := by
    refine run.invariant (fun u => (∃ all, (app catalogue).Run ok (State.initial db ids) all u) ∧
      Owned past u) ?_ ⟨⟨done, hbefore⟩, hs⟩
    rintro u e v ⟨⟨all, hrun⟩, hu⟩ hok hst
    exact ⟨⟨all ++ [e], hrun.snoc hok hst⟩,
      hu.step (fun client name user => fetched_named hnames hrun client name user) hst⟩
  exact hall.2

/-- **An entry of a list of players never changes hands, and only its user writes to it**: the
    name under a key is the same whenever there is one, and whatever is on its way to an entry
    was issued by a session of the user it names, even for answers of long ago. -/
theorem entries_owned (hids : ∀ list k, db.has (list ++ [k]) = true → k ∈ ids)
    (hnames : Named db) (run : (app catalogue).Run ok (State.initial db ids) events t)
    (hlater : (app catalogue).Run ok t later u) (hlist : PlayerList list)
    (hv : t.store.leafAt (list ++ [k, "username"]) = some v) :
    (∀ v', u.store.leafAt (list ++ [k, "username"]) = some v' → v' = v) ∧
      ∀ e ∈ u.outstanding, e.write.ref = list ++ [k] → v = .str e.client.user := by
  have ht : Owned (fun _ _ _ => False) t := owned_of_run hnames .nil (.initial hids) run
  have hu := owned_of_run hnames run ht.remembered hlater
  have hpast : Claim (Claim (fun _ _ _ => False) t) u list k v := .past (.stored hv)
  exact ⟨fun v' hv' => hu.single list k v' v hlist (.stored hv') hpast,
    fun e he href => hu.single list k v _ hlist hpast (.writing he href)⟩

theorem entries_owned_choosesAndPlays :
    ∃ t u, (app [chess]).exec (fun _ _ => true)
        (State.initial (profiles aliceAndBob) (usedKeys (profiles aliceAndBob)))
        (choosesAndPlays.take 7) = some t ∧
      (app [chess]).exec (fun _ _ => true) t (choosesAndPlays.drop 7) = some u ∧
      ∀ e ∈ u.outstanding, e.write.ref = lfgRef "chess" ++ ["-3"] →
        Leaf.str "bobbob" = .str e.client.user := by
  have hend : ((app [chess]).exec (fun _ _ => true)
      (State.initial (profiles aliceAndBob) (usedKeys (profiles aliceAndBob)))
      (choosesAndPlays.take 7)).bind (fun t =>
        ((app [chess]).exec (fun _ _ => true) t (choosesAndPlays.drop 7)).map fun _ =>
          t.store.leafAt (lfgRef "chess" ++ ["-3", "username"])) =
      some (some (.str "bobbob")) := by
    decide +kernel
  obtain ⟨t, ht, hrest⟩ := Option.bind_eq_some_iff.mp hend
  obtain ⟨u, hu, hleaf⟩ := Option.map_eq_some_iff.mp hrest
  have run : (app [chess]).Run (fun _ _ => True)
      (State.initial (profiles aliceAndBob) (usedKeys (profiles aliceAndBob)))
      (choosesAndPlays.take 7) t := run_of_exec (fun _ _ _ => trivial) ht
  have hlater : (app [chess]).Run (fun _ _ => True) t (choosesAndPlays.drop 7) u :=
    run_of_exec (fun _ _ _ => trivial) hu
  exact ⟨t, u, ht, hu, (entries_owned (mem_usedKeys _) (names_of_leaves (by decide +kernel)) run
    hlater (.lfg "chess") hleaf).2⟩

end TeamUp
