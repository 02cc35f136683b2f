import TeamUp.Teammates
import TeamUp.Listing

/-!
# What sessions of others change

Every session may write everywhere, so what is stored with a user is kept by the
operations alone.  `reach` tabulates below which references an operation changes anything,
at once or by its callbacks.  While a user starts nothing, the others change nothing of
what is stored with the user but what relates the user to themselves.
-/

namespace TeamUp

open Protocol

variable {client : Session} {w : Write} {catalogue : List Game} {p : Ref}

/-! ### The reach of operations -/

/-- Below which references an operation changes anything, at once or by its callbacks. -/
def reach (client : Session) : Op → List Ref
  | .requestPlayerToTeamUp username => [teammateRequestsRef username ++ [client.user]]
  | .acceptTeammateRequest r =>
      [teammatesRef client.user ++ [r.username], teammatesRef r.username ++ [client.user],
        teammateRequestsRef client.user ++ [r.username],
        teammateRequestsRef r.username ++ [client.user]]
  | .declineTeammateRequest r => [teammateRequestsRef client.user ++ [r.username]]
  | .removeTeammate t =>
      [teammatesRef client.user ++ [t.username], teammatesRef t.username ++ [client.user],
        directChatRef client.user t.username, directChatRef t.username client.user]
  | .sendDirectMessage _ partner _ =>
      [directChatRef client.user partner.username, directChatRef partner.username client.user]
  | .deleteDirectChat chat => [directChatRef client.user chat.chatPartner.username]
  | .markDirectChatMessagesAsRead chat => [directChatRef client.user chat.chatPartner.username]
  | .goOnlineForGame game _ => [currentlyPlayingRef client.user, onlineRef game.name]
  | .goOfflineForGame game => [currentlyPlayingRef client.user, onlineRef game.name]
  | .updateBio _ => [userRef client.user ++ ["biography"], ["lfg"]]
  | .updateUserGames _ => [gamesRef client.user, ["lfg"]]
  | .editRegion _ => [userRef client.user ++ ["region"], ["lfg"]]
  | .editMicStatus _ => [userRef client.user ++ ["mic"], ["lfg"]]
  | .setProfilePicture _ => [userRef client.user ++ ["profilePicUrl"], ["lfg"]]
  | .fetchFCMToken _ => [userRef client.user ++ ["fcmToken"]]
  | .removeFCMToken => [userRef client.user ++ ["fcmToken"]]

def callbackReach : Callback → List Ref
  | .requestPlayerToTeamUp currentUserName username =>
      [teammateRequestsRef username ++ [currentUserName]]
  | .goOnlineForGame currentUser game _ => [currentlyPlayingRef currentUser, onlineRef game.name]
  | .goOfflineForGame game => [onlineRef game.name]
  | .editUserLFGInfo _ => [["lfg"]]
  | .updateUserLFG _ _ => [["lfg"]]
  | .updateGameLFG _ _ _ => [["lfg"]]

/-- Everything the write replaces is below one of the references. -/
def Write.Within (refs : List Ref) (w : Write) : Prop := ∀ e ∈ w.puts, ∃ ref ∈ refs, ref <+: e.1

theorem Write.Within.beside {refs : List Ref} (h : w.Within refs)
    (hrefs : ∀ ref ∈ refs, Incomparable ref p) : w.Beside p := by
  intro e he
  obtain ⟨ref, href, hpre⟩ := h e he
  exact Incomparable.of_prefix (hrefs ref href) hpre

theorem within_ref {refs : List Ref} {ref : Ref} (href : ref ∈ refs) (h : ref <+: w.ref) :
    w.Within refs :=
  fun _ he => ⟨ref, href, h.trans (Write.ref_prefix_of_puts he)⟩

theorem within_begin {op : Op} {id : String} (hw : w ∈ opWrites client op id) :
    w.Within (reach client op) := by
  cases op with
  | requestPlayerToTeamUp | goOnlineForGame => cases hw
  | acceptTeammateRequest r =>
    simp only [opWrites, List.mem_cons, List.not_mem_nil, or_false] at hw
    rcases hw with rfl | rfl | rfl | rfl <;>
      simp [Write.Within, Write.puts, addTeammate, dropRequest, reach]
  | removeTeammate t =>
    simp only [opWrites, List.mem_cons, List.not_mem_nil, or_false] at hw
    rcases hw with rfl | rfl | rfl | rfl <;>
      simp [Write.Within, Write.puts, dropTeammate, dropChat, reach]
  | sendDirectMessage text partner timestamp =>
    simp only [opWrites, List.mem_cons, List.not_mem_nil, or_false] at hw
    rcases hw with rfl | rfl
    · have href : directChatRef client.user partner.username ∈
          reach client (.sendDirectMessage text partner timestamp) := by simp [reach]
      exact within_ref href (List.prefix_append _ _)
    · have href : directChatRef partner.username client.user ∈
          reach client (.sendDirectMessage text partner timestamp) := by simp [reach]
      exact within_ref href (List.prefix_append _ _)
  | markDirectChatMessagesAsRead chat =>
    simp only [opWrites] at hw
    split at hw
    · cases hw
    · rw [List.mem_singleton.mp hw]
      exact within_ref (List.mem_singleton.mpr rfl) (List.prefix_refl _)
  | _ =>
    rw [List.mem_singleton.mp hw]
    simp [Write.Within, Write.puts, dropRequest, dropChat, dropPlaying, storeField, reach]

theorem reach_of_begin {op : Op} {id : String} {request : Query} {callback : Callback}
    (hcall : .call request callback ∈ begin client op id) :
    callbackReach callback ⊆ reach client op := by
  cases op with
  | requestPlayerToTeamUp | goOnlineForGame =>
    obtain ⟨rfl, rfl⟩ := Command.call.inj (List.mem_singleton.mp hcall)
    exact fun _ h => h
  | goOfflineForGame game =>
    simp only [begin, goOfflineForGame, List.mem_cons, reduceCtorEq, Command.call.injEq,
      List.not_mem_nil, or_false, false_or] at hcall
    obtain ⟨rfl, rfl⟩ := hcall
    simp [callbackReach, reach]
  | updateUserGames games =>
    simp only [begin, updateUserGames, updateUserLFG, List.mem_cons, reduceCtorEq,
      Command.call.injEq, List.not_mem_nil, or_false, false_or] at hcall
    obtain ⟨rfl, rfl⟩ := hcall
    simp [callbackReach, reach]
  | updateBio | editRegion | editMicStatus | setProfilePicture =>
    simp only [begin, updateBio, editRegion, editMicStatus, setProfilePicture, editProfile,
      editUserLFGInfo, List.mem_cons, reduceCtorEq, Command.call.injEq, List.not_mem_nil, or_false,
      false_or] at hcall
    obtain ⟨rfl, rfl⟩ := hcall
    simp [callbackReach, reach]
  | markDirectChatMessagesAsRead chat =>
    simp only [begin, markDirectChatMessagesAsRead] at hcall
    split at hcall <;> simp at hcall
  | _ =>
    simp [begin, acceptTeammateRequest, declineTeammateRequest, removeTeammate, sendDirectMessage,
      deleteDirectChat, storeFCMToken] at hcall

theorem within_resume {callback : Callback} {response : Tree} {id : String}
    (hw : .write w ∈ resume catalogue callback response id) :
    w.Within (callbackReach callback) := by
  cases callback with
  | requestPlayerToTeamUp currentUserName username =>
    simp only [resume, requestPlayerToTeamUpRead] at hw
    split at hw
    · cases hw
    · rw [Command.write.inj (List.mem_singleton.mp hw)]
      simp [Write.Within, Write.puts, callbackReach]
  | goOnlineForGame currentUser game now =>
    simp only [resume, goOnlineForGameRead] at hw
    split at hw
    · simp only [List.mem_cons, Command.write.injEq, List.not_mem_nil, or_false] at hw
      rcases hw with rfl | rfl <;> simp [Write.Within, Write.puts, callbackReach]
    · cases hw
  | goOfflineForGame game =>
    simp only [resume, goOfflineForGameRead] at hw
    split at hw
    · rw [Command.write.inj (List.mem_singleton.mp hw)]
      simp [Write.Within, Write.puts, callbackReach]
    · cases hw
  | editUserLFGInfo currentUser =>
    simp only [resume, editUserLFGInfoRead] at hw
    split at hw <;> simp [updateUserLFG] at hw
  | updateUserLFG username games =>
    simp only [resume, updateUserLFGRead] at hw
    split at hw <;> simp at hw
  | updateGameLFG game games lfgDictionary =>
    simp only [resume, updateGameLFGRead] at hw
    have hentry : ∀ {w' : Write}, ["lfg"] <+: w'.ref → .write w ∈ ([.write w'] : Commands) →
        w.Within (callbackReach (.updateGameLFG game games lfgDictionary)) := by
      intro w' hpre hmem
      rw [Command.write.inj (List.mem_singleton.mp hmem)]
      exact within_ref (List.mem_singleton.mpr rfl) hpre
    split at hw
    · split at hw
      · exact hentry (by simp [Write.ref]) hw
      · exact hentry (by simp [Write.ref]) hw
    · split at hw
      · exact hentry (by simp [Write.ref]) hw
      · cases hw

theorem reach_of_resume {callback callback' : Callback} {request' : Query} {response : Tree}
    {id : String} (hcall : .call request' callback' ∈ resume catalogue callback response id) :
    callbackReach callback' ⊆ callbackReach callback := by
  cases callback with
  | editUserLFGInfo currentUser =>
    simp only [resume, editUserLFGInfoRead] at hcall
    split at hcall
    · cases hcall
    · obtain ⟨rfl, rfl⟩ := Command.call.inj (List.mem_singleton.mp hcall)
      exact List.Subset.refl _
  | updateUserLFG username games =>
    simp only [resume, updateUserLFGRead] at hcall
    split at hcall
    · obtain ⟨game, -, hgame⟩ := List.mem_map.mp hcall
      obtain ⟨rfl, rfl⟩ := Command.call.inj hgame
      exact List.Subset.refl _
    · cases hcall
  | requestPlayerToTeamUp | goOnlineForGame | goOfflineForGame =>
    simp only [resume, requestPlayerToTeamUpRead, goOnlineForGameRead, goOfflineForGameRead]
      at hcall
    split at hcall <;> simp at hcall
  | updateGameLFG game games lfgDictionary =>
    simp only [resume, updateGameLFGRead] at hcall
    split at hcall <;> split at hcall <;> simp at hcall

/-! ### Runs -/

variable {db : Tree} {ids : List String} {events : List Event} {t : State}
variable {ok : State → Event → Prop}

/-- **What changes in a run is within the reach of an operation that it starts.** -/
theorem reached_of_changed (run : (app catalogue).Run ok (State.initial db ids) events t)
    (h : t.store.leafAt p ≠ db.leafAt p) :
    ∃ client op id, .start client op id ∈ events ∧
      ∃ ref ∈ reach client op, ¬ Incomparable ref p := by
  by_contra hnone
  have hbeside : ∀ client op id, .start client op id ∈ events →
      ∀ ref ∈ reach client op, Incomparable ref p := by
    intro client op id hmem ref href
    by_contra hreached
    exact hnone ⟨client, op, id, hmem, ref, href, hreached⟩
  let Spares : State → Prop := fun u =>
    Issued (fun _ w => w.Beside p)
      (fun _ _ callback => ∀ ref ∈ callbackReach callback, Incomparable ref p) u ∧
    u.store.leafAt p = db.leafAt p
  have hall : (∀ e ∈ events, e ∈ events) → Spares t := by
    refine run.history (fun done u => (∀ e ∈ done, e ∈ events) → Spares u) ?_
      fun _ => ⟨.of_quiescent ⟨rfl, rfl, rfl⟩, rfl⟩
    intro done u e v hu _ hst hdone
    obtain ⟨hissued, hleaf⟩ := hu fun e' he' => hdone e' (List.mem_append_left _ he')
    refine ⟨hissued.step (fun client op id he => ?_) ?_ hst, ?_⟩
    · have hrefs := hbeside client op id (he ▸ hdone e (by simp))
      refine ⟨fun w hw => ?_, fun request callback hcall ref href => ?_⟩
      · exact (within_begin (writes_begin client op id ▸ mem_writes.mpr hw)).beside hrefs
      · exact hrefs ref (reach_of_begin hcall href)
    · intro client request callback response id hrefs
      exact ⟨fun w hw => (within_resume hw).beside hrefs,
        fun request' callback' hcall ref href => hrefs ref (reach_of_resume hcall href)⟩
    · cases e with
      | deliver index =>
        obtain ⟨before, e, after, hout, -, rfl⟩ := step_deliver _ hst
        have hframe := (hissued.writes e (mem_of_split hout)).leafAt u.store []
        rw [List.append_nil] at hframe
        exact hframe.trans hleaf
      | start client op id =>
        obtain ⟨-, -, rfl⟩ := step_start _ hst
        exact hleaf
      | serve index response =>
        obtain ⟨before, c, after, -, -, -, rfl⟩ := step_serve _ hst
        exact hleaf
      | resume index id =>
        obtain ⟨before, a, after, -, -, -, -, rfl⟩ := step_resume _ hst
        exact hleaf
      | observe client =>
        obtain rfl := step_observe _ hst
        exact hleaf
  exact h (hall fun _ he => he).2

/-- What relates two users, below the reference of the first. -/
def relations (u x : String) : List Ref :=
  [teammatesRef u ++ [x], teammateRequestsRef u ++ [x], directChatRef u x]

/-- An operation reaches what is stored with its own user, what relates another user to that
    one, and the lists. -/
theorem reach_cases {op : Op} {ref : Ref} (href : ref ∈ reach client op) :
    userRef client.user <+: ref ∨ (∃ y, ref ∈ relations y client.user) ∨ ["lfg"] <+: ref := by
  cases op <;>
    simp only [reach, List.mem_cons, List.not_mem_nil, or_false] at href
  case requestPlayerToTeamUp username => exact Or.inr (Or.inl ⟨username, by simp [href, relations]⟩)
  case acceptTeammateRequest r =>
    rcases href with rfl | rfl | rfl | rfl
    · exact Or.inl (by simp)
    · exact Or.inr (Or.inl ⟨r.username, by simp [relations]⟩)
    · exact Or.inl (by simp)
    · exact Or.inr (Or.inl ⟨r.username, by simp [relations]⟩)
  case removeTeammate mate =>
    rcases href with rfl | rfl | rfl | rfl
    · exact Or.inl (by simp)
    · exact Or.inr (Or.inl ⟨mate.username, by simp [relations]⟩)
    · exact Or.inl (by simp)
    · exact Or.inr (Or.inl ⟨mate.username, by simp [relations]⟩)
  case sendDirectMessage partner timestamp =>
    rcases href with rfl | rfl
    · exact Or.inl (by simp)
    · exact Or.inr (Or.inl ⟨partner.username, by simp [relations]⟩)
  case goOnlineForGame | goOfflineForGame | updateBio | updateUserGames | editRegion
      | editMicStatus | setProfilePicture =>
    rcases href with rfl | rfl
    · exact Or.inl (by simp)
    · exact Or.inr (Or.inr (by simp))
  all_goals exact Or.inl (by simp [href])

theorem reach_of_other {op : Op} {u : String} (hother : client.user ≠ u) {ref q : Ref}
    (href : ref ∈ reach client op) (hreached : ¬ Incomparable ref (userRef u ++ q)) :
    ref ∈ relations u client.user := by
  rcases reach_cases href with ⟨r, rfl⟩ | ⟨y, hy⟩ | ⟨r, rfl⟩
  · exact (hreached (by simp [Incomparable, hother, Ne.symm hother])).elim
  · by_cases hyu : y = u
    · exact hyu ▸ hy
    · refine (hreached ?_).elim
      simp only [relations, List.mem_cons, List.not_mem_nil, or_false] at hy
      rcases hy with rfl | rfl | rfl <;> simp [Incomparable, hyu, Ne.symm hyu]
  · exact (hreached (by simp [Incomparable])).elim

/-- **While a user starts nothing, the others change nothing of what is stored with the user
    but what relates the user to themselves**: that they are teammates, a request, and the
    user's copy of their conversation. -/
theorem others_change_relations (run : (app catalogue).Run ok (State.initial db ids) events t)
    {u : String} (hothers : ∀ client op id, .start client op id ∈ events → client.user ≠ u)
    (h : t.store.leafAt (userRef u ++ p) ≠ db.leafAt (userRef u ++ p)) :
    ∃ client op id, .start client op id ∈ events ∧
      ∃ ref ∈ reach client op, ref ∈ relations u client.user ∧
        ¬ Incomparable ref (userRef u ++ p) := by
  obtain ⟨client, op, id, hmem, ref, href, hreached⟩ := reached_of_changed run h
  exact ⟨client, op, id, hmem, ref, href,
    reach_of_other (hothers client op id hmem) href hreached, hreached⟩

theorem others_change_relations_acceptance :
    ∃ t, (app []).exec (fun _ _ => true) (State.initial requested []) acceptance = some t ∧
      ∃ client op id, Action.start client op id ∈ acceptance ∧
        ∃ ref ∈ reach client op, ref ∈ relations "alice1" client.user ∧
          ¬ Incomparable ref (userRef "alice1" ++ ["teammates", "bobbob"]) := by
  have hend : ((app []).exec (fun _ _ => true) (State.initial requested []) acceptance).map
      (fun t => decide (t.store.leafAt (userRef "alice1" ++ ["teammates", "bobbob"]) ≠
        requested.leafAt (userRef "alice1" ++ ["teammates", "bobbob"]))) = some true := by
    decide +kernel
  obtain ⟨t, ht, hchanged⟩ := Option.map_eq_some_iff.mp hend
  have run : (app []).Run (fun _ _ => True) (State.initial requested []) acceptance t :=
    run_of_exec (fun _ _ _ => trivial) ht
  refine ⟨t, ht, others_change_relations run ?_ (of_decide_eq_true hchanged)⟩
  intro client op id hmem
  simp only [acceptance, List.mem_cons, reduceCtorEq, Action.start.injEq, List.not_mem_nil,
    or_false, false_or] at hmem
  rw [hmem.1]
  decide

end TeamUp
