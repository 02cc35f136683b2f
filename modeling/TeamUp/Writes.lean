import TeamUp.Controllers
import TeamUp.Presence

/-!
# The writes of the app

Every write the app issues is one of twelve.  `opWrites` tabulates what an
operation writes when it starts, `CallbackWrite` what the callbacks write later;
what happens to one part of the database is then a case analysis over the
writes, never over the bodies of the operations.
-/

namespace TeamUp

def addTeammate (x y : String) : Write := .updateChildValues (teammatesRef x) [(y, Tree.int 1)]

def dropTeammate (x y : String) : Write := .removeValue (teammatesRef x ++ [y])

def addRequest (x y : String) : Write :=
  .updateChildValues (teammateRequestsRef x) [(y, Tree.int 1)]

def dropRequest (x y : String) : Write := .removeValue (teammateRequestsRef x ++ [y])

def storeMessage (x y : String) (m : Message) : Write :=
  .updateChildValues (directChatRef x y ++ [m.id]) m.asDictionary

def storeRead (x y : String) (unread : List Message) : Write :=
  .updateChildValues (directChatRef x y) (readMessages unread)

def dropChat (x y : String) : Write := .removeValue (directChatRef x y)

def storeField (u field : String) (value : Tree) : Write :=
  .updateChildValues (userRef u) [(field, value)]

def dropPlaying (u : String) : Write := .removeValue (currentlyPlayingRef u)

/-- What an operation writes when it starts. -/
def opWrites (client : Session) (op : Op) (id : String) : List Write :=
  match op with
  | .requestPlayerToTeamUp _ => []
  | .acceptTeammateRequest r =>
      [addTeammate client.user r.username, addTeammate r.username client.user,
        dropRequest client.user r.username, dropRequest r.username client.user]
  | .declineTeammateRequest r => [dropRequest client.user r.username]
  | .removeTeammate t =>
      [dropTeammate client.user t.username, dropTeammate t.username client.user,
        dropChat client.user t.username, dropChat t.username client.user]
  | .sendDirectMessage text partner timestamp =>
      [storeMessage client.user partner.username (newMessage client.user text timestamp id),
        storeMessage partner.username client.user (newMessage client.user text timestamp id)]
  | .deleteDirectChat chat => [dropChat client.user chat.chatPartner.username]
  | .markDirectChatMessagesAsRead chat =>
      if (chat.unreadMessages (some client.user)).isEmpty then []
      else [storeRead client.user chat.chatPartner.username
        (chat.unreadMessages (some client.user))]
  | .goOnlineForGame _ _ => []
  | .goOfflineForGame _ => [dropPlaying client.user]
  | .updateBio bio => [storeField client.user "biography" (Tree.str bio)]
  | .updateUserGames games =>
      [storeField client.user "games" (Tree.ofDictionary (gamesDictionary games))]
  | .editRegion region => [storeField client.user "region" (Tree.str region.rawValue)]
  | .editMicStatus status => [storeField client.user "mic" (Tree.str status.rawValue)]
  | .setProfilePicture imageUrl =>
      [storeField client.user "profilePicUrl" (Tree.str imageUrl)]
  | .fetchFCMToken token => [storeField client.user "fcmToken" (Tree.str token)]
  | .removeFCMToken => [storeField client.user "fcmToken" (Tree.str " ")]

theorem writes_begin (client : Session) (op : Op) (id : String) :
    (begin client op id).filterMap Command.write? = opWrites client op id := by
  cases op with
  | markDirectChatMessagesAsRead chat =>
    simp only [begin, markDirectChatMessagesAsRead, opWrites]
    split <;> rfl
  | _ => rfl

/-- The fields of a user's record that the app replaces as a whole. -/
def profileFields : List String :=
  ["biography", "region", "mic", "profilePicUrl", "games", "fcmToken"]

/-- What a callback writes. -/
inductive CallbackWrite : Write → Prop
  | addRequest (x y : String) : CallbackWrite (addRequest x y)
  | playing (u : String) (value : Tree) :
      CallbackWrite (.setValue (currentlyPlayingRef u) value)
  | entry (list : Ref) (values : Dictionary) :
      CallbackWrite (.updateChildValues ("lfg" :: list) values)
  | dropEntry (list : Ref) : CallbackWrite (.removeValue ("lfg" :: list))

/-- What a session writes. -/
inductive AppWrite (client : Session) : Write → Prop
  | addTeammate (x y : String) : AppWrite client (addTeammate x y)
  | dropTeammate (x y : String) : AppWrite client (dropTeammate x y)
  | dropRequest (x y : String) : AppWrite client (dropRequest x y)
  | storeMessage (x y : String) (m : Message) : m.fromUser = client.user → m.read = false →
      AppWrite client (storeMessage x y m)
  | storeRead (y : String) (unread : List Message) : unread ≠ [] →
      AppWrite client (storeRead client.user y unread)
  | dropChat (x y : String) : AppWrite client (dropChat x y)
  | storeField {field : String} (u : String) (value : Tree) : field ∈ profileFields →
      AppWrite client (storeField u field value)
  | dropPlaying (u : String) : AppWrite client (dropPlaying u)
  | callback {w : Write} : CallbackWrite w → AppWrite client w

variable {client : Session}

theorem appWrite_of_mem {op : Op} {id : String} {w : Write} (hw : w ∈ opWrites client op id) :
    AppWrite client w := by
  cases op with
  | acceptTeammateRequest r =>
    simp only [opWrites, List.mem_cons, List.not_mem_nil, or_false] at hw
    rcases hw with rfl | rfl | rfl | rfl
    · exact .addTeammate _ _
    · exact .addTeammate _ _
    · exact .dropRequest _ _
    · exact .dropRequest _ _
  | removeTeammate t =>
    simp only [opWrites, List.mem_cons, List.not_mem_nil, or_false] at hw
    rcases hw with rfl | rfl | rfl | rfl
    · exact .dropTeammate _ _
    · exact .dropTeammate _ _
    · exact .dropChat _ _
    · exact .dropChat _ _
  | sendDirectMessage text partner timestamp =>
    simp only [opWrites, List.mem_cons, List.not_mem_nil, or_false] at hw
    rcases hw with rfl | rfl
    · exact .storeMessage _ _ _ rfl rfl
    · exact .storeMessage _ _ _ rfl rfl
  | markDirectChatMessagesAsRead chat =>
    simp only [opWrites] at hw
    split at hw
    · cases hw
    · rename_i hunread
      rw [List.mem_singleton.mp hw]
      exact .storeRead _ _ fun h => hunread (by rw [h]; rfl)
  | requestPlayerToTeamUp | goOnlineForGame => cases hw
  | declineTeammateRequest r =>
    rw [List.mem_singleton.mp hw]
    exact .dropRequest _ _
  | deleteDirectChat chat =>
    rw [List.mem_singleton.mp hw]
    exact .dropChat _ _
  | goOfflineForGame game =>
    rw [List.mem_singleton.mp hw]
    exact .dropPlaying _
  | updateBio | updateUserGames | editRegion | editMicStatus | setProfilePicture
  | fetchFCMToken | removeFCMToken =>
    rw [List.mem_singleton.mp hw]
    exact .storeField _ _ (by simp [profileFields])

theorem callbackWrite_of_mem {catalogue : List Game} {callback : Callback} {snapshot : Tree}
    {id : String} {w : Write} (hw : .write w ∈ resume catalogue callback snapshot id) :
    CallbackWrite w := by
  cases callback with
  | requestPlayerToTeamUp currentUserName username =>
    simp only [resume, requestPlayerToTeamUpRead] at hw
    split at hw
    · cases hw
    · rw [Command.write.inj (List.mem_singleton.mp hw)]
      exact .addRequest _ _
  | goOnlineForGame currentUser game now =>
    simp only [resume, goOnlineForGameRead] at hw
    split at hw
    · simp only [List.mem_cons, Command.write.injEq, List.not_mem_nil, or_false] at hw
      rcases hw with rfl | rfl
      · exact .entry _ _
      · exact .playing _ _
    · cases hw
  | goOfflineForGame game =>
    simp only [resume, goOfflineForGameRead] at hw
    split at hw
    · rw [Command.write.inj (List.mem_singleton.mp hw)]
      exact .dropEntry _
    · cases hw
  | editUserLFGInfo currentUser =>
    simp only [resume, editUserLFGInfoRead] at hw
    split at hw
    · cases hw
    · cases List.mem_singleton.mp hw
  | updateUserLFG username games =>
    simp only [resume, updateUserLFGRead] at hw
    split at hw
    · simp at hw
    · cases hw
  | updateGameLFG game games lfgDictionary =>
    simp only [resume, updateGameLFGRead] at hw
    split at hw
    · split at hw
      · rw [Command.write.inj (List.mem_singleton.mp hw)]
        exact .entry _ _
      · rw [Command.write.inj (List.mem_singleton.mp hw)]
        exact .dropEntry _
    · split at hw
      · rw [Command.write.inj (List.mem_singleton.mp hw)]
        exact .entry _ _
      · cases hw

theorem permitted_begin (op : Op) (id : String) :
    Protocol.Permitted AppWrite (fun _ _ _ => True) client (begin client op id) := by
  refine ⟨fun w hw => ?_, fun _ _ _ => trivial⟩
  exact appWrite_of_mem (writes_begin client op id ▸ Protocol.mem_writes.mpr hw)

/-- **Everything outstanding is a write of the app**, in every run. -/
theorem appWrite_step {catalogue : List Game} {s t : State} {a : Event}
    (h : Protocol.Issued AppWrite (fun _ _ _ => True) s)
    (hst : (app catalogue).step s a = some t) :
    Protocol.Issued AppWrite (fun _ _ _ => True) t := by
  refine h.step (fun _ op id _ => permitted_begin op id) ?_ hst
  intro client _ callback response id _
  exact ⟨fun w hw => .callback (callbackWrite_of_mem hw), fun _ _ _ => trivial⟩

end TeamUp
