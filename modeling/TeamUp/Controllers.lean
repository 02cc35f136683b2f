import TeamUp.Interleaving
import TeamUp.Models

/-!
# The controllers

The operations of the model controllers that read or write the database, for a
session of a signed-in account: the guards on the current user's display name
pass.  An operation returns the commands it issues; the closures handed to the
database are listed in `Callback` with the values they capture, and each has its
body beside the function it occurs in.

`Date()` is a parameter of the operation that reads it.  `UUID()` and
`childByAutoId()` take the fresh identifier of the step they run in.
-/

namespace TeamUp

/-- A session of a signed-in account, on one of its devices. -/
structure Session where
  user : String
  device : Nat
deriving DecidableEq

/-- The closures waiting for a snapshot, with what they capture. -/
inductive Callback where
  | requestPlayerToTeamUp (currentUserName username : String)
  | goOnlineForGame (currentUser : String) (game : Game) (now : Rat)
  | goOfflineForGame (game : Game)
  | editUserLFGInfo (currentUser : String)
  | updateUserLFG (username : String) (games : List Game)
  | updateGameLFG (game : Game) (games : List Game) (lfgDictionary : Option Dictionary)
deriving DecidableEq

abbrev Commands := List (Command Write Query Callback)

/-! ### References -/

abbrev userRef (username : String) : Ref := ["users", username]
abbrev teammatesRef (username : String) : Ref := ["users", username, "teammates"]
abbrev teammateRequestsRef (username : String) : Ref := ["users", username, "teammateRequests"]
abbrev directChatsRef (username : String) : Ref := ["users", username, "messaging", "directChats"]
abbrev directChatRef (username chatPartner : String) : Ref :=
  ["users", username, "messaging", "directChats", chatPartner]
abbrev currentlyPlayingRef (username : String) : Ref := ["users", username, "currentlyPlaying"]
abbrev lfgRef (game : String) : Ref := ["lfg", game]
abbrev onlineRef (game : String) : Ref := ["lfg", "online", game]

/-! ### Fetches shared by the controllers -/

/-- The user `fetchUser` hands to its completion. -/
def fetchedUser (snapshot : Tree) : Option User := snapshot.asDictionary.bind User.ofDictionary

/-- The games `fetchUsersGames` hands to its completion. -/
def fetchedGames (snapshot : Tree) : List Game :=
  (snapshot.asDictionary.map gamesInDictionary).getD []

/-! ### Requests -/

def requestPlayerToTeamUp (currentUserName username : String) : Commands :=
  [.call (.value (teammateRequestsRef username))
    (.requestPlayerToTeamUp currentUserName username)]

def requestPlayerToTeamUpRead (currentUserName username : String) (snapshot : Tree) :
    Commands :=
  if snapshot.asDictionary.any fun requestsDictionary =>
      decide (currentUserName ∈ requestsDictionary.keys) then []
  else [.write (.updateChildValues (teammateRequestsRef username)
    [(currentUserName, Tree.int 1)])]

def acceptTeammateRequest (currentUser : String) (requestingUser : User) : Commands :=
  [.write (.updateChildValues (teammatesRef currentUser)
      [(requestingUser.username, Tree.int 1)]),
    .write (.updateChildValues (teammatesRef requestingUser.username)
      [(currentUser, Tree.int 1)]),
    .write (.removeValue (teammateRequestsRef currentUser ++ [requestingUser.username])),
    .write (.removeValue (teammateRequestsRef requestingUser.username ++ [currentUser]))]

def declineTeammateRequest (currentUser : String) (requestingUser : User) : Commands :=
  [.write (.removeValue (teammateRequestsRef currentUser ++ [requestingUser.username]))]

/-! ### Teammates -/

def removeTeammate (currentUser : String) (teammate : User) : Commands :=
  [.write (.removeValue (teammatesRef currentUser ++ [teammate.username])),
    .write (.removeValue (teammatesRef teammate.username ++ [currentUser])),
    .write (.removeValue (directChatRef currentUser teammate.username)),
    .write (.removeValue (directChatRef teammate.username currentUser))]

/-! ### Messages -/

/-- The message `sendDirectMessage` builds. -/
def newMessage (username messageText : String) (timestamp : Int) (id : String) : Message :=
  { text := some messageText, imageUrl := none, fromUser := username, timestamp,
    read := false, id }

def sendDirectMessage (username messageText : String) (chatPartner : User) (timestamp : Int)
    (id : String) : Commands :=
  let message := newMessage username messageText timestamp id
  [.write (.updateChildValues (directChatRef username chatPartner.username ++ [id])
      message.asDictionary),
    .write (.updateChildValues (directChatRef chatPartner.username username ++ [id])
      message.asDictionary)]

def deleteDirectChat (currentUser : String) (chat : DirectChat) : Commands :=
  [.write (.removeValue (directChatRef currentUser chat.chatPartner.username))]

/-- The dictionary of the unread messages, marked as read, under their ids. -/
def readMessages (unreadMessages : List Message) : Dictionary :=
  Dictionary.collect (fun m => (m.id, Tree.ofDictionary m.markAsRead.asDictionary))
    unreadMessages

def markDirectChatMessagesAsRead (currentUser : String) (chat : DirectChat) : Commands :=
  let unreadMessages := chat.unreadMessages (some currentUser)
  if unreadMessages.isEmpty then []
  else [.write (.updateChildValues (directChatRef currentUser chat.chatPartner.username)
    (readMessages unreadMessages))]

/-! ### Playing now -/

def goOnlineForGame (currentUser : String) (game : Game) (now : Rat) : Commands :=
  [.call (.value (userRef currentUser)) (.goOnlineForGame currentUser game now)]

def goOnlineForGameRead (currentUser : String) (game : Game) (now : Rat) (snapshot : Tree)
    (autoId : String) : Commands :=
  match fetchedUser snapshot, game.playerPlatform with
  | some user, some platform =>
      [.write (.updateChildValues (onlineRef game.name ++ [autoId])
          [("username", Tree.str user.username),
            ("region", Tree.str user.region.rawValue),
            ("profilePicUrl", Tree.str user.profilePicUrl),
            ("mic", Tree.str user.mic.rawValue),
            ("biography", Tree.str user.bio),
            ("platform", Tree.str platform),
            ("compoundQuery", Tree.str (platform ++ "_" ++ user.region.rawValue)),
            ("currentlyPlaying", Tree.str game.name),
            ("onlineSince", Tree.double now)]),
        .write (.setValue (currentlyPlayingRef currentUser) (Tree.str game.name))]
  | _, _ => []

def goOfflineForGame (currentUser : String) (game : Game) : Commands :=
  [.write (.removeValue (currentlyPlayingRef currentUser)),
    .call (.equal (onlineRef game.name) "username" currentUser) (.goOfflineForGame game)]

def goOfflineForGameRead (game : Game) (snapshot : Tree) : Commands :=
  match snapshot.asDictionary.bind fun dictionary => dictionary.keys.head? with
  | some autoId => [.write (.removeValue (onlineRef game.name ++ [autoId]))]
  | none => []

/-- `GameController.getGame` -/
def getGame (games : List Game) (name : String) : Option Game :=
  games.find? fun game => game.name == name

/-! ### Profiles -/

/-- `fetchUsersGames`, called by `editUserLFGInfo`. -/
def editUserLFGInfo (currentUser : String) : Commands :=
  [.call (.value (userRef currentUser ++ ["games"])) (.editUserLFGInfo currentUser)]

/-- `fetchUser`, called by `updateUserLFG`. -/
def updateUserLFG (username : String) (games : List Game) : Commands :=
  [.call (.value (userRef username)) (.updateUserLFG username games)]

def editUserLFGInfoRead (currentUser : String) (snapshot : Tree) : Commands :=
  if (fetchedGames snapshot).isEmpty then []
  else updateUserLFG currentUser (fetchedGames snapshot)

/-- The entry of a user in the list of a game, if the user has the game with a
    platform: only the first game of that name counts. -/
def lfgDictionary (username : String) (user : User) (games : List Game) (game : Game) :
    Option Dictionary := do
  let index ← games.findIdx? fun g => g.isEqual game
  let platform ← games[index]?.bind Game.playerPlatform
  some [("username", Tree.str username),
    ("region", Tree.str user.region.rawValue),
    ("profilePicUrl", Tree.str user.profilePicUrl),
    ("mic", Tree.str user.mic.rawValue),
    ("biography", Tree.str user.bio),
    ("platform", Tree.str platform),
    ("compoundQuery", Tree.str (platform ++ "_" ++ user.region.rawValue))]

def updateUserLFGRead (catalogue : List Game) (username : String) (games : List Game)
    (snapshot : Tree) : Commands :=
  match fetchedUser snapshot with
  | some user => catalogue.map fun game =>
      .call (.equal (lfgRef game.name) "username" username)
        (.updateGameLFG game games (lfgDictionary username user games game))
  | none => []

def updateGameLFGRead (game : Game) (games : List Game) (lfgDictionary : Option Dictionary)
    (snapshot : Tree) (freshId : String) : Commands :=
  match snapshot.asDictionary.bind fun dictionary => dictionary.keys.head? with
  | some autoId =>
      match lfgDictionary, games.any fun g => g.isEqual game with
      | some values, true => [.write (.updateChildValues (lfgRef game.name ++ [autoId]) values)]
      | _, _ => [.write (.removeValue (lfgRef game.name ++ [autoId]))]
  | none =>
      match lfgDictionary, games.any fun g => g.isEqual game with
      | some values, true => [.write (.updateChildValues (lfgRef game.name ++ [freshId]) values)]
      | _, _ => []

/-- What a game is stored as among the games of a user. -/
def gameDictionary (game : Game) : Dictionary :=
  let platformsDictionary :=
    Dictionary.collect (fun platform => (platform, Tree.int 1)) game.platforms
  let values :=
    [("backgroundImageUrl", Tree.str game.backgroundImageUrl),
      ("logoImageUrl", Tree.str game.logoImageUrl),
      ("name", Tree.str game.name),
      ("platforms", Tree.ofDictionary platformsDictionary)]
  match game.playerPlatform with
  | some playerPlatform => Dictionary.set values "playerPlatform" (Tree.str playerPlatform)
  | none => values

def gamesDictionary (games : List Game) : Dictionary :=
  Dictionary.collect (fun game => (game.name, Tree.ofDictionary (gameDictionary game))) games

def updateUserGames (username : String) (games : List Game) : Commands :=
  .write (.updateChildValues (userRef username)
    [("games", Tree.ofDictionary (gamesDictionary games))]) :: updateUserLFG username games

/-- The profile edits write one field and renew the lists of the user's games. -/
def editProfile (username field content : String) : Commands :=
  .write (.updateChildValues (userRef username) [(field, Tree.str content)]) ::
    editUserLFGInfo username

def updateBio (username bio : String) : Commands := editProfile username "biography" bio

def editRegion (username : String) (region : Region) : Commands :=
  editProfile username "region" region.rawValue

def editMicStatus (username : String) (status : MicStatus) : Commands :=
  editProfile username "mic" status.rawValue

def setProfilePicture (currentUser imageUrl : String) : Commands :=
  editProfile currentUser "profilePicUrl" imageUrl

/-- The callback of `fetchFCMToken`, and `removeFCMToken` with a blank token. -/
def storeFCMToken (currentUser token : String) : Commands :=
  [.write (.updateChildValues (userRef currentUser) [("fcmToken", Tree.str token)])]

/-! ### The system -/

inductive Op where
  | requestPlayerToTeamUp (username : String)
  | acceptTeammateRequest (requestingUser : User)
  | declineTeammateRequest (requestingUser : User)
  | removeTeammate (teammate : User)
  | sendDirectMessage (messageText : String) (chatPartner : User) (timestamp : Int)
  | deleteDirectChat (chat : DirectChat)
  | markDirectChatMessagesAsRead (chat : DirectChat)
  | goOnlineForGame (game : Game) (now : Rat)
  | goOfflineForGame (game : Game)
  | updateBio (bio : String)
  | updateUserGames (games : List Game)
  | editRegion (region : Region)
  | editMicStatus (status : MicStatus)
  | setProfilePicture (imageUrl : String)
  | fetchFCMToken (token : String)
  | removeFCMToken
deriving DecidableEq

def begin (client : Session) : Op → String → Commands
  | .requestPlayerToTeamUp username, _ => requestPlayerToTeamUp client.user username
  | .acceptTeammateRequest requestingUser, _ => acceptTeammateRequest client.user requestingUser
  | .declineTeammateRequest requestingUser, _ => declineTeammateRequest client.user requestingUser
  | .removeTeammate teammate, _ => removeTeammate client.user teammate
  | .sendDirectMessage messageText chatPartner timestamp, id =>
      sendDirectMessage client.user messageText chatPartner timestamp id
  | .deleteDirectChat chat, _ => deleteDirectChat client.user chat
  | .markDirectChatMessagesAsRead chat, _ => markDirectChatMessagesAsRead client.user chat
  | .goOnlineForGame game now, _ => goOnlineForGame client.user game now
  | .goOfflineForGame game, _ => goOfflineForGame client.user game
  | .updateBio bio, _ => updateBio client.user bio
  | .updateUserGames games, _ => updateUserGames client.user games
  | .editRegion region, _ => editRegion client.user region
  | .editMicStatus status, _ => editMicStatus client.user status
  | .setProfilePicture imageUrl, _ => setProfilePicture client.user imageUrl
  | .fetchFCMToken token, _ => storeFCMToken client.user token
  | .removeFCMToken, _ => storeFCMToken client.user " "

def resume (catalogue : List Game) : Callback → Tree → String → Commands
  | .requestPlayerToTeamUp currentUserName username, snapshot, _ =>
      requestPlayerToTeamUpRead currentUserName username snapshot
  | .goOnlineForGame currentUser game now, snapshot, id =>
      goOnlineForGameRead currentUser game now snapshot id
  | .goOfflineForGame game, snapshot, _ => goOfflineForGameRead game snapshot
  | .editUserLFGInfo currentUser, snapshot, _ => editUserLFGInfoRead currentUser snapshot
  | .updateUserLFG username games, snapshot, _ =>
      updateUserLFGRead catalogue username games snapshot
  | .updateGameLFG game games lfgDictionary, snapshot, id =>
      updateGameLFGRead game games lfgDictionary snapshot id

/-- The sessions of all users, with the given catalogue loaded, over the database. -/
def app (catalogue : List Game) :
    Protocol Session Op Tree Write Query Callback Tree String where
  begin := begin
  resume := fun _ => resume catalogue
  apply := Write.apply
  answers := Query.answers
  effect := fun _ _ _ db => db
  -- both kinds of generated identifiers contain a hyphen
  mintable := fun id => id.toList.contains '-'

section App

variable (catalogue games : List Game) (client : Session) (id : String)

theorem app_begin (op : Op) : (app catalogue).begin client op id = begin client op id := rfl

theorem app_resume (callback : Callback) (snapshot : Tree) :
    (app catalogue).resume client callback snapshot id = resume catalogue callback snapshot id :=
  rfl

theorem app_apply (w : Write) (db : Tree) : (app catalogue).apply w db = w.apply db := rfl

theorem resume_updateUserLFG (username : String) (snapshot : Tree) :
    resume catalogue (.updateUserLFG username games) snapshot id =
      updateUserLFGRead catalogue username games snapshot := rfl

theorem resume_updateGameLFG (game : Game) (lfgDictionary : Option Dictionary) (snapshot : Tree) :
    resume catalogue (.updateGameLFG game games lfgDictionary) snapshot id =
      updateGameLFGRead game games lfgDictionary snapshot id := rfl

theorem resume_goOnlineForGame (username : String) (game : Game) (now : Rat) (snapshot : Tree) :
    resume catalogue (.goOnlineForGame username game now) snapshot id =
      goOnlineForGameRead username game now snapshot id := rfl

theorem resume_goOfflineForGame (game : Game) (snapshot : Tree) :
    resume catalogue (.goOfflineForGame game) snapshot id = goOfflineForGameRead game snapshot :=
  rfl

end App

abbrev State := Config Session Tree Write Query Callback Tree String

abbrev Event := Action Session Op Tree String

/-- Everything at rest, nothing observed yet. -/
def State.initial (db : Tree) (ids : List String) : State :=
  { store := db, outstanding := [], calls := [], answers := [], seen := [], minted := ids }

instance (s : State) : Decidable s.Quiescent :=
  inferInstanceAs (Decidable (_ ∧ _ ∧ _))

namespace State

variable (s : State)

/-- The session was once shown the key below this reference. -/
def shown (client : Session) (ref : Ref) (key : String) : Bool :=
  s.seen.any fun view => decide (view.1 = client) && view.2.has (ref ++ [key])

/-- Every message of the chat was decoded from a snapshot the session was once
    given of this conversation. -/
def decoded (client : Session) (chat : DirectChat) : Bool :=
  s.seen.any fun view =>
    decide (view.1 = client) && chat.messages.all fun m =>
      decide (m ∈ (DirectChat.ofDictionary chat.chatPartner
        (view.2.sub (directChatRef client.user chat.chatPartner.username))).messages)

end State

end TeamUp
