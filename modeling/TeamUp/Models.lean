import TeamUp.Firebase

/-!
# Records

The model objects of the app with their decoders from stored dictionaries and
their encoders.  A decoder takes the dictionary a snapshot was cast to; a field
read is a cast of one of its children.
-/

namespace TeamUp

inductive Region where
  | naWest | naEast | europe | asia | australia
deriving DecidableEq

namespace Region

def rawValue : Region → String
  | naWest => "NA West"
  | naEast => "NA East"
  | europe => "Europe"
  | asia => "Asia"
  | australia => "Australia"

def ofRawValue : String → Option Region
  | "NA West" => some naWest
  | "NA East" => some naEast
  | "Europe" => some europe
  | "Asia" => some asia
  | "Australia" => some australia
  | _ => none

@[simp] theorem ofRawValue_rawValue (region : Region) :
    ofRawValue region.rawValue = some region := by
  cases region <;> rfl

/-- A raw value that decodes is the raw value of what it decodes to. -/
theorem rawValue_of_ofRawValue {s : String} {region : Region}
    (h : ofRawValue s = some region) : region.rawValue = s := by
  unfold ofRawValue at h
  split at h <;> cases h <;> rfl

end Region

inductive MicStatus where
  | mic | noMic
deriving DecidableEq

namespace MicStatus

def rawValue : MicStatus → String
  | mic => "mic"
  | noMic => "noMic"

def ofRawValue : String → Option MicStatus
  | "mic" => some mic
  | "noMic" => some noMic
  | _ => none

@[simp] theorem ofRawValue_rawValue (status : MicStatus) :
    ofRawValue status.rawValue = some status := by
  cases status <;> rfl

theorem rawValue_of_ofRawValue {s : String} {status : MicStatus}
    (h : ofRawValue s = some status) : status.rawValue = s := by
  unfold ofRawValue at h
  split at h <;> cases h <;> rfl

end MicStatus

/-- `lowercased()`, on the letters and digits of a username. -/
def lowercased (s : String) : String := String.ofList (s.toList.map Char.toLower)

/-! ### Games -/

structure Game where
  name : String
  platforms : List String
  backgroundImageUrl : String
  logoImageUrl : String
  playerPlatform : Option String
deriving DecidableEq

namespace Game

/-- `Game.init?(dictionary:)` -/
def ofDictionary (dictionary : Tree) : Option Game := do
  let name ← (dictionary.get "name").asString
  let platformsDict ← (dictionary.get "platforms").asDictionary
  let backgroundImageUrl ← (dictionary.get "backgroundImageUrl").asString
  let logoImageUrl ← (dictionary.get "logoImageUrl").asString
  let playerPlatform := (dictionary.get "playerPlatform").asString
  some { name, platforms := platformsDict.keys, backgroundImageUrl, logoImageUrl,
         playerPlatform }

/-- The leaves of a game that decodes, under its name. -/
structure Stored (name : String) (t : Tree) : Prop where
  name : t.leafAt ["name"] = some (.str name)
  backgroundImageUrl : ∃ url, t.leafAt ["backgroundImageUrl"] = some (.str url)
  logoImageUrl : ∃ url, t.leafAt ["logoImageUrl"] = some (.str url)
  platforms : ∃ p r v, t.leafAt ("platforms" :: p :: r) = some v ∧ Tree.integerKey p = none

theorem Stored.congr {name : String} {t t' : Tree} (h : Stored name t)
    (hsame : PathTree.Same t' t) : Stored name t' where
  name := by rw [hsame.leafAt]; exact h.name
  backgroundImageUrl := by rw [hsame.leafAt]; exact h.backgroundImageUrl
  logoImageUrl := by rw [hsame.leafAt]; exact h.logoImageUrl
  platforms := by
    obtain ⟨p, r, v, hleaf, hint⟩ := h.platforms
    exact ⟨p, r, v, (hsame.leafAt _).trans hleaf, hint⟩

/-- A node with a string under a key that is not an integer is a dictionary. -/
theorem asDictionary_of_leaf {t : Tree} {k : String} {r : Ref} {v : Leaf}
    (hleaf : t.leafAt (k :: r) = some v) (hint : Tree.integerKey k = none) :
    t.asDictionary = some t := by
  refine Tree.asDictionary_of_key ?_ (PathTree.mem_keys.mpr ?_) hint
  · exact PathTree.leafAt_above (p := []) hleaf (List.cons_ne_nil k r)
  · exact PathTree.has_of_leafAt (p := [k]) hleaf

/-- A stored game decodes, with the platform stored beside its name. -/
theorem Stored.decodes {name : String} {t : Tree} (h : Stored name t) :
    ∃ game, t.asDictionary.bind ofDictionary = some game ∧ game.name = name ∧
      game.playerPlatform = (t.get "playerPlatform").asString := by
  obtain ⟨background, hbackground⟩ := h.backgroundImageUrl
  obtain ⟨logo, hlogo⟩ := h.logoImageUrl
  obtain ⟨p, r, v, hplatform, hint⟩ := h.platforms
  have hplatforms : (t.get "platforms").asDictionary = some (t.get "platforms") :=
    asDictionary_of_leaf (by rw [PathTree.leafAt_child]; exact hplatform) hint
  have hstring : ∀ {key value}, t.leafAt [key] = some (.str value) →
      (t.get key).asString = some value := by
    intro key value hleaf
    rw [Tree.asString_eq_some, PathTree.leafAt_child]
    exact hleaf
  rw [asDictionary_of_leaf h.name (by decide), Option.bind_some]
  refine ⟨⟨name, (t.get "platforms").keys, background, logo, (t.get "playerPlatform").asString⟩,
    ?_, rfl, rfl⟩
  simp [ofDictionary, hstring h.name, hstring hbackground, hstring hlogo, hplatforms]

/-- `==` on games compares names only. -/
def isEqual (lhs rhs : Game) : Bool := lhs.name == rhs.name

end Game

/-- The games in a dictionary of game dictionaries. -/
def gamesInDictionary (dictionary : Tree) : List Game :=
  dictionary.keys.filterMap fun key =>
    (dictionary.get key).asDictionary.bind Game.ofDictionary

/-! ### Text -/

/-- How strings are read: as characters, which are grapheme clusters up to canonical equivalence,
    with their lowercase. -/
structure Texts (Character : Type) where
  characters : String → List Character
  lowercase : Character → Character
  space : Character

namespace Texts

variable {Character : Type} [DecidableEq Character] (T : Texts Character)

/-- `lowercased()` -/
def lowercased (s : String) : List Character := (T.characters s).map T.lowercase

/-- A word of the name has this prefix. -/
def beginsWord (searchText name : String) : Bool :=
  ((T.characters name).splitOn T.space).any fun word =>
    !word.isEmpty && (T.characters searchText).isPrefixOf word

def isPart (searchText name : String) : Bool :=
  decide (4 ≤ (T.characters searchText).length) &&
    decide (T.lowercased searchText <:+: T.lowercased name)

/-- The condition of `GameController.searchGames`. -/
def matchesSearch (searchText name : String) : Bool :=
  T.beginsWord searchText name || T.isPart searchText name

def searchGames (games : List Game) (searchText : String) : List Game :=
  games.filter fun game => T.matchesSearch searchText game.name

/-- One character for each scalar, and ASCII case. -/
def plain : Texts Char := { characters := String.toList, lowercase := Char.toLower, space := ' ' }

end Texts

/-! ### Users -/

structure User where
  username : String
  profilePicUrl : String
  mic : MicStatus
  bio : String
  region : Region
  games : List Game
  platform : Option String
  currentlyPlaying : Option String
deriving DecidableEq

namespace User

/-- `User.init?(dictionary:)` -/
def ofDictionary (dictionary : Tree) : Option User := do
  let username ← (dictionary.get "username").asString
  let biography ← (dictionary.get "biography").asString
  let micString ← (dictionary.get "mic").asString
  let profilePicUrl ← (dictionary.get "profilePicUrl").asString
  let regionString ← (dictionary.get "region").asString
  let micStatus ← MicStatus.ofRawValue micString
  let region ← Region.ofRawValue regionString
  let games := ((dictionary.get "games").asDictionary.map gamesInDictionary).getD []
  some { username, profilePicUrl, mic := micStatus, bio := biography, region, games,
         platform := (dictionary.get "platform").asString,
         currentlyPlaying := (dictionary.get "currentlyPlaying").asString }

/-- The leaves of a record that decodes to this user. -/
structure Stored (user : User) (t : Tree) : Prop where
  username : t.leafAt ["username"] = some (.str user.username)
  biography : t.leafAt ["biography"] = some (.str user.bio)
  mic : t.leafAt ["mic"] = some (.str user.mic.rawValue)
  profilePicUrl : t.leafAt ["profilePicUrl"] = some (.str user.profilePicUrl)
  region : t.leafAt ["region"] = some (.str user.region.rawValue)

theorem stored_of_ofDictionary {t : Tree} {user : User} (h : ofDictionary t = some user) :
    user.Stored t := by
  simp only [ofDictionary, Option.bind_eq_bind, Option.bind_eq_some_iff, Tree.asString_eq_some,
    PathTree.leafAt_child] at h
  obtain ⟨username, husername, biography, hbiography, mic, hmic, pic, hpic, region, hregion,
    micStatus, hmicStatus, region', hregion', huser⟩ := h
  obtain rfl := Option.some.inj huser
  obtain rfl := MicStatus.rawValue_of_ofRawValue hmicStatus
  obtain rfl := Region.rawValue_of_ofRawValue hregion'
  exact ⟨husername, hbiography, hmic, hpic, hregion⟩

theorem Stored.congr {user : User} {t t' : Tree} (h : user.Stored t)
    (hsame : PathTree.Same t' t) : user.Stored t' := by
  constructor <;> rw [hsame.leafAt]
  · exact h.username
  · exact h.biography
  · exact h.mic
  · exact h.profilePicUrl
  · exact h.region

/-- A record with the leaves of a user decodes to a user with the same leaves. -/
theorem Stored.decodes {user : User} {t : Tree} (h : user.Stored t) :
    ∃ user', t.asDictionary.bind ofDictionary = some user' ∧ user'.Stored t := by
  have hstring : ∀ {key value}, t.leafAt [key] = some (.str value) →
      (t.get key).asString = some value := by
    intro key value hleaf
    rw [Tree.asString_eq_some, PathTree.leafAt_child]
    exact hleaf
  obtain ⟨user', huser'⟩ : ∃ user', ofDictionary t = some user' := by
    simp [ofDictionary, hstring h.username, hstring h.biography, hstring h.mic,
      hstring h.profilePicUrl, hstring h.region]
  rw [Game.asDictionary_of_leaf h.username (by decide), Option.bind_some]
  exact ⟨user', huser', stored_of_ofDictionary huser'⟩

/-- `==` on users compares username, biography and region. -/
def isEqual (lhs rhs : User) : Bool :=
  lhs.username == rhs.username && lhs.bio == rhs.bio && lhs.region == rhs.region

theorem isEqual_iff {lhs rhs : User} :
    lhs.isEqual rhs = true ↔
      lhs.username = rhs.username ∧ lhs.bio = rhs.bio ∧ lhs.region = rhs.region := by
  simp [isEqual, and_assoc]

/-- What `==` compares. -/
def identity (user : User) : String × String × Region := (user.username, user.bio, user.region)

theorem isEqual_iff_identity {lhs rhs : User} :
    lhs.isEqual rhs = true ↔ lhs.identity = rhs.identity := by
  simp [isEqual_iff, identity]

/-- The leaves determine the fields that are read from them. -/
theorem Stored.fields_eq {user user' : User} {t : Tree} (h : user.Stored t)
    (h' : user'.Stored t) :
    user.username = user'.username ∧ user.bio = user'.bio ∧ user.mic = user'.mic ∧
      user.region = user'.region ∧ user.profilePicUrl = user'.profilePicUrl := by
  refine ⟨?_, ?_, ?_, ?_, ?_⟩
  · simpa using h.username.symm.trans h'.username
  · simpa using h.biography.symm.trans h'.biography
  · have hraw : user.mic.rawValue = user'.mic.rawValue := by simpa using h.mic.symm.trans h'.mic
    simpa using congrArg MicStatus.ofRawValue hraw
  · have hraw : user.region.rawValue = user'.region.rawValue := by
      simpa using h.region.symm.trans h'.region
    simpa using congrArg Region.ofRawValue hraw
  · simpa using h.profilePicUrl.symm.trans h'.profilePicUrl

/-- Users with the same leaves stored are equal. -/
theorem Stored.identity_eq {user user' : User} {t : Tree} (h : user.Stored t)
    (h' : user'.Stored t) : user.identity = user'.identity := by
  obtain ⟨husername, hbio, -, hregion, -⟩ := h.fields_eq h'
  rw [identity, identity, husername, hbio, hregion]

/-- The optional fields are read as strings. -/
theorem optional_of_ofDictionary {t : Tree} {user : User} (h : ofDictionary t = some user) :
    user.currentlyPlaying = (t.get "currentlyPlaying").asString ∧
      user.platform = (t.get "platform").asString := by
  simp only [ofDictionary, Option.bind_eq_bind, Option.bind_eq_some_iff] at h
  obtain ⟨_, -, _, -, _, -, _, -, _, -, _, -, _, -, huser⟩ := h
  obtain rfl := Option.some.inj huser
  exact ⟨rfl, rfl⟩

/-- What a record decodes to is equal however the record is enumerated. -/
theorem identity_congr {t u : Tree} (h : PathTree.Same t u) :
    (t.asDictionary.bind ofDictionary).map identity =
      (u.asDictionary.bind ofDictionary).map identity := by
  have hdecodes : ∀ {t u : Tree} {user : User}, PathTree.Same t u →
      t.asDictionary.bind ofDictionary = some user →
      ∃ user', u.asDictionary.bind ofDictionary = some user' ∧ user'.identity = user.identity := by
    intro t u user h huser
    obtain ⟨dictionary, hdictionary, hdecode⟩ := Option.bind_eq_some_iff.mp huser
    obtain rfl := Tree.asDictionary_eq_some hdictionary
    have hstored := (stored_of_ofDictionary hdecode).congr h.symm
    obtain ⟨user', huser', hstored'⟩ := hstored.decodes
    exact ⟨user', huser', hstored'.identity_eq hstored⟩
  cases ht : t.asDictionary.bind ofDictionary with
  | some user =>
    obtain ⟨user', huser', hidentity⟩ := hdecodes h ht
    rw [huser', Option.map_some, Option.map_some, hidentity]
  | none =>
    cases hu : u.asDictionary.bind ofDictionary with
    | none => rfl
    | some user =>
      obtain ⟨user', huser', -⟩ := hdecodes h.symm hu
      rw [ht] at huser'
      cases huser'

end User

/-- A user of whom only the name matters. -/
def somebody (username : String) : User :=
  { username, profilePicUrl := "", mic := .mic, bio := "", region := .europe, games := [],
    platform := none, currentlyPlaying := none }

/-- The record that decodes to `somebody`. -/
def record (username : String) : Tree :=
  Tree.ofDictionary [("username", Tree.str username), ("profilePicUrl", Tree.str ""),
    ("mic", Tree.str MicStatus.mic.rawValue), ("biography", Tree.str ""),
    ("region", Tree.str Region.europe.rawValue)]

def chess : Game :=
  { name := "chess", platforms := ["PC"], backgroundImageUrl := "", logoImageUrl := "",
    playerPlatform := some "PC" }

/-! ### Messages -/

structure Message where
  text : Option String
  imageUrl : Option String
  fromUser : String
  timestamp : Int
  read : Bool
  id : String
deriving DecidableEq

namespace Message

def markAsRead (message : Message) : Message := { message with read := true }

/-- `Message.init?(dictionary:)` -/
def ofDictionary (dictionary : Tree) : Option Message := do
  let fromUser ← (dictionary.get "fromUser").asString
  let timestamp ← (dictionary.get "timestamp").asInt
  let id ← (dictionary.get "id").asString
  some { text := (dictionary.get "text").asString
         imageUrl := (dictionary.get "imageUrl").asString
         fromUser, timestamp
         read := ((dictionary.get "read").asBool).getD false
         id }

def asDictionary (message : Message) : Dictionary :=
  [("fromUser", Tree.str message.fromUser), ("timestamp", Tree.int message.timestamp),
    ("read", Tree.bool message.read), ("id", Tree.str message.id)] ++
    (match message.text with
      | some text => [("text", Tree.str text)]
      | none => []) ++
    (match message.imageUrl with
      | some imageUrl => [("imageUrl", Tree.str imageUrl)]
      | none => [])

theorem nodup_asDictionary (m : Message) : (m.asDictionary.map Prod.fst).Nodup := by
  obtain ⟨text, imageUrl, fromUser, timestamp, read, id⟩ := m
  cases text <;> cases imageUrl <;> simp [asDictionary]

/-- The value a field of an encoded message has. -/
def field (m : Message) : String → Option Leaf
  | "fromUser" => some (.str m.fromUser)
  | "timestamp" => some (.int m.timestamp)
  | "read" => some (.bool m.read)
  | "id" => some (.str m.id)
  | "text" => m.text.map .str
  | "imageUrl" => m.imageUrl.map .str
  | _ => none

theorem lookup_asDictionary (m : Message) (k : String) :
    m.asDictionary.lookup k = (m.field k).map PathTree.leaf := by
  obtain ⟨text, imageUrl, fromUser, timestamp, read, id⟩ := m
  fun_cases field ⟨text, imageUrl, fromUser, timestamp, read, id⟩ k
  case case7 =>
    rw [Option.map_none, List.lookup_eq_none_iff]
    cases text <;> cases imageUrl <;> simp_all [asDictionary]
  all_goals
    cases text <;> cases imageUrl <;>
      simp [asDictionary, List.lookup_cons, Tree.str, Tree.int, Tree.bool]

theorem leafAt_asDictionary (m : Message) (k : String) :
    (Tree.ofDictionary m.asDictionary).leafAt [k] = m.field k := by
  rw [Tree.leafAt_ofDictionary m.nodup_asDictionary, lookup_asDictionary]
  cases m.field k <;> rfl

/-- A dictionary with the fields of a message decodes to it. -/
theorem ofDictionary_of_field {t : Tree} {m : Message} (h : ∀ k, t.leafAt [k] = m.field k) :
    ofDictionary t = some m := by
  obtain ⟨text, imageUrl, fromUser, timestamp, read, id⟩ := m
  simp only [ofDictionary, Tree.asString, Tree.asInt, Tree.asBool, PathTree.leafAt_child, h, field]
  cases text <;> cases imageUrl <;> simp

/-- A node with the fields of a message is a dictionary, since a field name is no integer. -/
theorem decodes_of_field {t : Tree} {m : Message} (h : ∀ k, t.leafAt [k] = m.field k) :
    t.asDictionary.bind ofDictionary = some m := by
  have hid : t.leafAt ([] ++ ["id"]) = some (.str m.id) := h "id"
  have hdict : t.asDictionary = some t := by
    refine Tree.asDictionary_of_key (PathTree.leafAt_above hid (by simp)) (k := "id") ?_ (by decide)
    exact PathTree.mem_keys.mpr (PathTree.has_of_leafAt (q := []) hid)
  rw [hdict]
  exact ofDictionary_of_field h

/-- **Decoding inverts encoding.** -/
theorem ofDictionary_asDictionary (m : Message) :
    ofDictionary (Tree.ofDictionary m.asDictionary) = some m :=
  ofDictionary_of_field m.leafAt_asDictionary

end Message

/-! ### Chats -/

structure DirectChat where
  chatPartner : User
  messages : List Message
deriving DecidableEq

namespace DirectChat

/-- `DirectChat.init?(chatPartner:dictionary:)`, which never fails. -/
def ofDictionary (chatPartner : User) (dictionary : Tree) : DirectChat where
  chatPartner := chatPartner
  messages := dictionary.keys.filterMap fun key =>
    (dictionary.get key).asDictionary.bind Message.ofDictionary

/-- The messages of the partner not read yet; none when nobody is signed in. -/
def unreadMessages (currentUser : Option String) (chat : DirectChat) : List Message :=
  match currentUser with
  | some user => chat.messages.filter fun m => m.fromUser != user && m.read == false
  | none => []

def hasNewMessages (currentUser : Option String) (chat : DirectChat) : Bool :=
  !(chat.unreadMessages currentUser).isEmpty

end DirectChat

end TeamUp
