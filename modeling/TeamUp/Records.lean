import TeamUp.OnlineEntries

/-!
# What is written is read back

The records of users and the entries of the lists are decoded by one initializer with five
mandatory fields, and written by about ten dictionary literals and updates of single fields.
Every writer of the app keeps them decodable: a field that is written holds what the
initializer accepts for it, and an entry is always written with all of them.

The set-up of a profile is a look-up followed by a write; the commit of the display name
in between may fail or come late and changes nothing in the database.
-/

namespace TeamUp

open Protocol

/-! ### Every writer of the app -/

/-- A command of an operation, in the system where profiles are set up as well. -/
def Command.ofOp : Command Write Query Callback → Command Write Query (Callback ⊕ Attempt)
  | .write w => .write w
  | .call query callback => .call query (.inl callback)

namespace Writers

def begin (client : Session) :
    Op ⊕ Attempt → String → List (Command Write Query (Callback ⊕ Attempt))
  | .inl op, id => (TeamUp.begin client op id).map Command.ofOp
  | .inr attempt, _ =>
      if SetupProfile.acceptable attempt.username then
        [.call (.value (userRef attempt.username)) (.inr attempt)]
      else []

def resume (catalogue : List Game) :
    Callback ⊕ Attempt → Tree → String → List (Command Write Query (Callback ⊕ Attempt))
  | .inl callback, snapshot, id =>
      (TeamUp.resume catalogue callback snapshot id).map Command.ofOp
  | .inr attempt, snapshot, _ =>
      if snapshot.isEmpty then [.write (SetupProfile.storeProfile attempt)] else []

end Writers

/-- The sessions of all users, and the accounts that set up their profiles. -/
def writers (catalogue : List Game) :
    Protocol Session (Op ⊕ Attempt) Tree Write Query (Callback ⊕ Attempt) Tree String where
  begin := Writers.begin
  resume := fun _ => Writers.resume catalogue
  apply := Write.apply
  answers := Query.answers
  effect := fun _ _ _ db => db
  mintable := fun id => id.toList.contains '-'

/-- The region given to a set-up is one of the raw values. -/
def RegionsGiven : Action Session (Op ⊕ Attempt) Tree String → Prop
  | .start _ (.inr attempt) _ => (Region.ofRawValue attempt.region).isSome
  | _ => True

instance (a : Action Session (Op ⊕ Attempt) Tree String) : Decidable (RegionsGiven a) := by
  unfold RegionsGiven
  split <;> infer_instance

/-! ### What was written last -/

/-- The value a write gives a field of the node at a reference. -/
def written (ref : Ref) (field : String) : Write → Option Tree
  | .updateChildValues ref' values => if ref' = ref then values.lookup field else none
  | _ => none

def lastWritten (ref : Ref) (field : String) (ws : List Write) : Option Tree :=
  (ws.filterMap (written ref field)).getLast?

/-- The game a write stores as the one the user plays; none if it removes that. -/
def played (u : String) : Write → Option (Option String)
  | .setValue ref value => if ref = currentlyPlayingRef u then some value.asString else none
  | .removeValue ref => if ref = currentlyPlayingRef u then some none else none
  | _ => none

def lastPlayed (u : String) (ws : List Write) : Option String :=
  ((ws.filterMap (played u)).getLast?).join

/-- The user has the values that were written last. -/
structure User.WrittenAs (user : User) (ref : Ref) (ws : List Write) : Prop where
  username : lastWritten ref "username" ws = some (Tree.str user.username)
  biography : lastWritten ref "biography" ws = some (Tree.str user.bio)
  mic : lastWritten ref "mic" ws = some (Tree.str user.mic.rawValue)
  region : lastWritten ref "region" ws = some (Tree.str user.region.rawValue)
  profilePicUrl : lastWritten ref "profilePicUrl" ws = some (Tree.str user.profilePicUrl)

/-- The list of a game, or of its online players. -/
inductive GameList : Ref → Prop
  | lfg {g : String} (hg : g ≠ "online") : GameList (lfgRef g)
  | online (g : String) : GameList (onlineRef g)

/-- Every record of a profile that was set up and every entry of a list decodes to what was
    written last. -/
structure Decodes (ws : List Write) (db : Tree) : Prop where
  record : ∀ attempt, SetupProfile.storeProfile attempt ∈ ws → ∀ snapshot,
    (Query.value (userRef attempt.username)).answers db snapshot = true →
    ∃ user, fetchedUser snapshot = some user ∧ user.username = attempt.username ∧
      user.WrittenAs (userRef attempt.username) ws ∧
      user.currentlyPlaying = lastPlayed attempt.username ws
  entry : ∀ list k, GameList list → db.has (list ++ [k]) = true → ∀ snapshot,
    (Query.value (list ++ [k])).answers db snapshot = true →
    ∃ user platform, fetchedUser snapshot = some user ∧ user.WrittenAs (list ++ [k]) ws ∧
      user.platform = some platform ∧
      lastWritten (list ++ [k]) "platform" ws = some (Tree.str platform)

/-! ### The shapes of writes -/

/-- What a field of the record of a user may hold. -/
def Admissible (u : String) : String → Tree → Prop
  | "username", value => value = Tree.str u
  | "biography", value => ∃ bio, value = Tree.str bio
  | "profilePicUrl", value => ∃ url, value = Tree.str url
  | "mic", value => ∃ status : MicStatus, value = Tree.str status.rawValue
  | "region", value => ∃ region : Region, value = Tree.str region.rawValue
  | _, _ => True

/-- The parts of a record that hold lists. -/
def recordLists : List String := ["teammates", "teammateRequests", "messaging"]

/-- What the app writes: fields of a record, below one of its lists, what the user plays, or
    an entry of a list of players. -/
inductive Written : Write → Prop
  | record (u : String) {values : Dictionary} (hnodup : (values.map Prod.fst).Nodup)
      (hvalues : ∀ e ∈ values, Admissible u e.1 e.2)
      (hplaying : "currentlyPlaying" ∉ values.map Prod.fst) :
      Written (.updateChildValues (userRef u) values)
  | below {w : Write} (u part : String) (rest : Ref) (hpart : part ∈ recordLists)
      (hw : w.ref = "users" :: u :: part :: rest) : Written w
  | play (u g : String) : Written (.setValue (currentlyPlayingRef u) (Tree.str g))
  | dropPlaying (u : String) : Written (.removeValue (currentlyPlayingRef u))
  | entry {list : Ref} (hlist : GameList list) (k name : String) (user : User)
      (platform : String) {values : Dictionary} (hnodup : (values.map Prod.fst).Nodup)
      (hvalues : ∀ e ∈ entryValues name user platform, e ∈ values) :
      Written (.updateChildValues (list ++ [k]) values)
  | dropEntry {list : Ref} (hlist : GameList list) (k : String) :
      Written (.removeValue (list ++ [k]))

variable {u g k field : String} {list : Ref} {w : Write} {ws : List Write} {db : Tree}
variable {catalogue : List Game}

theorem written_storeField (u : String) {field : String} {value : Tree}
    (hvalue : Admissible u field value) (hfield : field ≠ "currentlyPlaying") :
    Written (storeField u field value) :=
  .record u (by simp) (by simpa using hvalue) (by simpa using hfield.symm)

theorem written_storeProfile {attempt : Attempt} {region : Region}
    (h : attempt.region = region.rawValue) : Written (SetupProfile.storeProfile attempt) := by
  refine .record attempt.username (by simp [SetupProfile.profileValues]) (fun e he => ?_)
    (by simp [SetupProfile.profileValues])
  simp only [SetupProfile.profileValues, List.mem_cons, List.not_mem_nil, or_false] at he
  rcases he with rfl | rfl | rfl | rfl | rfl | rfl | rfl | rfl
  · exact trivial
  · exact trivial
  · exact rfl
  · exact trivial
  · exact ⟨_, rfl⟩
  · exact ⟨_, rfl⟩
  · exact ⟨region, by rw [h]⟩
  · exact ⟨_, rfl⟩

/-- **What an operation writes has one of the shapes.** -/
theorem written_of_opWrites {client : Session} {op : Op} {id : String}
    (hw : w ∈ opWrites client op id) : Written w := by
  cases op with
  | acceptTeammateRequest r =>
    simp only [opWrites, List.mem_cons, List.not_mem_nil, or_false] at hw
    rcases hw with rfl | rfl | rfl | rfl <;>
      exact .below _ _ _ (by simp [recordLists]) rfl
  | removeTeammate t =>
    simp only [opWrites, List.mem_cons, List.not_mem_nil, or_false] at hw
    rcases hw with rfl | rfl | rfl | rfl <;>
      exact .below _ _ _ (by simp [recordLists]) rfl
  | sendDirectMessage text partner timestamp =>
    simp only [opWrites, List.mem_cons, List.not_mem_nil, or_false] at hw
    rcases hw with rfl | rfl <;> exact .below _ _ _ (by simp [recordLists]) rfl
  | markDirectChatMessagesAsRead chat =>
    simp only [opWrites] at hw
    split at hw
    · cases hw
    · rw [List.mem_singleton.mp hw]
      exact .below _ _ _ (by simp [recordLists]) rfl
  | requestPlayerToTeamUp | goOnlineForGame => cases hw
  | declineTeammateRequest | deleteDirectChat =>
    rw [List.mem_singleton.mp hw]
    exact .below _ _ _ (by simp [recordLists]) rfl
  | goOfflineForGame =>
    rw [List.mem_singleton.mp hw]
    exact .dropPlaying _
  | updateBio | editRegion | editMicStatus | setProfilePicture =>
    rw [List.mem_singleton.mp hw]
    exact written_storeField _ ⟨_, rfl⟩ (by decide)
  | updateUserGames | fetchFCMToken | removeFCMToken =>
    rw [List.mem_singleton.mp hw]
    exact written_storeField _ trivial (by decide)

/-- The callbacks: a list's is one of a game of the catalogue, and a set-up has one of the
    regions. -/
def Expected (catalogue : List Game) : Callback ⊕ Attempt → Prop
  | .inl (.updateGameLFG game games lfgDictionary) =>
      game ∈ catalogue ∧ ∃ u user, lfgDictionary = TeamUp.lfgDictionary u user games game
  | .inl _ => True
  | .inr attempt => ∃ region : Region, attempt.region = region.rawValue

/-- **What a callback writes has one of the shapes.** -/
theorem written_of_callback (hcatalogue : ∀ game ∈ catalogue, game.name ≠ "online")
    {callback : Callback} (h : Expected catalogue (.inl callback)) {snapshot : Tree} {id : String}
    (hw : .write w ∈ resume catalogue callback snapshot id) : Written w := by
  cases callback with
  | requestPlayerToTeamUp currentUserName username =>
    simp only [resume, requestPlayerToTeamUpRead] at hw
    split at hw
    · cases hw
    · rw [Command.write.inj (List.mem_singleton.mp hw)]
      exact .below _ _ _ (by simp [recordLists]) rfl
  | goOnlineForGame currentUser game now =>
    simp only [resume, goOnlineForGameRead_eq] at hw
    split at hw
    · rename_i user platform _ _
      simp only [List.mem_cons, Command.write.injEq, List.not_mem_nil, or_false] at hw
      rcases hw with rfl | rfl
      · exact .entry (.online _) id user.username user platform (nodup_onlineValues _ _ _ _)
          fun e he => List.mem_append_left _ he
      · exact .play _ _
    · cases hw
  | goOfflineForGame game =>
    simp only [resume, goOfflineForGameRead] at hw
    split at hw
    · rw [Command.write.inj (List.mem_singleton.mp hw)]
      exact .dropEntry (.online _) _
    · cases hw
  | editUserLFGInfo currentUser =>
    simp only [resume, editUserLFGInfoRead] at hw
    split at hw <;> simp [updateUserLFG] at hw
  | updateUserLFG username games =>
    simp only [resume, updateUserLFGRead] at hw
    split at hw <;> simp at hw
  | updateGameLFG game games lfgDictionary =>
    obtain ⟨hgame, u, user, rfl⟩ := h
    have hlist : GameList (lfgRef game.name) := .lfg (hcatalogue game hgame)
    simp only [resume, updateGameLFGRead_eq] at hw
    split at hw
    · rw [Command.write.inj (List.mem_singleton.mp hw)]
      exact .entry hlist _ u user _ (nodup_entryValues _ _ _) fun e he => he
    · rw [Command.write.inj (List.mem_singleton.mp hw)]
      exact .dropEntry hlist _
    · rw [Command.write.inj (List.mem_singleton.mp hw)]
      exact .entry hlist _ u user _ (nodup_entryValues _ _ _) fun e he => he
    · cases hw

/-! ### What one write changes -/

/-- The fields the initializer needs. -/
def mandatoryFields : List String := ["username", "biography", "mic", "profilePicUrl", "region"]

theorem lastWritten_snoc (ref : Ref) (field : String) (ws : List Write) (w : Write) :
    lastWritten ref field (ws ++ [w]) = (written ref field w).or (lastWritten ref field ws) := by
  rw [lastWritten, List.filterMap_append, List.getLast?_append]
  cases h : written ref field w <;> simp [h, lastWritten]

theorem written_of_ref_ne {ref : Ref} (h : w.ref ≠ ref) (field : String) :
    written ref field w = none := by
  cases w with
  | updateChildValues ref' values => exact if_neg h
  | setValue | removeValue => rfl

theorem played_of_ref_ne (h : w.ref ≠ currentlyPlayingRef u) : played u w = none := by
  cases w with
  | setValue ref value => exact if_neg h
  | removeValue ref => exact if_neg h
  | updateChildValues => rfl

theorem lastPlayed_snoc (u : String) (ws : List Write) (w : Write) :
    lastPlayed u (ws ++ [w]) = (played u w).getD (lastPlayed u ws) := by
  rw [lastPlayed, List.filterMap_append, List.getLast?_append]
  cases h : played u w <;> simp [h, lastPlayed]

theorem GameList.beside (h : GameList list) (u : String) (p q : Ref) :
    Incomparable (list ++ p) (userRef u ++ q) := by
  cases h <;> simp [Incomparable]

/-- An entry is not part of a record. -/
theorem GameList.entry_ne (h : GameList list) (k u : String) (p : Ref) :
    list ++ [k] ≠ userRef u ++ p := by
  intro heq
  exact (h.beside u [k] p).1 (heq ▸ List.prefix_refl _)

/-- Entries do not lie in one another. -/
theorem GameList.entry_beside {list' : Ref} (h : GameList list) (h' : GameList list')
    {k k' : String} (hne : list ++ [k] ≠ list' ++ [k']) (q : Ref) :
    Incomparable (list ++ [k]) (list' ++ [k'] ++ q) := by
  have hother : ¬ (list ++ [k] <+: list' ++ [k']) ∧ ¬ (list' ++ [k'] <+: list ++ [k]) := by
    cases h with
    | lfg hg =>
      cases h' with
      | lfg hg' => simp_all [eq_comm]
      | online g' => simp [hg, Ne.symm hg]
    | online g =>
      cases h' with
      | lfg hg' => simp [hg', Ne.symm hg']
      | online g' => simp_all [eq_comm]
  exact (Incomparable.of_prefix ⟨hother.2, hother.1⟩ (List.prefix_append _ q)).symm

/-- A write of a record's field is admissible. -/
theorem Written.admissible (h : Written w) {value : Tree}
    (hvalue : written (userRef u) field w = some value) : Admissible u field value := by
  cases h with
  | @record u' values hnodup hvalues hplaying =>
    simp only [written] at hvalue
    split at hvalue
    · rename_i href
      obtain rfl : u' = u := by simpa using href
      obtain ⟨l₁, l₂, hsplit, -⟩ := List.lookup_eq_some_iff.mp hvalue
      exact hvalues (field, value) (mem_of_split hsplit)
    · cases hvalue
  | @below w u' part rest hpart href =>
    rw [written_of_ref_ne (by simp [href])] at hvalue
    cases hvalue
  | @entry list hlist k name user platform values hnodup hvalues =>
    have hnone : written (userRef u) field (.updateChildValues (list ++ [k]) values) = none :=
      written_of_ref_ne (w := .updateChildValues (list ++ [k]) values) (hlist.entry_ne k u []) field
    rw [hnone] at hvalue
    cases hvalue
  | play | dropPlaying | dropEntry => cases hvalue

/-- A field of a record holds what a write gives it. -/
theorem Written.leafAt_field (h : Written w) (hfield : field ∈ mandatoryFields) (u : String) :
    (w.apply db).leafAt (userRef u ++ [field]) =
      match written (userRef u) field w with
      | some value => value.leafAt []
      | none => db.leafAt (userRef u ++ [field]) := by
  have hplaying : field ≠ "currentlyPlaying" := by
    rintro rfl
    simp [mandatoryFields] at hfield
  cases h with
  | @record u' values hnodup hvalues _ =>
    by_cases hu : u' = u
    · subst hu
      rw [written, if_pos rfl]
      exact Write.leafAt_update hnodup field []
    · rw [Write.leafAt_apply_beside _ (by simp [Incomparable, Write.ref, hu, Ne.symm hu]),
        written_of_ref_ne (by simpa [Write.ref] using hu)]
  | @below w u' part rest hpart href =>
    have hne : part ≠ field := by
      rintro rfl
      simp [recordLists, mandatoryFields] at hpart hfield
      rcases hpart with rfl | rfl | rfl <;> simp at hfield
    rw [Write.leafAt_apply_beside _ (by simp [Incomparable, href, hne, Ne.symm hne]),
      written_of_ref_ne (by simp [href])]
  | play u' g =>
    exact Write.leafAt_apply_beside _
      (by simp [Incomparable, Write.ref, hplaying, Ne.symm hplaying])
  | dropPlaying u' =>
    exact Write.leafAt_apply_beside _
      (by simp [Incomparable, Write.ref, hplaying, Ne.symm hplaying])
  | @entry list hlist k name user platform values hnodup hvalues =>
    have hnone : written (userRef u) field (.updateChildValues (list ++ [k]) values) = none :=
      written_of_ref_ne (w := .updateChildValues (list ++ [k]) values) (hlist.entry_ne k u []) field
    rw [hnone]
    exact Write.leafAt_apply_beside _ (hlist.beside u [k] [field])
  | dropEntry hlist k => exact Write.leafAt_apply_beside _ (hlist.beside u [k] [field])

/-- What the user plays is stored as a write left it. -/
theorem Written.leafAt_playing (h : Written w) (u : String) :
    (w.apply db).leafAt (currentlyPlayingRef u) =
      match played u w with
      | some game => game.map .str
      | none => db.leafAt (currentlyPlayingRef u) := by
  cases h with
  | @record u' values hnodup hvalues hplaying =>
    by_cases hu : u' = u
    · subst hu
      exact Write.leafAt_update_other hplaying []
    · exact Write.leafAt_apply_beside _ (by simp [Incomparable, Write.ref, hu, Ne.symm hu])
  | @below w u' part rest hpart href =>
    have hne : part ≠ "currentlyPlaying" := by
      rintro rfl
      simp [recordLists] at hpart
    rw [Write.leafAt_apply_beside _ (by simp [Incomparable, href, hne, Ne.symm hne]),
      played_of_ref_ne (by simp [href, hne])]
  | play u' g =>
    by_cases hu : u' = u
    · subst hu
      rw [leafAt_play]
      simp [played]
    · rw [Write.leafAt_apply_beside _ (by simp [Incomparable, Write.ref, hu, Ne.symm hu]),
        played_of_ref_ne (by simp [Write.ref, hu])]
  | dropPlaying u' =>
    by_cases hu : u' = u
    · subst hu
      have hgone := PathTree.leafAt_put_below db .empty (currentlyPlayingRef u') []
      have hplayed : played u' (.removeValue (currentlyPlayingRef u')) = some none := if_pos rfl
      rw [List.append_nil] at hgone
      rw [hplayed]
      exact hgone
    · rw [Write.leafAt_apply_beside _ (by simp [Incomparable, Write.ref, hu, Ne.symm hu]),
        played_of_ref_ne (by simp [Write.ref, hu])]
  | @entry list hlist k name user platform values hnodup hvalues =>
    exact Write.leafAt_apply_beside _ (hlist.beside u [k] ["currentlyPlaying"])
  | @dropEntry list hlist k =>
    have hnone : played u (.removeValue (list ++ [k])) = none :=
      played_of_ref_ne (hlist.entry_ne k u ["currentlyPlaying"])
    rw [hnone]
    exact Write.leafAt_apply_beside _ (hlist.beside u [k] ["currentlyPlaying"])

/-- A write of a list stores the whole entry or leaves it alone. -/
theorem Written.entry_cases (h : Written w) (hlist : GameList list) (k : String)
    (hhas : (w.apply db).has (list ++ [k]) = true) :
    (∃ name user platform, ∀ e ∈ entryValues name user platform,
        written (list ++ [k]) e.1 w = some e.2 ∧
          (w.apply db).leafAt (list ++ [k] ++ [e.1]) = e.2.leafAt []) ∨
      (∀ field, written (list ++ [k]) field w = none) ∧
        Unchanged (list ++ [k]) db (w.apply db) := by
  cases h with
  | @record u values hnodup hvalues hplaying =>
    have hne : userRef u ≠ list ++ [k] := (hlist.entry_ne k u []).symm
    refine Or.inr ⟨written_of_ref_ne hne, fun q => ?_⟩
    have hbeside := (hlist.beside u ([k] ++ q) []).symm
    rw [List.append_nil, ← List.append_assoc] at hbeside
    exact Write.leafAt_apply_beside (.updateChildValues _ _) hbeside
  | @below w u part rest hpart href =>
    have hbeside : ∀ q, Incomparable w.ref (list ++ [k] ++ q) := by
      intro q
      have hlists := (hlist.beside u ([k] ++ q) (part :: rest)).symm
      rw [← List.append_assoc] at hlists
      rw [href]
      exact hlists
    have hne : w.ref ≠ list ++ [k] := fun heq => (hbeside []).1 (by simp [heq])
    exact Or.inr ⟨written_of_ref_ne hne, fun q => Write.leafAt_apply_beside _ (hbeside q)⟩
  | play u g =>
    refine Or.inr ⟨fun _ => rfl, fun q => ?_⟩
    have hbeside := (hlist.beside u ([k] ++ q) ["currentlyPlaying"]).symm
    rw [← List.append_assoc] at hbeside
    exact Write.leafAt_apply_beside (.setValue _ _) hbeside
  | dropPlaying u =>
    refine Or.inr ⟨fun _ => rfl, fun q => ?_⟩
    have hbeside := (hlist.beside u ([k] ++ q) ["currentlyPlaying"]).symm
    rw [← List.append_assoc] at hbeside
    exact Write.leafAt_apply_beside (.removeValue _) hbeside
  | @entry list' hlist' k' name user platform values hnodup hvalues =>
    by_cases hsame : list' ++ [k'] = list ++ [k]
    · refine Or.inl ⟨name, user, platform, fun e he => ?_⟩
      rw [hsame]
      exact ⟨(if_pos rfl).trans (Dictionary.lookup_of_mem hnodup (hvalues e he)),
        Write.leafAt_update_named hnodup (hvalues e he) []⟩
    · refine Or.inr ⟨written_of_ref_ne hsame, fun q => ?_⟩
      exact Write.leafAt_apply_beside (.updateChildValues _ _) (hlist'.entry_beside hlist hsame q)
  | @dropEntry list' hlist' k' =>
    by_cases hsame : list' ++ [k'] = list ++ [k]
    · rw [hsame] at hhas
      simp [Write.apply] at hhas
    · exact Or.inr ⟨fun _ => rfl, fun q =>
        Write.leafAt_apply_beside (.removeValue _) (hlist'.entry_beside hlist hsame q)⟩

/-! ### All writes -/

/-- What the writes of a database left in it. -/
structure Recorded (ws : List Write) (db : Tree) : Prop where
  admissible : ∀ u field value, lastWritten (userRef u) field ws = some value →
    Admissible u field value
  stored : ∀ u, ∀ field ∈ mandatoryFields, ∀ value,
    lastWritten (userRef u) field ws = some value →
      db.leafAt (userRef u ++ [field]) = value.leafAt []
  playing : ∀ u, db.leafAt (currentlyPlayingRef u) = (lastPlayed u ws).map .str
  entries : ∀ list k, GameList list → db.has (list ++ [k]) = true →
    ∃ name user platform, ∀ e ∈ entryValues name user platform,
      lastWritten (list ++ [k]) e.1 ws = some e.2 ∧
        db.leafAt (list ++ [k] ++ [e.1]) = e.2.leafAt []

/-- **One more write** of the app keeps the account of what was written. -/
theorem Recorded.step (h : Recorded ws db) (hw : Written w) :
    Recorded (ws ++ [w]) (w.apply db) where
  admissible := by
    intro u field value hlast
    rw [lastWritten_snoc] at hlast
    cases hwritten : written (userRef u) field w with
    | some value' =>
      rw [hwritten, Option.some_or] at hlast
      exact Option.some.inj hlast ▸ hw.admissible hwritten
    | none =>
      rw [hwritten, Option.none_or] at hlast
      exact h.admissible u field value hlast
  stored := by
    intro u field hfield value hlast
    rw [lastWritten_snoc] at hlast
    rw [hw.leafAt_field hfield]
    cases hwritten : written (userRef u) field w with
    | some value' =>
      rw [hwritten, Option.some_or] at hlast
      rw [Option.some.inj hlast]
    | none =>
      rw [hwritten, Option.none_or] at hlast
      exact h.stored u field hfield value hlast
  playing := by
    intro u
    rw [lastPlayed_snoc, hw.leafAt_playing]
    cases played u w with
    | some game => rfl
    | none => exact h.playing u
  entries := by
    intro list k hlist hhas
    rcases hw.entry_cases hlist k hhas with ⟨name, user, platform, hall⟩ | ⟨hnone, hsame⟩
    · refine ⟨name, user, platform, fun e he => ?_⟩
      rw [lastWritten_snoc, (hall e he).1]
      exact ⟨Option.some_or, (hall e he).2⟩
    · have hold : db.has (list ++ [k]) = true := by
        obtain ⟨q, hq⟩ := PathTree.has_iff_leafAt.mp hhas
        exact PathTree.has_iff_leafAt.mpr ⟨q, hsame q ▸ hq⟩
      obtain ⟨name, user, platform, hall⟩ := h.entries list k hlist hold
      refine ⟨name, user, platform, fun e he => ?_⟩
      rw [lastWritten_snoc, hnone, Option.none_or, hsame]
      exact hall e he

theorem recorded (h : ∀ w ∈ ws, Written w) :
    Recorded ws (ws.foldl (fun db w => w.apply db) .empty) := by
  induction ws using List.reverseRecOn with
  | nil =>
    refine ⟨fun _ _ _ hlast => by simp [lastWritten] at hlast,
      fun _ _ _ _ hlast => by simp [lastWritten] at hlast, fun _ => rfl, fun _ _ _ hhas => ?_⟩
    cases hhas
  | append_singleton ws w ih =>
    rw [List.foldl_append]
    exact (ih fun w' hw' => h w' (by simp [hw'])).step (h w (by simp))

/-! ### Decoding -/

/-- A node whose fields were written as a user's decodes to a user with these fields. -/
theorem decodes_of_writtenAs {ref : Ref} {user : User} (h : user.WrittenAs ref ws)
    (hleaf : ∀ field ∈ mandatoryFields, ∀ value, lastWritten ref field ws = some value →
      db.leafAt (ref ++ [field]) = value.leafAt [])
    {snapshot : Tree} (hanswer : (Query.value ref).answers db snapshot = true) :
    ∃ user' : User, fetchedUser snapshot = some user' ∧ user'.username = user.username ∧
      user'.WrittenAs ref ws ∧
      (∀ game : Option String, db.leafAt (ref ++ ["currentlyPlaying"]) = game.map .str →
        user'.currentlyPlaying = game) ∧
      ∀ platform : Option String, db.leafAt (ref ++ ["platform"]) = platform.map .str →
        user'.platform = platform := by
  have hsame : PathTree.Same snapshot (db.sub ref) := of_decide_eq_true hanswer
  have hstored : user.Stored snapshot := by
    have hfield : ∀ {field value}, field ∈ mandatoryFields →
        lastWritten ref field ws = some (Tree.str value) →
        snapshot.leafAt [field] = some (.str value) := by
      intro field value hmem hlast
      rw [hsame.leafAt, PathTree.leafAt_sub, hleaf field hmem _ hlast]
      rfl
    exact ⟨hfield (by simp [mandatoryFields]) h.username,
      hfield (by simp [mandatoryFields]) h.biography, hfield (by simp [mandatoryFields]) h.mic,
      hfield (by simp [mandatoryFields]) h.profilePicUrl,
      hfield (by simp [mandatoryFields]) h.region⟩
  obtain ⟨user', huser', hstored'⟩ := hstored.decodes
  obtain ⟨husername, hbio, hmic, hregion, hpic⟩ := hstored.fields_eq hstored'
  obtain ⟨dictionary, hdictionary, hdecode⟩ := Option.bind_eq_some_iff.mp huser'
  obtain rfl := Tree.asDictionary_eq_some hdictionary
  obtain ⟨hplaying, hplatform⟩ := User.optional_of_ofDictionary hdecode
  have hstring : ∀ (field : String) (content : Option String),
      db.leafAt (ref ++ [field]) = content.map .str →
      (Tree.get dictionary field).asString = content := by
    intro field content hcontent
    have hroot : (Tree.get dictionary field).leafAt [] = content.map .str := by
      rw [PathTree.leafAt_child, hsame.leafAt, PathTree.leafAt_sub]
      exact hcontent
    rw [Tree.asString, hroot]
    cases content <;> rfl
  refine ⟨user', huser', husername.symm, ⟨?_, ?_, ?_, ?_, ?_⟩, fun game hgame => ?_,
    fun platform hplatform' => ?_⟩
  · rw [← husername]
    exact h.username
  · rw [← hbio]
    exact h.biography
  · rw [← hmic]
    exact h.mic
  · rw [← hregion]
    exact h.region
  · rw [← hpic]
    exact h.profilePicUrl
  · rw [hplaying]
    exact hstring "currentlyPlaying" game hgame
  · rw [hplatform]
    exact hstring "platform" platform hplatform'

theorem lastWritten_of_mem {ref : Ref} {value : Tree} (hw : w ∈ ws)
    (hvalue : written ref field w = some value) :
    ∃ value', lastWritten ref field ws = some value' := by
  refine Option.ne_none_iff_exists'.mp fun hnone => ?_
  have hempty := List.getLast?_eq_none_iff.mp hnone
  have hmem : value ∈ ws.filterMap (written ref field) := List.mem_filterMap.mpr ⟨w, hw, hvalue⟩
  rw [hempty] at hmem
  cases hmem

/-- **What was written is read back.** -/
theorem Recorded.decodes (h : Recorded ws db) : Decodes ws db where
  record := by
    intro attempt hmem snapshot hanswer
    have hlast : ∀ e ∈ SetupProfile.profileValues attempt,
        ∃ value, lastWritten (userRef attempt.username) e.1 ws = some value ∧
          Admissible attempt.username e.1 value := by
      intro e he
      have hwritten : written (userRef attempt.username) e.1
          (SetupProfile.storeProfile attempt) = some e.2 :=
        (if_pos rfl).trans (Dictionary.lookup_of_mem (by simp [SetupProfile.profileValues]) he)
      obtain ⟨value, hvalue⟩ := lastWritten_of_mem hmem hwritten
      exact ⟨value, hvalue, h.admissible _ _ _ hvalue⟩
    obtain ⟨_, husername, rfl⟩ := hlast ("username", Tree.str attempt.username)
      (by simp [SetupProfile.profileValues])
    obtain ⟨_, hbiography, bio, rfl⟩ := hlast ("biography", Tree.str "No biography")
      (by simp [SetupProfile.profileValues])
    obtain ⟨_, hmic, status, rfl⟩ := hlast ("mic", Tree.str attempt.mic.rawValue)
      (by simp [SetupProfile.profileValues])
    obtain ⟨_, hregion, region, rfl⟩ := hlast ("region", Tree.str attempt.region)
      (by simp [SetupProfile.profileValues])
    obtain ⟨_, hpic, url, rfl⟩ := hlast ("profilePicUrl", Tree.str attempt.profileImageUrl)
      (by simp [SetupProfile.profileValues])
    let user : User := { username := attempt.username, profilePicUrl := url, mic := status, bio,
                         region, games := [], platform := none, currentlyPlaying := none }
    have huser : user.WrittenAs (userRef attempt.username) ws :=
      ⟨husername, hbiography, hmic, hregion, hpic⟩
    obtain ⟨user', huser', hname, hwritten, hplaying, -⟩ :=
      decodes_of_writtenAs huser (h.stored attempt.username) hanswer
    exact ⟨user', huser', hname, hwritten, hplaying _ (h.playing attempt.username)⟩
  entry := by
    intro list k hlist hhas snapshot hanswer
    obtain ⟨name, user, platform, hall⟩ := h.entries list k hlist hhas
    have hvalue : ∀ field value, (field, value) ∈ entryValues name user platform →
        lastWritten (list ++ [k]) field ws = some value ∧
          db.leafAt (list ++ [k] ++ [field]) = value.leafAt [] :=
      fun field value he => hall (field, value) he
    have huser : User.WrittenAs { user with username := name } (list ++ [k]) ws :=
      ⟨(hvalue "username" _ (by simp [entryValues])).1,
        (hvalue "biography" _ (by simp [entryValues])).1,
        (hvalue "mic" _ (by simp [entryValues])).1,
        (hvalue "region" _ (by simp [entryValues])).1,
        (hvalue "profilePicUrl" _ (by simp [entryValues])).1⟩
    obtain ⟨hplatform, hleaf⟩ := hvalue "platform" (Tree.str platform) (by simp [entryValues])
    obtain ⟨user', huser', -, hwritten, -, hread⟩ := decodes_of_writtenAs huser
      (fun field hfield value hlast => by
        have hmem : ∃ value, (field, value) ∈ entryValues name user platform := by
          simp only [mandatoryFields, List.mem_cons, List.not_mem_nil, or_false] at hfield
          rcases hfield with rfl | rfl | rfl | rfl | rfl <;> exact ⟨_, by simp [entryValues]; rfl⟩
        obtain ⟨value', he⟩ := hmem
        obtain ⟨hlast', hleaf'⟩ := hvalue field value' he
        rw [hleaf', Option.some.inj (hlast.symm.trans hlast')]) hanswer
    exact ⟨user', platform, huser', hwritten, hread (some platform) hleaf, hplatform⟩

/-! ### Every run -/

theorem mem_map_ofOp {commands : Commands} {command : Command Write Query (Callback ⊕ Attempt)}
    (h : command ∈ commands.map Command.ofOp) :
    (∃ w, command = .write w ∧ .write w ∈ commands) ∨
      ∃ query callback,
        command = .call query (.inl callback) ∧ .call query callback ∈ commands := by
  obtain ⟨c, hc, rfl⟩ := List.mem_map.mp h
  cases c with
  | write w => exact Or.inl ⟨w, rfl, hc⟩
  | call query callback => exact Or.inr ⟨query, callback, rfl, hc⟩

theorem expected_of_begin {client : Session} {op : Op} {id : String} {query : Query}
    {callback : Callback} (h : .call query callback ∈ begin client op id) :
    Expected catalogue (.inl callback) := by
  cases callback with
  | updateGameLFG game games lfgDictionary =>
    cases op with
    | markDirectChatMessagesAsRead chat =>
      simp only [begin, markDirectChatMessagesAsRead] at h
      split at h <;> simp at h
    | _ =>
      simp [begin, TeamUp.requestPlayerToTeamUp, acceptTeammateRequest, declineTeammateRequest,
        removeTeammate, sendDirectMessage, deleteDirectChat, TeamUp.goOnlineForGame,
        TeamUp.goOfflineForGame, TeamUp.updateBio, updateUserGames, TeamUp.updateUserLFG,
        editRegion, editMicStatus, setProfilePicture, editProfile, TeamUp.editUserLFGInfo,
        storeFCMToken] at h
  | _ => exact trivial

theorem expected_of_resume {callback callback' : Callback} {snapshot : Tree} {id : String}
    {query : Query} (h : .call query callback' ∈ resume catalogue callback snapshot id) :
    Expected catalogue (.inl callback') := by
  cases callback with
  | requestPlayerToTeamUp currentUserName username =>
    simp only [resume, requestPlayerToTeamUpRead] at h
    split at h <;> simp at h
  | goOnlineForGame currentUser game now =>
    simp only [resume, goOnlineForGameRead] at h
    split at h <;> simp at h
  | goOfflineForGame game =>
    simp only [resume, goOfflineForGameRead] at h
    split at h <;> simp at h
  | editUserLFGInfo currentUser =>
    simp only [resume, editUserLFGInfoRead, updateUserLFG] at h
    split at h
    · cases h
    · rw [(Command.call.inj (List.mem_singleton.mp h)).2]
      exact trivial
  | updateUserLFG username games =>
    simp only [resume, updateUserLFGRead] at h
    split at h
    · obtain ⟨game, hgame, heq⟩ := List.mem_map.mp h
      obtain ⟨-, rfl⟩ := Command.call.inj heq
      exact ⟨hgame, username, _, rfl⟩
    · cases h
  | updateGameLFG game games lfgDictionary =>
    simp only [resume, updateGameLFGRead] at h
    split at h <;> split at h <;> simp at h

/-- **Everything on its way in the app has one of the shapes.** -/
theorem issued_writers (hcatalogue : ∀ game ∈ catalogue, game.name ≠ "online")
    {s t : Config Session Tree Write Query (Callback ⊕ Attempt) Tree String}
    {a : Action Session (Op ⊕ Attempt) Tree String}
    (h : Issued (fun _ => Written) (fun _ _ => Expected catalogue) s) (hregions : RegionsGiven a)
    (hst : (writers catalogue).step s a = some t) :
    Issued (fun _ => Written) (fun _ _ => Expected catalogue) t := by
  refine h.step (fun client op id ha => ?_)
    (fun client request callback snapshot id hexpected => ?_) hst
  · subst ha
    cases op with
    | inl op =>
      refine ⟨fun w hw => ?_, fun query callback hcall => ?_⟩
      · rcases mem_map_ofOp hw with ⟨w', heq, hmem⟩ | ⟨_, _, heq, -⟩
        · cases heq
          exact written_of_opWrites (writes_begin client op id ▸ mem_writes.mpr hmem)
        · cases heq
      · rcases mem_map_ofOp hcall with ⟨_, heq, -⟩ | ⟨query', callback', heq, hmem⟩
        · cases heq
        · cases heq
          exact expected_of_begin hmem
    | inr attempt =>
      refine ⟨fun w hw => ?_, fun query callback hcall => ?_⟩
      · simp only [writers, Writers.begin] at hw
        split at hw <;> simp at hw
      · simp only [writers, Writers.begin] at hcall
        split at hcall
        · obtain ⟨-, rfl⟩ := Command.call.inj (List.mem_singleton.mp hcall)
          obtain ⟨region, hregion⟩ := Option.isSome_iff_exists.mp hregions
          exact ⟨region, (Region.rawValue_of_ofRawValue hregion).symm⟩
        · cases hcall
  · cases callback with
    | inl callback =>
      refine ⟨fun w hw => ?_, fun query callback' hcall => ?_⟩
      · rcases mem_map_ofOp hw with ⟨w', heq, hmem⟩ | ⟨_, _, heq, -⟩
        · cases heq
          exact written_of_callback hcatalogue hexpected hmem
        · cases heq
      · rcases mem_map_ofOp hcall with ⟨_, heq, -⟩ | ⟨query', callback', heq, hmem⟩
        · cases heq
        · cases heq
          exact expected_of_resume hmem
    | inr attempt =>
      obtain ⟨region, hregion⟩ := hexpected
      refine ⟨fun w hw => ?_, fun query callback' hcall => ?_⟩
      · simp only [writers, Writers.resume] at hw
        split at hw
        · rw [Command.write.inj (List.mem_singleton.mp hw)]
          exact written_storeProfile hregion
        · cases hw
      · simp only [writers, Writers.resume] at hcall
        split at hcall <;> simp at hcall

/-- Nothing is stored, and nothing on its way. -/
def unwritten : Config Session Tree Write Query (Callback ⊕ Attempt) Tree String :=
  { store := .empty, outstanding := [], calls := [], answers := [], seen := [], minted := [] }

/-- **Every record of a profile that was set up and every entry of a list decodes to what was
    written last**, in every state of every run of the app's writers. -/
theorem records_decode (hcatalogue : ∀ game ∈ catalogue, game.name ≠ "online")
    {actions : List (Action Session (Op ⊕ Attempt) Tree String)}
    {t : Config Session Tree Write Query (Callback ⊕ Attempt) Tree String}
    (run : (writers catalogue).Run (fun _ a => RegionsGiven a) unwritten actions t) :
    Decodes ((writers catalogue).journal unwritten actions).1 t.store := by
  obtain ⟨hstore, hwritten⟩ := store_of_journal (fun _ _ _ _ => rfl)
    (.of_quiescent ⟨rfl, rfl, rfl⟩)
    (fun u a v hu hok hst => issued_writers hcatalogue hu hok hst) run
  rw [hstore]
  exact (recorded fun w hw => (hwritten w hw).choose_spec).decodes

def alicesProfile : Attempt := { SetupProfile.gamer with username := "alice1" }

/-- Alice sets her profile up, goes online for a game and edits her biography. -/
def firstSteps : List (Action Session (Op ⊕ Attempt) Tree String) :=
  [.start ⟨"alice1", 1⟩ (.inr alicesProfile) "-1", .serve 0 .empty, .resume 0 "-2", .deliver 0,
    .start ⟨"alice1", 1⟩ (.inl (.goOnlineForGame chess 5)) "-3",
    .serve 0 (Tree.ofDictionary (SetupProfile.profileValues alicesProfile)), .resume 0 "-4",
    .deliver 0, .deliver 0, .start ⟨"alice1", 1⟩ (.inl (.updateBio "hello")) "-5", .deliver 0]

theorem records_decode_firstSteps :
    ∃ t, (writers [chess]).exec (fun _ a => decide (RegionsGiven a)) unwritten firstSteps =
        some t ∧
      Decodes ((writers [chess]).journal unwritten firstSteps).1 t.store ∧
      SetupProfile.storeProfile alicesProfile ∈
        ((writers [chess]).journal unwritten firstSteps).1 ∧
      lastWritten (userRef "alice1") "biography"
        ((writers [chess]).journal unwritten firstSteps).1 = some (Tree.str "hello") := by
  have hend : ((writers [chess]).exec (fun _ a => decide (RegionsGiven a)) unwritten
      firstSteps).map (fun _ => ()) = some () := by
    decide +kernel
  obtain ⟨t, ht, -⟩ := Option.map_eq_some_iff.mp hend
  have run := run_of_exec (fun _ a h => of_decide_eq_true h) ht
  exact ⟨t, ht, records_decode (by decide) run, by decide +kernel, by decide +kernel⟩

end TeamUp
