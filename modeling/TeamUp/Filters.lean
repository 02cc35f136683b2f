import TeamUp.OnlineEntries
import TeamUp.Players

/-!
# Filters of the list of players

A query orders by one child, so the two filters together are one more field of every entry,
`compoundQuery`, which joins the platform and the region.  Two operations write entries,
each all three fields at once, and an entry is only ever replaced or removed as a whole.
No region has an underscore, so the joined string has both parts in it whatever the
platform is called.
-/

namespace TeamUp

open Protocol

/-! ### The joined string -/

/-- What is joined by a separator is determined, if the last part does not have it. -/
theorem append_cons_inj {α : Type} {a : α} {x y z w : List α} (hz : a ∉ z) (hw : a ∉ w) :
    x ++ a :: z = y ++ a :: w ↔ x = y ∧ z = w := by
  constructor
  · intro h
    rcases List.append_eq_append_iff.mp h with ⟨r, hy, hrest⟩ | ⟨r, hx, hrest⟩
    · cases r with
      | nil =>
        rw [List.append_nil] at hy
        exact ⟨hy.symm, (List.cons.inj hrest).2⟩
      | cons b r =>
        have htail : z = r ++ a :: w := (List.cons.inj hrest).2
        exact (hz (mem_of_split htail)).elim
    · cases r with
      | nil =>
        rw [List.append_nil] at hx
        exact ⟨hx, (List.cons.inj hrest).2.symm⟩
      | cons b r =>
        have htail : w = r ++ a :: z := (List.cons.inj hrest).2
        exact (hw (mem_of_split htail)).elim
  · rintro ⟨rfl, rfl⟩
    rfl

theorem underscore_notMem_rawValue (region : Region) : '_' ∉ region.rawValue.toList := by
  cases region <;> decide

theorem Region.rawValue_injective {region region' : Region}
    (h : region.rawValue = region'.rawValue) : region = region' := by
  simpa using congrArg Region.ofRawValue h

/-- **The joined string determines** the platform and the region. -/
theorem compoundQuery_inj {platform platform' : String} {region region' : Region} :
    platform ++ "_" ++ region.rawValue = platform' ++ "_" ++ region'.rawValue ↔
      platform = platform' ∧ region = region' := by
  constructor
  · intro h
    have hlists : platform.toList ++ '_' :: region.rawValue.toList =
        platform'.toList ++ '_' :: region'.rawValue.toList := by
      simpa [String.toList_append] using congrArg String.toList h
    obtain ⟨hplatform, hregion⟩ := (append_cons_inj (underscore_notMem_rawValue region)
      (underscore_notMem_rawValue region')).mp hlists
    exact ⟨String.toList_inj.mp hplatform,
      Region.rawValue_injective (String.toList_inj.mp hregion)⟩
  · rintro ⟨rfl, rfl⟩
    rfl

/-! ### Entries -/

/-- Generated identifiers contain a hyphen. -/
abbrev hyphenated (k : String) : Prop := k.toList.contains '-' = true

/-- A place for an entry, in the list of a game or of those who play it. -/
inductive EntryRef : Ref → Prop
  | lfg (g : String) {k : String} (hk : hyphenated k) : EntryRef (lfgRef g ++ [k])
  | online (g : String) {k : String} (hk : hyphenated k) : EntryRef (onlineRef g ++ [k])

/-- The fields of an entry: those of the filters agree, and nothing is nested. -/
structure EntryFields (values : Dictionary) : Prop where
  nodup : (values.map Prod.fst).Nodup
  names : ∀ k ∈ values.map Prod.fst, ¬ hyphenated k
  flat : ∀ e ∈ values, ∃ v, e.2 = PathTree.leaf v
  filters : ∃ (platform : String) (region : Region),
    ("platform", Tree.str platform) ∈ values ∧ ("region", Tree.str region.rawValue) ∈ values ∧
      ("compoundQuery", Tree.str (platform ++ "_" ++ region.rawValue)) ∈ values

theorem entryFields_entryValues (u : String) (user : User) (platform : String) :
    EntryFields (entryValues u user platform) := by
  have hnames : (entryValues u user platform).map Prod.fst =
      ["username", "region", "profilePicUrl", "mic", "biography", "platform", "compoundQuery"] :=
    rfl
  refine ⟨nodup_entryValues u user platform, ?_, fun e he => ?_, platform, user.region, ?_⟩
  · rw [hnames]
    decide
  · simp only [entryValues, List.mem_cons, List.not_mem_nil, or_false] at he
    rcases he with rfl | rfl | rfl | rfl | rfl | rfl | rfl <;> exact ⟨_, rfl⟩
  · simp [entryValues]

theorem entryFields_onlineValues (user : User) (platform : String) (game : Game) (now : Rat) :
    EntryFields (onlineValues user platform game now) := by
  have hentry := entryFields_entryValues user.username user platform
  obtain ⟨platform', region, hplatform, hregion, hquery⟩ := hentry.filters
  refine ⟨nodup_onlineValues user platform game now, fun k hk => ?_, fun e he => ?_, platform',
    region, List.mem_append_left _ hplatform, List.mem_append_left _ hregion,
    List.mem_append_left _ hquery⟩
  · rw [onlineValues, List.map_append] at hk
    rcases List.mem_append.mp hk with hold | hnew
    · exact hentry.names k hold
    · exact (show ∀ k ∈ ["currentlyPlaying", "onlineSince"], ¬ hyphenated k by decide) k hnew
  · rcases List.mem_append.mp he with hold | hnew
    · exact hentry.flat e hold
    · simp only [List.mem_cons, List.not_mem_nil, or_false] at hnew
      rcases hnew with rfl | rfl <;> exact ⟨_, rfl⟩

/-- What the app writes, as far as the lists are concerned. -/
inductive ListWrite : Write → Prop
  | entry {ref : Ref} {values : Dictionary} (href : EntryRef ref) (hvalues : EntryFields values) :
      ListWrite (.updateChildValues ref values)
  | dropEntry {ref : Ref} (href : EntryRef ref) : ListWrite (.removeValue ref)
  | elsewhere {w : Write} (hw : w.ref.head? = some "users") : ListWrite w

/-- The fields of the filters. -/
def filterFields : List String := ["platform", "region", "compoundQuery"]

/-- The node has all fields of the filters, the joined string made of the others, or none. -/
def FiltersAgree (ref : Ref) (db : Tree) : Prop :=
  (∃ (platform : String) (region : Region),
    db.leafAt (ref ++ ["platform"]) = some (.str platform) ∧
    db.leafAt (ref ++ ["region"]) = some (.str region.rawValue) ∧
    db.leafAt (ref ++ ["compoundQuery"]) = some (.str (platform ++ "_" ++ region.rawValue))) ∨
  ∀ field ∈ filterFields, db.leafAt (ref ++ [field]) = none

/-- The lists hold nothing but entries, and the fields of the filters agree in each. -/
structure Filterable (db : Tree) : Prop where
  entries : ∀ p v, db.leafAt ("lfg" :: p) = some v →
    ∃ ref field, EntryRef ref ∧ ¬ hyphenated field ∧ "lfg" :: p = ref ++ [field]
  filters : ∀ ref, EntryRef ref → FiltersAgree ref db

variable {db db' : Tree} {w : Write} {ref ref' : Ref} {field g k : String} {v : Leaf}

/-! ### One write -/

/-- A leaf after an update was there before, or is in one of the values. -/
theorem leaf_of_update {values : Dictionary} {p : Ref}
    (h : ((Write.updateChildValues ref values).apply db).leafAt p = some v) :
    (∃ e ∈ values, ∃ r, p = ref ++ [e.1] ++ r ∧ e.2.leafAt r = some v) ∨
      db.leafAt p = some v := by
  simp only [Write.apply] at h
  induction values generalizing db with
  | nil => exact Or.inr h
  | cons e rest ih =>
    rcases ih h with ⟨e', he', r, hp, hleaf⟩ | hrest
    · exact Or.inl ⟨e', List.mem_cons_of_mem e he', r, hp, hleaf⟩
    · rcases PathTree.mem_put.mp (PathTree.leafAt_eq_some.mp hrest) with ⟨hold, -⟩ | ⟨r, hp, hr⟩
      · exact Or.inr (PathTree.leafAt_eq_some.mpr hold)
      · exact Or.inl ⟨e, List.mem_cons_self, r, hp, PathTree.leafAt_eq_some.mpr hr⟩

theorem leaf_of_remove {p : Ref}
    (h : ((Write.removeValue ref).apply db).leafAt p = some v) : db.leafAt p = some v := by
  rcases PathTree.mem_put.mp (PathTree.leafAt_eq_some.mp h) with ⟨hold, -⟩ | ⟨r, -, hr⟩
  · exact PathTree.leafAt_eq_some.mpr hold
  · cases hr

/-- A field of one entry lies beside every other entry, or in a part that is no field. -/
theorem EntryRef.field_cases (h : EntryRef ref) (h' : EntryRef ref') (hne : ref' ≠ ref)
    (hfield : ¬ hyphenated field) :
    Incomparable ref' (ref ++ [field]) ∨
      ∃ k, hyphenated k ∧ ref ++ [field] = ref' ++ k :: [field] := by
  have hnot : ∀ {k}, hyphenated k → k ≠ field := fun hk heq => hfield (heq ▸ hk)
  cases h with
  | @lfg g k hk =>
    cases h' with
    | @lfg g' k' hk' =>
      by_cases hg : g' = g
      · have hkey : k' ≠ k := fun heq => hne (by rw [hg, heq])
        left
        simp [Incomparable, hg, hkey, Ne.symm hkey]
      · left
        simp [Incomparable, hg, Ne.symm hg]
    | @online g' k' hk' =>
      left
      have hkey := hnot hk'
      simp [Incomparable, hkey, Ne.symm hkey]
  | @online g k hk =>
    cases h' with
    | @lfg g' k' hk' =>
      by_cases hbelow : g' = "online" ∧ k' = g
      · obtain ⟨rfl, rfl⟩ := hbelow
        exact Or.inr ⟨k, hk, rfl⟩
      · left
        simp only [Incomparable, List.cons_append, List.nil_append, List.cons_prefix_cons,
          List.nil_prefix, true_and, and_true]
        refine ⟨hbelow, ?_⟩
        simp
    | @online g' k' hk' =>
      left
      by_cases hg : g' = g
      · have hkey : k' ≠ k := fun heq => hne (by rw [hg, heq])
        simp [Incomparable, hg, hkey, Ne.symm hkey]
      · simp [Incomparable, hg, Ne.symm hg]

theorem not_hyphenated_of_filter (h : field ∈ filterFields) : ¬ hyphenated field := by
  revert field
  decide

theorem EntryRef.head (h : EntryRef ref) (q : Ref) : (ref ++ q).head? = some "lfg" := by
  cases h <;> rfl

theorem FiltersAgree.keep (h : FiltersAgree ref db)
    (hkeep : ∀ field ∈ filterFields, db'.leafAt (ref ++ [field]) = db.leafAt (ref ++ [field])) :
    FiltersAgree ref db' := by
  rw [FiltersAgree, hkeep "platform" (by decide), hkeep "region" (by decide),
    hkeep "compoundQuery" (by decide)]
  refine h.imp_right fun hnone field hfield => ?_
  rw [hkeep field hfield]
  exact hnone field hfield

/-- **A write keeps the fields of the filters in step** in every entry. -/
theorem Filterable.apply (h : Filterable db) (hw : ListWrite w) : Filterable (w.apply db) := by
  cases hw with
  | @entry place values hplace hvalues =>
    refine ⟨fun p v hleaf => ?_, fun ref href => ?_⟩
    · rcases leaf_of_update hleaf with ⟨e, he, r, hp, hr⟩ | hold
      · obtain ⟨v', hv'⟩ := hvalues.flat e he
        rw [hv'] at hr
        cases r with
        | nil =>
          rw [List.append_nil] at hp
          exact ⟨place, e.1, hplace, hvalues.names e.1 (List.mem_map.mpr ⟨e, he, rfl⟩), hp⟩
        | cons k r => simp at hr
      · exact h.entries p v hold
    · by_cases hsame : place = ref
      · subst hsame
        obtain ⟨platform, region, hplatform, hregion, hquery⟩ := hvalues.filters
        exact Or.inl ⟨platform, region,
          Write.leafAt_update_named hvalues.nodup hplatform [],
          Write.leafAt_update_named hvalues.nodup hregion [],
          Write.leafAt_update_named hvalues.nodup hquery []⟩
      · refine (h.filters ref href).keep fun field hfield => ?_
        rcases href.field_cases hplace hsame (not_hyphenated_of_filter hfield) with
          hbeside | ⟨k, hk, hbelow⟩
        · exact Write.leafAt_apply_beside (.updateChildValues place values) hbeside
        · rw [hbelow]
          exact Write.leafAt_update_other (fun hmem => hvalues.names k hmem hk) [field]
  | @dropEntry place hplace =>
    refine ⟨fun p v hleaf => h.entries p v (leaf_of_remove hleaf), fun ref href => ?_⟩
    have hgone : ∀ q, ((Write.removeValue place).apply db).leafAt (place ++ q) = none := by
      intro q
      rw [Write.apply, PathTree.leafAt_put_below]
      rfl
    by_cases hsame : place = ref
    · subst hsame
      exact Or.inr fun field _ => hgone [field]
    · by_cases hbelow : place <+: ref
      · obtain ⟨r, rfl⟩ := hbelow
        refine Or.inr fun field _ => ?_
        rw [List.append_assoc]
        exact hgone (r ++ [field])
      · refine (h.filters ref href).keep fun field hfield => ?_
        rcases href.field_cases hplace hsame (not_hyphenated_of_filter hfield) with
          hbeside | ⟨k, -, hpath⟩
        · exact Write.leafAt_apply_beside (.removeValue place) hbeside
        · refine (hbelow ⟨[k], ?_⟩).elim
          have hsplit : ref ++ [field] = (place ++ [k]) ++ [field] := by rw [hpath]; simp
          exact (List.append_cancel_right hsplit).symm
  | elsewhere hw =>
    have hkeep : ∀ p, p.head? = some "lfg" → (w.apply db).leafAt p = db.leafAt p := by
      intro p hp
      refine Write.leafAt_apply_beside w ?_
      obtain ⟨r, href⟩ := List.head?_eq_some_iff.mp hw
      obtain ⟨q, rfl⟩ := List.head?_eq_some_iff.mp hp
      rw [href]
      simp [Incomparable]
    refine ⟨fun p v hleaf => h.entries p v ((hkeep _ rfl).symm.trans hleaf), fun ref href => ?_⟩
    exact (h.filters ref href).keep fun field _ => hkeep _ (href.head [field])

/-! ### The system -/

/-- Whatever is found in a list is an entry, under a generated key. -/
theorem Filterable.entry_of_leaf (h : Filterable db) {list : Ref}
    (hlist : list = lfgRef g ∨ list = onlineRef g)
    (hleaf : db.leafAt (list ++ [k, field]) = some v) : hyphenated k ∧ EntryRef (list ++ [k]) := by
  rcases hlist with rfl | rfl
  · obtain ⟨ref, f, href, -, heq⟩ := h.entries _ _ hleaf
    cases href with
    | @lfg g' k' hk' =>
      obtain ⟨-, rfl, -⟩ : g = g' ∧ k = k' ∧ field = f := by simpa using heq
      exact ⟨hk', .lfg g hk'⟩
    | online g' hk' => simp at heq
  · obtain ⟨ref, f, href, -, heq⟩ := h.entries _ _ hleaf
    cases href with
    | lfg g' hk' => simp at heq
    | @online g' k' hk' =>
      obtain ⟨-, rfl, -⟩ : g = g' ∧ k = k' ∧ field = f := by simpa using heq
      exact ⟨hk', .online g hk'⟩

/-- What a callback of a list captures is an entry, and what it asks for are entries. -/
def AsksEntries (request : Query) : Callback → Prop
  | .goOfflineForGame game => ∃ u, request = .equal (onlineRef game.name) "username" u
  | .updateGameLFG game _ lfgDictionary =>
      (∃ u, request = .equal (lfgRef game.name) "username" u) ∧
        ∀ values ∈ lfgDictionary, EntryFields values
  | _ => True

/-- What a callback of a list found is an entry. -/
def FoundEntries (response : Tree) : Callback → Prop
  | .goOfflineForGame _ | .updateGameLFG _ _ _ => ∀ k, firstKey response = some k → hyphenated k
  | _ => True

/-- The lists are filterable and stay so. -/
structure KeepsFilterable (s : State) : Prop where
  store : Filterable s.store
  issued : Issued (fun _ w => ListWrite w) (fun _ => AsksEntries) s
  found : ∀ a ∈ s.answers, FoundEntries a.response a.callback

/-- Operations write the records of users; the lists are left to the callbacks. -/
theorem users_of_opWrites (client : Session) (op : Op) (id : String)
    (hw : w ∈ opWrites client op id) : w.ref.head? = some "users" := by
  cases op with
  | acceptTeammateRequest | removeTeammate =>
    simp only [opWrites, List.mem_cons, List.not_mem_nil, or_false] at hw
    rcases hw with rfl | rfl | rfl | rfl <;> rfl
  | sendDirectMessage =>
    simp only [opWrites, List.mem_cons, List.not_mem_nil, or_false] at hw
    rcases hw with rfl | rfl <;> rfl
  | markDirectChatMessagesAsRead chat =>
    simp only [opWrites] at hw
    split at hw
    · cases hw
    · rw [List.mem_singleton.mp hw]
      rfl
  | requestPlayerToTeamUp | goOnlineForGame => cases hw
  | _ =>
    rw [List.mem_singleton.mp hw]
    rfl

theorem permitted_filters_begin (client : Session) (op : Op) (id : String) :
    Permitted (fun _ w => ListWrite w) (fun _ => AsksEntries) client (begin client op id) := by
  refine ⟨fun w hw => .elsewhere (users_of_opWrites client op id ?_),
    fun request callback hmem => ?_⟩
  · rw [← writes_begin]
    exact mem_writes.mpr hw
  · cases op with
    | goOfflineForGame game =>
      simp only [begin, goOfflineForGame, List.mem_cons, List.not_mem_nil, reduceCtorEq,
        Command.call.injEq, or_false, false_or] at hmem
      obtain ⟨rfl, rfl⟩ := hmem
      exact ⟨_, rfl⟩
    | markDirectChatMessagesAsRead chat =>
      simp only [begin, markDirectChatMessagesAsRead] at hmem
      split at hmem <;> simp at hmem
    | requestPlayerToTeamUp | goOnlineForGame | updateBio | updateUserGames | editRegion
    | editMicStatus | setProfilePicture =>
      simp only [begin, requestPlayerToTeamUp, goOnlineForGame, updateBio, updateUserGames,
        editRegion, editMicStatus, setProfilePicture, editProfile, editUserLFGInfo, updateUserLFG,
        List.mem_cons, List.not_mem_nil, reduceCtorEq, Command.call.injEq, or_false,
        false_or] at hmem
      obtain ⟨-, rfl⟩ := hmem
      trivial
    | _ =>
      simp [begin, acceptTeammateRequest, declineTeammateRequest, removeTeammate,
        sendDirectMessage, deleteDirectChat, storeFCMToken] at hmem

theorem entryFields_lfgDictionary (u : String) (user : User) (games : List Game) (game : Game) :
    ∀ values ∈ lfgDictionary u user games game, EntryFields values := by
  intro values hvalues
  rw [lfgDictionary_eq] at hvalues
  obtain ⟨platform, -, rfl⟩ := Option.map_eq_some_iff.mp hvalues
  exact entryFields_entryValues u user platform

theorem permitted_filters_resume {catalogue : List Game} (client : Session) {request : Query}
    {callback : Callback} {response : Tree} {id : String} (hasks : AsksEntries request callback)
    (hfound : FoundEntries response callback) (hid : hyphenated id) :
    Permitted (fun _ w => ListWrite w) (fun _ => AsksEntries) client
      (resume catalogue callback response id) := by
  cases callback with
  | requestPlayerToTeamUp currentUserName username =>
    simp only [resume, requestPlayerToTeamUpRead]
    split
    · exact ⟨fun _ hw => (by cases hw), fun _ _ hcall => (by cases hcall)⟩
    · refine ⟨fun w hw => ?_, fun _ _ hcall => (by simp at hcall)⟩
      rw [Command.write.inj (List.mem_singleton.mp hw)]
      exact .elsewhere rfl
  | goOnlineForGame currentUser game now =>
    simp only [resume, goOnlineForGameRead_eq]
    split
    · refine ⟨fun w hw => ?_, fun _ _ hcall => (by simp at hcall)⟩
      simp only [List.mem_cons, Command.write.injEq, List.not_mem_nil, or_false] at hw
      rcases hw with rfl | rfl
      · exact .entry (.online game.name hid) (entryFields_onlineValues _ _ _ _)
      · exact .elsewhere rfl
    · exact ⟨fun _ hw => (by cases hw), fun _ _ hcall => (by cases hcall)⟩
  | goOfflineForGame game =>
    simp only [resume, goOfflineForGameRead_eq]
    refine ⟨fun w hw => ?_, fun _ _ hcall => (by simp at hcall)⟩
    obtain ⟨k, hk, heq⟩ := List.mem_map.mp hw
    rw [← Command.write.inj heq]
    exact .dropEntry (.online game.name (hfound k (Option.mem_toList.mp hk)))
  | editUserLFGInfo currentUser =>
    simp only [resume, editUserLFGInfoRead, updateUserLFG]
    split
    · exact ⟨fun _ hw => (by cases hw), fun _ _ hcall => (by cases hcall)⟩
    · refine ⟨fun _ hw => (by simp at hw), fun _ _ hcall => ?_⟩
      simp only [List.mem_singleton, Command.call.injEq] at hcall
      rw [hcall.2]
      trivial
  | updateUserLFG username games =>
    simp only [resume, updateUserLFGRead]
    split
    · refine ⟨fun _ hw => (by simp at hw), fun _ _ hcall => ?_⟩
      obtain ⟨game, -, heq⟩ := List.mem_map.mp hcall
      obtain ⟨rfl, rfl⟩ := Command.call.inj heq
      exact ⟨⟨_, rfl⟩, entryFields_lfgDictionary username _ games game⟩
    · exact ⟨fun _ hw => (by cases hw), fun _ _ hcall => (by cases hcall)⟩
  | updateGameLFG game games lfgDictionary =>
    simp only [resume, updateGameLFGRead]
    split
    · rename_i k hk
      split
      · refine ⟨fun w hw => ?_, fun _ _ hcall => (by simp at hcall)⟩
        rw [Command.write.inj (List.mem_singleton.mp hw)]
        exact .entry (.lfg game.name (hfound k hk)) (hasks.2 _ rfl)
      · refine ⟨fun w hw => ?_, fun _ _ hcall => (by simp at hcall)⟩
        rw [Command.write.inj (List.mem_singleton.mp hw)]
        exact .dropEntry (.lfg game.name (hfound k hk))
    · split
      · refine ⟨fun w hw => ?_, fun _ _ hcall => (by simp at hcall)⟩
        rw [Command.write.inj (List.mem_singleton.mp hw)]
        exact .entry (.lfg game.name hid) (hasks.2 _ rfl)
      · exact ⟨fun _ hw => (by cases hw), fun _ _ hcall => (by cases hcall)⟩

theorem Filterable.applyAll {catalogue : List Game} (h : Filterable db) {ws : List Write}
    (hws : ∀ w ∈ ws, ListWrite w) : Filterable ((app catalogue).applyAll ws db) := by
  induction ws generalizing db with
  | nil => exact h
  | cons w rest ih =>
    exact ih (h.apply (hws w List.mem_cons_self)) fun w' hw' => hws w' (List.mem_cons_of_mem w hw')

/-- What a list's callback is answered from filterable lists are entries. -/
theorem Filterable.found (h : Filterable db) {request : Query} {callback : Callback}
    {response : Tree} (hasks : AsksEntries request callback)
    (hanswers : request.answers db response = true) : FoundEntries response callback := by
  cases callback with
  | goOfflineForGame game =>
    obtain ⟨u, rfl⟩ := hasks
    exact fun k hk => (h.entry_of_leaf (Or.inr rfl) (listed_of_firstKey hanswers hk)).1
  | updateGameLFG game games lfgDictionary =>
    obtain ⟨⟨u, rfl⟩, -⟩ := hasks
    exact fun k hk => (h.entry_of_leaf (Or.inl rfl) (listed_of_firstKey hanswers hk)).1
  | _ => trivial

theorem KeepsFilterable.step {catalogue : List Game} {s t : State} {e : Event}
    (h : KeepsFilterable s) (hst : (app catalogue).step s e = some t) : KeepsFilterable t := by
  cases e with
  | start client op id =>
    obtain ⟨-, -, rfl⟩ := step_start _ hst
    exact ⟨h.store, h.issued.issue (permitted_filters_begin client op id) id, h.found⟩
  | deliver index =>
    obtain ⟨before, w, after, hout, -, rfl⟩ := step_deliver _ hst
    refine ⟨h.store.apply (h.issued.writes w (mem_of_split hout)),
      ⟨fun e he => h.issued.writes e ?_, h.issued.calls, h.issued.answers⟩, h.found⟩
    exact rest_of_split hout he
  | serve index response =>
    obtain ⟨before, c, after, hcalls, -, hanswers, rfl⟩ := step_serve _ hst
    have hc : c ∈ s.calls := mem_of_split hcalls
    have hview : Filterable ((app catalogue).view s c.client) := by
      refine h.store.applyAll fun w hw => ?_
      obtain ⟨e, he, rfl⟩ := List.mem_map.mp hw
      exact h.issued.writes e (List.mem_filter.mp he).1
    have hfound := hview.found (h.issued.calls c hc) hanswers
    refine ⟨h.store, ⟨h.issued.writes, fun c' hc' => h.issued.calls c' ?_, fun a ha => ?_⟩,
      fun a ha => ?_⟩
    · exact rest_of_split hcalls hc'
    · rcases List.mem_append.mp ha with hold | hnew
      · exact h.issued.answers a hold
      · rw [List.mem_singleton.mp hnew]
        exact h.issued.calls c hc
    · rcases List.mem_append.mp ha with hold | hnew
      · exact h.found a hold
      · rw [List.mem_singleton.mp hnew]
        exact hfound
  | resume index id =>
    obtain ⟨before, a, after, hans, -, hmintable, -, rfl⟩ := step_resume _ hst
    have ha : a ∈ s.answers := mem_of_split hans
    have hsub : before ++ after ⊆ s.answers := rest_of_split hans
    have hrest : Issued (fun _ w => ListWrite w) (fun _ => AsksEntries)
        ({ s with answers := before ++ after } : State) :=
      ⟨h.issued.writes, h.issued.calls, fun a' ha' => h.issued.answers a' (hsub ha')⟩
    exact ⟨h.store, hrest.issue (permitted_filters_resume a.client (h.issued.answers a ha)
      (h.found a ha) hmintable) id, fun a' ha' => h.found a' (hsub ha')⟩
  | observe client =>
    obtain rfl := step_observe _ hst
    exact ⟨h.store, ⟨h.issued.writes, h.issued.calls, h.issued.answers⟩, h.found⟩

/-! ### The filters -/

theorem keyBefore_irrefl (k : String) : keyBefore k k = false := by
  unfold keyBefore
  split <;> simp_all

/-- The limit leaves an answer alone that has no more entries. -/
theorem same_queryLimited {limit : Nat} {snapshot : Tree} (hroot : snapshot.leafAt [] = none)
    (h : snapshot.keys.length ≤ limit) : PathTree.Same (queryLimited limit snapshot) snapshot := by
  refine PathTree.same_of_leafAt fun q => ?_
  cases q with
  | nil => rw [hroot, queryLimited, PathTree.leafAt_filterKeys_nil]
  | cons k q =>
    rw [queryLimited, PathTree.leafAt_filterKeys]
    split_ifs with hk
    · rfl
    · refine (Option.eq_none_iff_forall_not_mem.mpr fun v hv => hk ?_).symm
      have hmem : k ∈ snapshot.keys :=
        PathTree.mem_keys.mpr (PathTree.has_of_leafAt (p := [k]) (q := q) hv)
      have hlt : (snapshot.keys.filter (keyBefore k)).length < snapshot.keys.length :=
        List.length_filter_lt_length_iff_exists.mpr ⟨k, hmem, by simp [keyBefore_irrefl]⟩
      exact decide_eq_true (lt_of_lt_of_le hlt h)

/-- None of the three queries matches more entries than the limit. -/
structure WithinLimit (list : Ref) (platform : String) (region : Region) (db : Tree) : Prop where
  both : ((LFGController.query list (some platform) (some region)).snapshot db).keys.length ≤
    LFGController.limit
  platform : ((LFGController.query list (some platform) none).snapshot db).keys.length ≤
    LFGController.limit
  region : ((LFGController.query list none (some region)).snapshot db).keys.length ≤
    LFGController.limit

/-- The entries selected by the platform filter that are also selected by the region filter. -/
def selectedByEach (list : Ref) (platform : String) (region : Region) (db : Tree) : Tree :=
  (LFGController.found list (some platform) none db).filterKeys fun k =>
    decide (k ∈ (LFGController.found list none (some region) db).keys)

/-- The joined field of an entry stands for the two others. -/
theorem Filterable.compoundQuery_iff (h : Filterable db) {list : Ref}
    (hlist : list = lfgRef g ∨ list = onlineRef g) (platform : String) (region : Region)
    (k : String) :
    db.leafAt (list ++ [k, "compoundQuery"]) =
        some (.str (platform ++ "_" ++ region.rawValue)) ↔
      db.leafAt (list ++ [k, "platform"]) = some (.str platform) ∧
        db.leafAt (list ++ [k, "region"]) = some (.str region.rawValue) := by
  have hagree : ∀ {field v}, db.leafAt (list ++ [k, field]) = some v →
      FiltersAgree (list ++ [k]) db :=
    fun hleaf => h.filters _ (h.entry_of_leaf hlist hleaf).2
  simp only [FiltersAgree, List.append_assoc, List.cons_append, List.nil_append] at hagree
  constructor
  · intro hquery
    rcases hagree hquery with ⟨platform', region', hplatform, hregion, hquery'⟩ | hnone
    · obtain ⟨rfl, rfl⟩ := compoundQuery_inj.mp
        (Leaf.str.inj (Option.some.inj (hquery'.symm.trans hquery)))
      exact ⟨hplatform, hregion⟩
    · rw [hnone "compoundQuery" (by decide)] at hquery
      cases hquery
  · rintro ⟨hplatform, hregion⟩
    rcases hagree hplatform with ⟨platform', region', hplatform', hregion', hquery⟩ | hnone
    · obtain rfl := Leaf.str.inj (Option.some.inj (hplatform'.symm.trans hplatform))
      obtain rfl := Region.rawValue_injective
        (Leaf.str.inj (Option.some.inj (hregion'.symm.trans hregion)))
      exact hquery
    · rw [hnone "platform" (by decide)] at hplatform
      cases hplatform

/-- **The two filters together select what each of them selects**, in both lists of a game. -/
theorem Filterable.found_both (h : Filterable db) {list : Ref}
    (hlist : list = lfgRef g ∨ list = onlineRef g) {platform : String} {region : Region}
    (hlimit : WithinLimit list platform region db) :
    PathTree.Same (LFGController.found list (some platform) (some region) db)
      (selectedByEach list platform region db) := by
  have hboth : PathTree.Same (LFGController.found list (some platform) (some region) db) _ :=
    same_queryLimited (PathTree.leafAt_filterKeys_nil _ _) hlimit.both
  have hplatform : PathTree.Same (LFGController.found list (some platform) none db) _ :=
    same_queryLimited (PathTree.leafAt_filterKeys_nil _ _) hlimit.platform
  have hregion : PathTree.Same (LFGController.found list none (some region) db) _ :=
    same_queryLimited (PathTree.leafAt_filterKeys_nil _ _) hlimit.region
  refine PathTree.same_of_leafAt fun q => ?_
  cases q with
  | nil =>
    rw [hboth.leafAt, selectedByEach, PathTree.leafAt_filterKeys_nil]
    exact PathTree.leafAt_filterKeys_nil _ _
  | cons k q =>
    rw [hboth.leafAt, selectedByEach, PathTree.leafAt_filterKeys, hplatform.leafAt]
    simp only [hregion.mem_keys, LFGController.query, Query.snapshot, PathTree.leafAt_filterKeys,
      PathTree.mem_keys_filterKeys, decide_eq_true_eq, h.compoundQuery_iff hlist]
    by_cases hmine : db.leafAt (list ++ [k, "region"]) = some (.str region.rawValue)
    · have hkey : k ∈ (db.sub list).keys := by
        refine PathTree.mem_keys.mpr (PathTree.has_of_leafAt (p := [k]) (q := ["region"])
          (v := .str region.rawValue) ?_)
        rw [PathTree.leafAt_sub]
        exact hmine
      simp [hmine, hkey]
    · simp [hmine]

theorem keepsFilterable_initial (hempty : db.has ["lfg"] = false) (ids : List String) :
    KeepsFilterable (State.initial db ids) := by
  have hnone : ∀ q, db.leafAt ("lfg" :: q) = none := fun q =>
    PathTree.leafAt_of_not_has (p := ["lfg"]) hempty q
  refine ⟨⟨fun p v hleaf => ?_, fun ref href => Or.inr fun field _ => ?_⟩,
    .of_quiescent ⟨rfl, rfl, rfl⟩, fun a ha => (by cases ha)⟩
  · have hleaf' : db.leafAt ("lfg" :: p) = some v := hleaf
    rw [hnone] at hleaf'
    cases hleaf'
  · obtain ⟨q, hq⟩ := List.head?_eq_some_iff.mp (href.head [field])
    rw [hq]
    exact hnone q

/-- **The filters intersect** in every database the app reaches from empty lists, in every
    order of its steps. -/
theorem filters_intersect {catalogue : List Game} {ids : List String} {events : List Event}
    {t : State} (hempty : db.has ["lfg"] = false)
    (run : (app catalogue).Run (fun _ _ => True) (State.initial db ids) events t) (game : Game)
    (platform : String) (region : Region) :
    ∀ list ∈ [lfgRef game.name, onlineRef game.name],
      WithinLimit list platform region t.store →
      PathTree.Same (LFGController.found list (some platform) (some region) t.store)
        (selectedByEach list platform region t.store) := by
  have hkeeps : KeepsFilterable t :=
    run.invariant KeepsFilterable (fun _ _ _ hs _ hst => hs.step hst)
      (keepsFilterable_initial hempty ids)
  intro list hlist hlimit
  exact hkeeps.store.found_both (g := game.name) (by simpa using hlist) hlimit

theorem filters_intersect_choosesAndPlays :
    ∃ t, (app [chess]).exec (fun _ _ => true) (State.initial (profiles aliceAndBob) [])
        choosesAndPlays = some t ∧
      ∀ list ∈ [lfgRef "chess", onlineRef "chess"],
        PathTree.Same (LFGController.found list (some "PC") (some .europe) t.store)
            (selectedByEach list "PC" .europe t.store) ∧
          (LFGController.found list (some "PC") (some .europe) t.store).keys ≠ [] := by
  have hend : ((app [chess]).exec (fun _ _ => true)
      (State.initial (profiles aliceAndBob) []) choosesAndPlays).map (fun t =>
        decide (∀ list ∈ [lfgRef "chess", onlineRef "chess"],
          ∀ query ∈ [LFGController.query list (some "PC") (some .europe),
            LFGController.query list (some "PC") none,
            LFGController.query list none (some .europe)],
          (query.snapshot t.store).keys.length ≤ LFGController.limit) &&
        decide (∀ list ∈ [lfgRef "chess", onlineRef "chess"],
          (LFGController.found list (some "PC") (some .europe) t.store).keys ≠ [])) =
      some true := by
    decide +kernel
  obtain ⟨t, ht, hout⟩ := Option.map_eq_some_iff.mp hend
  obtain ⟨hlimit, hselected⟩ := Bool.and_eq_true_iff.mp hout
  have run : (app [chess]).Run (fun _ _ => True) (State.initial (profiles aliceAndBob) [])
      choosesAndPlays t := run_of_exec (fun _ _ _ => trivial) ht
  refine ⟨t, ht, fun list hlist => ⟨?_, of_decide_eq_true hselected list hlist⟩⟩
  have hqueries := of_decide_eq_true hlimit list hlist
  exact filters_intersect (by decide +kernel) run chess "PC" .europe list hlist
    ⟨hqueries _ (by simp), hqueries _ (by simp), hqueries _ (by simp)⟩

end TeamUp
