import TeamUp.Display
import TeamUp.OwnEdits
import TeamUp.Records

/-!
# The profile screen

`ProfileViewController` fetches the current user when it is loaded, and again whenever an edit
on the device posts `profileUpdated`.  The fetches are answered from what the device sees of
the database then, and their answers overwrite each other.  An edit is written before it is
posted, so the answer to the latest fetch has every edit made on the device, whether or not
it has arrived at the database; and no write makes a record that decodes one that does not.
-/

namespace TeamUp

open Protocol

/-! ### Records that decode -/

/-- The record has what the initializer needs, under the name of the user. -/
def Complete (u : String) (db : Tree) : Prop :=
  ∀ field ∈ mandatoryFields, ∃ value, Admissible u field value ∧
    db.leafAt (userRef u ++ [field]) = value.leafAt []

def Write.KeepsRecords (w : Write) : Prop := ∀ u db, Complete u db → Complete u (w.apply db)

section Records

variable {catalogue : List Game} {u : String} {client : Session} {w : Write} {s t : State}
variable {db snapshot : Tree}

theorem complete_of_fetched {user : User} (h : fetchedUser (db.sub (userRef u)) = some user)
    (hname : user.username = u) : Complete u db := by
  obtain ⟨dictionary, hdictionary, hdecode⟩ := Option.bind_eq_some_iff.mp h
  obtain rfl := Tree.asDictionary_eq_some hdictionary
  have hstored := User.stored_of_ofDictionary hdecode
  have hleaf : ∀ field, db.leafAt (userRef u ++ [field]) =
      (db.sub (userRef u)).leafAt [field] := fun field => (PathTree.leafAt_sub ..).symm
  intro field hfield
  rw [hleaf]
  simp only [mandatoryFields, List.mem_cons, List.not_mem_nil, or_false] at hfield
  rcases hfield with rfl | rfl | rfl | rfl | rfl
  · exact ⟨Tree.str u, rfl, hstored.username.trans (by rw [hname]; rfl)⟩
  · exact ⟨_, ⟨user.bio, rfl⟩, hstored.biography⟩
  · exact ⟨_, ⟨user.mic, rfl⟩, hstored.mic⟩
  · exact ⟨_, ⟨user.profilePicUrl, rfl⟩, hstored.profilePicUrl⟩
  · exact ⟨_, ⟨user.region, rfl⟩, hstored.region⟩

/-- A complete record decodes, under the name of its user. -/
theorem Complete.fetched (h : Complete u db) (hsame : PathTree.Same snapshot (db.sub (userRef u))) :
    ∃ user, fetchedUser snapshot = some user ∧ user.username = u := by
  have hleaf : ∀ field, snapshot.leafAt [field] = db.leafAt (userRef u ++ [field]) := fun field =>
    by rw [hsame.leafAt, PathTree.leafAt_sub]
  obtain ⟨-, rfl, husername⟩ := h "username" (by simp [mandatoryFields])
  obtain ⟨-, ⟨bio, rfl⟩, hbio⟩ := h "biography" (by simp [mandatoryFields])
  obtain ⟨-, ⟨status, rfl⟩, hmic⟩ := h "mic" (by simp [mandatoryFields])
  obtain ⟨-, ⟨url, rfl⟩, hurl⟩ := h "profilePicUrl" (by simp [mandatoryFields])
  obtain ⟨-, ⟨region, rfl⟩, hregion⟩ := h "region" (by simp [mandatoryFields])
  have hstored : User.Stored ⟨u, url, status, bio, region, [], none, none⟩ snapshot :=
    ⟨(hleaf _).trans husername, (hleaf _).trans hbio, (hleaf _).trans hmic, (hleaf _).trans hurl,
      (hleaf _).trans hregion⟩
  obtain ⟨user, huser, hstored'⟩ := hstored.decodes
  exact ⟨user, huser, (hstored.fields_eq hstored').1.symm⟩

theorem Written.keepsRecords (h : Written w) : w.KeepsRecords := by
  intro u db hdb field hfield
  have hleaf : (w.apply db).leafAt (userRef u ++ [field]) = _ := h.leafAt_field hfield u
  cases hvalue : written (userRef u) field w with
  | some value =>
    rw [hvalue] at hleaf
    exact ⟨value, h.admissible hvalue, hleaf⟩
  | none =>
    rw [hvalue] at hleaf
    obtain ⟨value, hadmissible, hold⟩ := hdb field hfield
    exact ⟨value, hadmissible, hleaf.trans hold⟩

theorem CallbackWrite.keepsRecords (h : CallbackWrite w) : w.KeepsRecords := by
  intro u db hdb field hfield
  obtain ⟨value, hadmissible, hold⟩ := hdb field hfield
  refine ⟨value, hadmissible, (Write.leafAt_apply_beside w ?_).trans hold⟩
  simp only [mandatoryFields, List.mem_cons, List.not_mem_nil, or_false] at hfield
  cases h <;> rcases hfield with rfl | rfl | rfl | rfl | rfl <;>
    simp [Incomparable, Write.ref, TeamUp.addRequest]

theorem keepsRecords_step (h : Issued (fun _ w => w.KeepsRecords) (fun _ _ _ => True) s) {e : Event}
    (hst : (app catalogue).step s e = some t) :
    Issued (fun _ w => w.KeepsRecords) (fun _ _ _ => True) t := by
  refine h.step (fun client op id _ => ⟨fun w hw => ?_, fun _ _ _ => trivial⟩)
    (fun client request callback response id _ => ⟨fun w hw => ?_, fun _ _ _ => trivial⟩) hst
  · have hmem : w ∈ opWrites client op id := writes_begin client op id ▸ mem_writes.mpr hw
    exact (written_of_opWrites hmem).keepsRecords
  · exact (callbackWrite_of_mem hw).keepsRecords

theorem complete_step (hissued : Issued (fun _ w => w.KeepsRecords) (fun _ _ _ => True) s)
    (h : Complete u s.store) {e : Event} (hst : (app catalogue).step s e = some t) :
    Complete u t.store := by
  cases e with
  | start client op id =>
    obtain ⟨-, -, rfl⟩ := step_start _ hst
    exact h
  | deliver index =>
    obtain ⟨before, e, after, hout, -, rfl⟩ := step_deliver _ hst
    exact hissued.writes e (mem_of_split hout) u s.store h
  | serve index response =>
    obtain ⟨before, c, after, -, -, -, rfl⟩ := step_serve _ hst
    exact h
  | resume index id =>
    obtain ⟨before, a, after, -, -, -, -, rfl⟩ := step_resume _ hst
    exact h
  | observe client =>
    obtain rfl := step_observe _ hst
    exact h

/-- What a session sees decodes as well. -/
theorem complete_view (hissued : Issued (fun _ w => w.KeepsRecords) (fun _ _ _ => True) s)
    (h : Complete u s.store) (client : Session) :
    Complete u ((app catalogue).view s client) := by
  have hws : ∀ w ∈ (s.outstanding.filter fun e => e.client = client).map Issue.write,
      w.KeepsRecords := by
    intro w hw
    obtain ⟨e, he, rfl⟩ := List.mem_map.mp hw
    exact hissued.writes e (List.mem_filter.mp he).1
  rw [view]
  generalize (s.outstanding.filter fun e => e.client = client).map Issue.write = ws at hws
  generalize s.store = st at h
  induction ws generalizing st with
  | nil => exact h
  | cons w ws ih =>
    exact ih (fun w' hw' => hws w' (by simp [hw'])) (w.apply st) (hws w (by simp) u st h)

end Records

/-! ### The screen -/

/-- The tab of the current user, on a device over the database. -/
structure ProfileScreen where
  config : State
  /-- The view has been loaded, and observes `profileUpdated`. -/
  loaded : Bool
  /-- `user`, with the fetches under way. -/
  fetches : Display Unit (Option User)
  /-- The snapshots handed to fetches whose completion has not run yet, or has. -/
  served : List (Nat × Tree)
  /-- The activity indicator is spinning. -/
  animating : Bool
  /-- `noDataView.isHidden` -/
  noDataHidden : Bool
  /-- The reloads on the main queue. -/
  reloads : Nat

inductive ProfileEvent where
  /-- Something happens over the database; an edit on the device is posted. -/
  | app (e : Event)
  | viewDidLoad
  /-- A fetch is answered, from what the device sees. -/
  | serve (index : Nat) (snapshot : Tree)
  | completion (index : Nat)
  | reload

/-- The edits that post `profileUpdated` once they are written. -/
def Op.postsProfileUpdated : Op → Bool
  | .updateBio _ | .updateUserGames _ | .editRegion _ | .editMicStatus _ => true
  | .setProfilePicture _ => true
  | _ => false

def posts (session : Session) : Event → Bool
  | .start client op _ => decide (client = session) && op.postsProfileUpdated
  | _ => false

namespace ProfileScreen

def created (db : Tree) (ids : List String) : ProfileScreen where
  config := .initial db ids
  loaded := false
  fetches := .initial none
  served := []
  animating := false
  noDataHidden := true
  reloads := 0

def fetchUser (s : ProfileScreen) : ProfileScreen :=
  { s with fetches := s.fetches.ask (), animating := true }

def step (catalogue : List Game) (session : Session) (s : ProfileScreen) :
    ProfileEvent → Option ProfileScreen
  | .app e =>
      ((app catalogue).step s.config e).map fun config =>
        if s.loaded && posts session e then fetchUser { s with config } else { s with config }
  | .viewDidLoad => if s.loaded then none else some (fetchUser { s with loaded := true })
  | .serve index snapshot =>
      match s.fetches.pending[index]? with
      | some (number, _) =>
          if (s.served.lookup number).isNone &&
              (Query.value (userRef session.user)).answers ((app catalogue).view s.config session)
                snapshot then
            some { s with served := (number, snapshot) :: s.served }
          else none
      | none => none
  | .completion index =>
      match s.fetches.pending[index]? with
      | some (number, _) =>
          match s.served.lookup number with
          | some snapshot =>
              (s.fetches.answer index (fetchedUser snapshot)).map fun fetches =>
                { s with fetches, reloads := s.reloads + 1 }
          | none => none
      | none => none
  | .reload =>
      if 0 < s.reloads then
        some { s with
          animating := false
          noDataHidden := match s.fetches.shown with
            | some user => !user.games.isEmpty
            | none => s.noDataHidden
          reloads := s.reloads - 1 }
      else none

def appEvents (events : List ProfileEvent) : List Event :=
  events.filterMap fun
    | .app e => some e
    | _ => none

/-- The writes of a device arrive in order, the field is edited on this device only, and answers
    to earlier fetches do not come after the one to the latest. -/
def Timely (session : Session) (field : String) (s : ProfileScreen) : ProfileEvent → Prop
  | .app e => InOrder s.config e ∧ EditedBy session field e
  | .completion index =>
      ∀ fetch ∈ s.fetches.pending[index]?, ∀ snapshot ∈ s.served.lookup fetch.1,
        s.fetches.InTurn index (fetchedUser snapshot)
  | _ => True

instance (session : Session) (field : String) (s : ProfileScreen) (e : ProfileEvent) :
    Decidable (s.Timely session field e) := by
  rcases e with _ | _ | _ | _ | _ <;> dsimp only [Timely] <;> infer_instance

variable {session : Session} {field : String} {catalogue : List Game} {db : Tree}
variable {s t : ProfileScreen} {done : List Event}

/-- The record that was read decodes, and has all the edits of the field made so far. -/
def HasEdits (db : Tree) (session : Session) (field : String) (done : List Event)
    (snapshot : Tree) : Prop :=
  (∃ user, fetchedUser snapshot = some user ∧ user.username = session.user) ∧
    PathTree.Same (snapshot.sub [field]) (edited db session.user field done)

/-- What holds of the screen along a run, whatever was edited. -/
structure Sound (db : Tree) (session : Session) (field : String) (done : List Event)
    (s : ProfileScreen) : Prop where
  issued : Issued AppWrite (fun _ _ _ => True) s.config
  edited : Edited session field db done s.config
  keeps : Issued (fun _ w => w.KeepsRecords) (fun _ _ _ => True) s.config
  complete : Complete session.user s.config.store
  counted : s.fetches.Counted
  following : s.fetches.Following
  numbered : ∀ a ∈ s.served, a.1 ≤ s.fetches.inputs
  spinning : s.animating = true → s.fetches.pending ≠ [] ∨ 0 < s.reloads
  reloaded : s.reloads = 0 → ∀ user, s.fetches.shown = some user →
    s.noDataHidden = !user.games.isEmpty

/-- The latest fetch, once it is answered, has all edits. -/
structure Current (db : Tree) (session : Session) (field : String) (done : List Event)
    (s : ProfileScreen) : Prop where
  sound : Sound db session field done s
  latest : s.loaded = true → ∀ snapshot, s.served.lookup s.fetches.inputs = some snapshot →
    HasEdits db session field done snapshot
  result : s.loaded = true → ∀ user, s.fetches.result = some user →
    ∃ snapshot, s.served.lookup s.fetches.inputs = some snapshot ∧ user = fetchedUser snapshot ∧
      HasEdits db session field done snapshot

theorem Current.created (hcomplete : Complete session.user db) (ids : List String) :
    Current db session field [] (created db ids) where
  sound := {
    issued := .of_quiescent ⟨rfl, rfl, rfl⟩
    edited := .of_initial db ids
    keeps := .of_quiescent ⟨rfl, rfl, rfl⟩
    complete := hcomplete
    counted := Display.counted_initial none
    following := Display.following_initial none
    numbered := fun _ h => by cases h
    spinning := fun h => by cases h
    reloaded := fun _ _ h => by cases h }
  latest := fun h => by cases h
  result := fun h => by cases h

/-- **A fetch** is the latest then, and not answered yet. -/
theorem Sound.fetchUser (h : Sound db session field done s) :
    Current db session field done s.fetchUser where
  sound := {
    issued := h.issued
    edited := h.edited
    keeps := h.keeps
    complete := h.complete
    counted := h.counted.ask ()
    following := Display.following_ask _ ()
    numbered := fun a ha => Nat.le_succ_of_le (h.numbered a ha)
    spinning := fun _ => Or.inl (by simp [ProfileScreen.fetchUser, Display.ask])
    reloaded := h.reloaded }
  latest := fun _ snapshot hlookup => by
    obtain ⟨l₁, l₂, hserved, -⟩ := List.lookup_eq_some_iff.mp hlookup
    have hmem : (s.fetches.inputs + 1, snapshot) ∈ s.served := by
      have hsplit : s.served = l₁ ++ (s.fetches.inputs + 1, snapshot) :: l₂ := hserved
      exact mem_of_split hsplit
    have hle := h.numbered _ hmem
    simp only at hle
    omega
  result := fun _ user hresult => by cases hresult

theorem posts_of_editOf {e : Event} {value : Tree} (h : editOf session.user field e = some value)
    (hby : EditedBy session field e) (hshown : field ≠ "fcmToken") : posts session e = true := by
  cases e with
  | start client op id =>
    have hclient : client = session := hby (by rw [h]; rfl)
    subst hclient
    rw [editOf, if_pos rfl] at h
    cases op <;> simp_all [Op.edit, posts, Op.postsProfileUpdated]
  | _ => cases h

namespace Current

theorem app (h : Current db session field done s) (hfield : field ∈ profileFields)
    (hshown : field ≠ "fcmToken") {e : Event} (horder : InOrder s.config e)
    (hby : EditedBy session field e) (hst : step catalogue session s (.app e) = some t) :
    Current db session field (done ++ [e]) t := by
  obtain ⟨config, hconfig, rfl⟩ := Option.map_eq_some_iff.mp hst
  have hsound : Sound db session field (done ++ [e]) { s with config } := {
    issued := appWrite_step h.sound.issued hconfig
    edited := h.sound.edited.step h.sound.issued hfield horder hby hconfig
    keeps := keepsRecords_step h.sound.keeps hconfig
    complete := complete_step h.sound.keeps h.sound.complete hconfig
    counted := h.sound.counted
    following := h.sound.following
    numbered := h.sound.numbered
    spinning := h.sound.spinning
    reloaded := h.sound.reloaded }
  split
  · exact hsound.fetchUser
  · rename_i hnot
    -- nothing was posted to a loaded screen, so the field was not edited
    have hsame : s.loaded = true → edited db session.user field (done ++ [e]) =
        edited db session.user field done := by
      intro hloaded
      have hnone : editOf session.user field e = none := by
        cases hedit : editOf session.user field e with
        | none => rfl
        | some value =>
          exact (hnot (by rw [hloaded, posts_of_editOf hedit hby hshown]; rfl)).elim
      simp [edited, fieldAfter, edits, hnone]
    refine ⟨hsound, fun hloaded snapshot hlookup => ?_, fun hloaded user hresult => ?_⟩
    · rw [HasEdits, hsame hloaded]
      exact h.latest hloaded snapshot hlookup
    · obtain ⟨snapshot, hlookup, huser, hhas⟩ := h.result hloaded user hresult
      exact ⟨snapshot, hlookup, huser, by rw [HasEdits, hsame hloaded]; exact hhas⟩

/-- **An answer** has all edits the device has made so far. -/
theorem serve (h : Current db session field done s) (hfield : field ∈ profileFields) {index : Nat}
    {snapshot : Tree} (hst : step catalogue session s (.serve index snapshot) = some t) :
    Current db session field done t := by
  simp only [step] at hst
  split at hst
  · rename_i number _ hget
    split at hst
    · rename_i hguard
      obtain rfl := Option.some.inj hst
      have hanswer : PathTree.Same snapshot
          (((TeamUp.app catalogue).view s.config session).sub (userRef session.user)) :=
        of_decide_eq_true (Bool.and_eq_true_iff.mp hguard).2
      have hview : PathTree.Same (((TeamUp.app catalogue).view s.config session).sub
          (userRef session.user ++ [field])) _ := h.sound.edited.view h.sound.issued hfield
      have hcomplete : Complete session.user ((TeamUp.app catalogue).view s.config session) :=
        complete_view h.sound.keeps h.sound.complete session
      have hhas : HasEdits db session field done snapshot := by
        rw [← PathTree.sub_sub] at hview
        exact ⟨hcomplete.fetched hanswer, (hanswer.sub [field]).trans hview⟩
      have hnumber : number ≤ s.fetches.inputs :=
        h.sound.counted (number, ()) (List.mem_of_getElem? hget)
      have hnone : s.served.lookup number = none :=
        Option.isNone_iff_eq_none.mp (Bool.and_eq_true_iff.mp hguard).1
      refine ⟨⟨h.sound.issued, h.sound.edited, h.sound.keeps, h.sound.complete, h.sound.counted,
        h.sound.following, List.forall_mem_cons.mpr ⟨hnumber, h.sound.numbered⟩, h.sound.spinning,
        h.sound.reloaded⟩, fun hloaded snapshot' hlookup => ?_, fun hloaded user hresult => ?_⟩
      · rw [List.lookup_cons] at hlookup
        split at hlookup
        · rw [← Option.some.inj hlookup]
          exact hhas
        · exact h.latest hloaded snapshot' hlookup
      · -- an answer that was taken is not replaced
        obtain ⟨snapshot', hlookup, huser, hhas'⟩ := h.result hloaded user hresult
        have hother : (s.fetches.inputs == number) = false := by
          refine beq_eq_false_iff_ne.mpr fun heq => ?_
          rw [heq, hnone] at hlookup
          cases hlookup
        refine ⟨snapshot', ?_, huser, hhas'⟩
        rw [List.lookup_cons, hother]
        exact hlookup
    · cases hst
  · cases hst

theorem completion (h : Current db session field done s) {index : Nat}
    (hturn : s.Timely session field (.completion index))
    (hst : step catalogue session s (.completion index) = some t) :
    Current db session field done t := by
  simp only [step] at hst
  split at hst
  · rename_i number _ hget
    split at hst
    · rename_i snapshot hlookup
      obtain ⟨fetches, hanswer, rfl⟩ := Option.map_eq_some_iff.mp hst
      have hinturn : s.fetches.InTurn index (fetchedUser snapshot) :=
        hturn (number, ()) (by rw [hget]; rfl) snapshot (by rw [hlookup]; rfl)
      have hfollowing := h.sound.following.answer hinturn hanswer
      have hcounted := h.sound.counted.answer hanswer
      obtain ⟨before, number', query, after, hget', hsplit, rfl⟩ := Display.answer_split hanswer
      obtain ⟨rfl, rfl⟩ : number' = number ∧ query = () := by
        have hsame := hget'.symm.trans hget
        simpa using hsame
      refine ⟨⟨h.sound.issued, h.sound.edited, h.sound.keeps, h.sound.complete, hcounted,
        hfollowing, h.sound.numbered,
        fun _ => Or.inr (Nat.succ_pos _), fun hreloads => (Nat.succ_ne_zero _ hreloads).elim⟩,
        h.latest, fun hloaded user hresult => ?_⟩
      simp only at hresult
      split at hresult
      · rename_i hlatest
        rw [hlatest] at hlookup
        exact ⟨snapshot, hlookup, (Option.some.inj hresult).symm,
          h.latest hloaded snapshot hlookup⟩
      · exact h.result hloaded user hresult
    · cases hst
  · cases hst

theorem reload (h : Current db session field done s)
    (hst : step catalogue session s .reload = some t) : Current db session field done t := by
  simp only [step] at hst
  split at hst
  · obtain rfl := Option.some.inj hst
    refine ⟨⟨h.sound.issued, h.sound.edited, h.sound.keeps, h.sound.complete, h.sound.counted,
      h.sound.following, h.sound.numbered, fun hspinning => (Bool.false_ne_true hspinning).elim,
      fun _ user hshown => ?_⟩, h.latest, h.result⟩
    simp only at hshown ⊢
    rw [hshown]
  · cases hst

end Current

/-- **Every timely step** keeps the latest answer up to date. -/
theorem Current.step {e : ProfileEvent} (h : Current db session field done s)
    (hfield : field ∈ profileFields) (hshown : field ≠ "fcmToken")
    (htimely : s.Timely session field e)
    (hst : ProfileScreen.step catalogue session s e = some t) :
    Current db session field (done ++ appEvents [e]) t := by
  have hkept : Current db session field done t →
      Current db session field (done ++ []) t := fun ht => by rwa [List.append_nil]
  cases e with
  | app e => exact h.app hfield hshown htimely.1 htimely.2 hst
  | viewDidLoad =>
    simp only [ProfileScreen.step] at hst
    split at hst
    · cases hst
    · obtain rfl := Option.some.inj hst
      have hsound : Sound db session field done { s with loaded := true } := { h.sound with }
      exact hkept hsound.fetchUser
  | serve index snapshot => exact hkept (h.serve hfield hst)
  | completion index => exact hkept (h.completion htimely hst)
  | reload => exact hkept (h.reload hst)

/-- **The profile screen shows every edit.**  Once all fetches are answered and no reload is on
    the main queue, the screen shows the user of the answer to the latest fetch, which has the
    last edit of the field, the activity indicator has stopped, and the prompt to add games is
    hidden just where there are some. -/
theorem profile_shows_edits {ids : List String} {events : List ProfileEvent}
    (hfield : field ∈ profileFields) (hshown : field ≠ "fcmToken") {stored : User}
    (hrecord : fetchedUser (db.sub (userRef session.user)) = some stored)
    (hname : stored.username = session.user)
    (run : Run (step catalogue session) (Timely session field) (created db ids) events t)
    (hloaded : t.loaded = true) (hrest : t.fetches.pending = [] ∧ t.reloads = 0) :
    ∃ snapshot user, t.served.lookup t.fetches.inputs = some snapshot ∧
      PathTree.Same (snapshot.sub [field]) (edited db session.user field (appEvents events)) ∧
      fetchedUser snapshot = some user ∧ user.username = session.user ∧
      t.fetches.shown = some user ∧ t.animating = false ∧
      t.noDataHidden = !user.games.isEmpty := by
  have hcurrent : Current db session field (appEvents events) t := by
    refine run.history (fun done u => Current db session field (appEvents done) u) ?_
      (.created (complete_of_fetched hrecord hname) ids)
    intro done u e v hu htimely hst
    have hstep := hu.step hfield hshown htimely hst
    rwa [appEvents, List.filterMap_append]
  obtain ⟨snapshot, hlookup, hresult, ⟨user, huser, husername⟩, hedits⟩ :=
    hcurrent.result hloaded _ (hcurrent.sound.following.settled hrest.1)
  have huser' : t.fetches.shown = some user := hresult.trans huser
  refine ⟨snapshot, user, hlookup, hedits, huser, husername, huser', ?_,
    hcurrent.sound.reloaded hrest.2 user huser'⟩
  cases hspinning : t.animating with
  | false => rfl
  | true =>
    rcases hcurrent.sound.spinning hspinning with hpending | hreloads
    · exact (hpending hrest.1).elim
    · omega

/-- Alice edits her biography while the first fetch is under way; its answer comes first. -/
def editedMeanwhile : List ProfileEvent :=
  [.viewDidLoad, .serve 0 (record "alice1"),
    .app (.start ⟨"alice1", 1⟩ (.updateBio "hello") "-1"),
    .serve 1 ((record "alice1").put ["biography"] (Tree.str "hello")),
    .completion 0, .app (.deliver 0), .completion 0, .reload, .reload]

def alicesRecord : Tree := (PathTree.empty : Tree).put (userRef "alice1") (record "alice1")

theorem profile_shows_edits_editedMeanwhile :
    ∃ t user, exec (step [] ⟨"alice1", 1⟩)
        (fun s e => decide (s.Timely ⟨"alice1", 1⟩ "biography" e)) (created alicesRecord [])
        editedMeanwhile = some t ∧
      t.fetches.shown = some user ∧ user.bio = "hello" ∧ t.animating = false := by
  have hend : (exec (step [] ⟨"alice1", 1⟩)
      (fun s e => decide (s.Timely ⟨"alice1", 1⟩ "biography" e)) (created alicesRecord [])
      editedMeanwhile).map (fun t => (t.loaded, t.fetches.pending, t.reloads,
        t.fetches.shown.map User.bio)) = some (true, [], 0, some "hello") := by
    decide +kernel
  have hfetched : (fetchedUser (alicesRecord.sub (userRef "alice1"))).map User.username =
      some "alice1" := by
    decide +kernel
  obtain ⟨stored, hrecord, hname⟩ := Option.map_eq_some_iff.mp hfetched
  obtain ⟨t, ht, hout⟩ := Option.map_eq_some_iff.mp hend
  simp only [Prod.mk.injEq] at hout
  obtain ⟨hloaded, hpending, hreloads, hbio⟩ := hout
  have run := run_of_exec (fun s e h => of_decide_eq_true h) ht
  obtain ⟨snapshot, user, -, -, -, -, huser, hstopped, -⟩ :=
    profile_shows_edits (by simp [profileFields]) (by simp) hrecord hname run hloaded
      ⟨hpending, hreloads⟩
  rw [huser, Option.map_some, Option.some.injEq] at hbio
  exact ⟨t, user, ht, huser, hbio, hstopped⟩

end ProfileScreen

end TeamUp
