import TeamUp.SingleWriter
import TeamUp.Writes

/-!
# Edits of a profile, as they are seen

A field of a profile is written by the sessions of its user only.  While a user edits it on
one device, that device sees each edit at once and for good, before it has arrived; every
other session, of whatever user, sees the field as some edit left it, and never goes back to
an earlier one.
-/

namespace TeamUp

open Protocol

/-! ### What is stored at a path -/

/-- What is stored at a path and below. -/
def content (p : Ref) : Register Tree Write (Ref → Option Leaf) where
  read := fun t q => t.leafAt (p ++ q)
  target := fun w => w.puts.foldl (fun found e =>
    if e.1 = p then some fun q => e.2.leafAt q else found) none

/-- The write replaces exactly the path, or lies beside it. -/
def Write.Replaces (p : Ref) (w : Write) : Prop := (∃ value, w.puts = [(p, value)]) ∨ w.Beside p

variable {p : Ref} {w : Write}

theorem content_target_beside (h : w.Beside p) : (content p).target w = none := by
  have hne : ∀ e ∈ w.puts, e.1 ≠ p := fun e he heq => (h e he).1 (heq ▸ List.prefix_refl _)
  simp only [content]
  generalize w.puts = puts at hne
  induction puts with
  | nil => rfl
  | cons e rest ih =>
    rw [List.foldl_cons, if_neg (hne e (by simp))]
    exact ih fun e' he' => hne e' (by simp [he'])

theorem content_target_put {value : Tree} (h : w.puts = [(p, value)]) :
    (content p).target w = some fun q => value.leafAt q := by
  simp [content, h]

theorem content_follows {Client Op Request Callback Response Id : Type}
    {P : Protocol Client Op Tree Write Request Callback Response Id}
    (hP : P.apply = Write.apply) (p : Ref) : (content p).Follows P (Write.Replaces p) := by
  intro w hw st
  rw [hP]
  rcases hw with ⟨value, hput⟩ | hbeside
  · rw [Register.update_of_some _ (content_target_put hput), Write.apply_eq_puts, hput]
    funext q
    exact PathTree.leafAt_put_below _ _ _ _
  · rw [Register.update_of_none _ (content_target_beside hbeside)]
    funext q
    exact hbeside.leafAt st q

/-! ### Edits -/

/-- The field that an operation of a user's own profile replaces, and its new content. -/
def Op.edit : Op → Option (String × Tree)
  | .updateBio bio => some ("biography", Tree.str bio)
  | .updateUserGames games => some ("games", Tree.ofDictionary (gamesDictionary games))
  | .editRegion region => some ("region", Tree.str region.rawValue)
  | .editMicStatus status => some ("mic", Tree.str status.rawValue)
  | .setProfilePicture imageUrl => some ("profilePicUrl", Tree.str imageUrl)
  | .fetchFCMToken token => some ("fcmToken", Tree.str token)
  | .removeFCMToken => some ("fcmToken", Tree.str " ")
  | _ => none

/-- What an event makes of a field of a user's profile. -/
def editOf (u field : String) : Event → Option Tree
  | .start client op _ =>
      if client.user = u then
        op.edit.bind fun edit => if edit.1 = field then some edit.2 else none
      else none
  | _ => none

/-- The edits of a field of a user's profile, in the order they are started in. -/
def edits (u field : String) (events : List Event) : List Tree := events.filterMap (editOf u field)

/-- The field after the first `n` edits. -/
def fieldAfter (db : Tree) (u field : String) (events : List Event) (n : Nat) : Tree :=
  (((edits u field events).take n).getLast?).getD (db.sub (userRef u ++ [field]))

/-- The field is edited on one device of its user. -/
def EditedBy (editor : Session) (field : String) : Event → Prop
  | .start client op id =>
      (editOf editor.user field (.start client op id)).isSome = true → client = editor
  | _ => True

instance (editor : Session) (field : String) (e : Event) : Decidable (EditedBy editor field e) := by
  rcases e with _ | _ <;> dsimp only [EditedBy] <;> infer_instance

variable {client editor : Session} {catalogue : List Game} {op : Op} {id u field : String}

/-- A write to a field of a profile touches this field only. -/
theorem content_target_storeField (x f : String) (value : Tree) :
    (content (userRef u ++ [field])).target (storeField x f value) =
      if x = u ∧ f = field then some fun q => value.leafAt q else none := by
  by_cases hsame : x = u ∧ f = field
  · obtain ⟨rfl, rfl⟩ := hsame
    rw [if_pos ⟨rfl, rfl⟩]
    exact content_target_put rfl
  · rw [if_neg hsame]
    simpa [content, storeField, Write.puts] using hsame

theorem storeField_replaces (x f : String) (value : Tree) :
    (storeField x f value).Replaces (userRef u ++ [field]) := by
  by_cases hsame : x = u ∧ f = field
  · obtain ⟨rfl, rfl⟩ := hsame
    exact Or.inl ⟨value, rfl⟩
  · refine Or.inr fun e he => ?_
    rw [List.mem_singleton.mp he]
    simp only [Incomparable, List.cons_append, List.nil_append, List.cons_prefix_cons, true_and,
      List.prefix_nil, and_true]
    exact ⟨hsame, fun h => hsame ⟨h.1.symm, h.2.symm⟩⟩

/-- A write of the app is one to a field of a profile, or lies beside all of them. -/
theorem AppWrite.field_cases (h : AppWrite client w) (hfield : field ∈ profileFields) (u : String) :
    (∃ x f value, w = TeamUp.storeField x f value) ∨ w.Beside (userRef u ++ [field]) := by
  simp only [profileFields, List.mem_cons, List.not_mem_nil, or_false] at hfield
  cases h with
  | @storeField f x value hf => exact Or.inl ⟨x, f, value, rfl⟩
  | callback hw =>
    refine Or.inr (Write.beside_of_ref ?_)
    cases hw <;> rcases hfield with rfl | rfl | rfl | rfl | rfl | rfl <;>
      simp [Incomparable, Write.ref, TeamUp.addRequest]
  | _ =>
    refine Or.inr (Write.beside_of_ref ?_)
    rcases hfield with rfl | rfl | rfl | rfl | rfl | rfl <;>
      simp [Incomparable, Write.ref, TeamUp.addTeammate, TeamUp.dropTeammate, TeamUp.dropRequest,
        TeamUp.storeMessage, TeamUp.storeRead, TeamUp.dropChat, TeamUp.dropPlaying]

theorem AppWrite.replaces (h : AppWrite client w) (hfield : field ∈ profileFields) (u : String) :
    w.Replaces (userRef u ++ [field]) := by
  rcases h.field_cases hfield u with ⟨x, f, value, rfl⟩ | hbeside
  · exact storeField_replaces x f value
  · exact Or.inr hbeside

theorem opWrites_of_edit {f : String} {value : Tree} (h : op.edit = some (f, value)) :
    opWrites client op id = [storeField client.user f value] := by
  cases op <;> simp only [Op.edit, Option.some.injEq, Prod.mk.injEq, reduceCtorEq] at h <;>
    obtain ⟨rfl, rfl⟩ := h <;> rfl

theorem not_storeField_of_edit (h : op.edit = none) (hw : w ∈ opWrites client op id) (x f : String)
    (value : Tree) : w ≠ storeField x f value := by
  rintro rfl
  cases op with
  | markDirectChatMessagesAsRead chat =>
    simp only [opWrites] at hw
    split at hw <;> simp [storeField, storeRead] at hw
  | _ =>
    simp [opWrites, Op.edit, storeField, addTeammate, dropTeammate, dropRequest, dropChat,
      storeMessage, dropPlaying] at hw h

/-- **What an operation gives a field** is its edit. -/
theorem targets_begin (hfield : field ∈ profileFields) :
    (opWrites client op id).filterMap (content (userRef u ++ [field])).target =
      (editOf u field (.start client op id)).toList.map fun value q => value.leafAt q := by
  cases hedit : op.edit with
  | some edit =>
    obtain ⟨f, value⟩ := edit
    rw [opWrites_of_edit hedit, List.filterMap_cons, content_target_storeField]
    simp only [editOf, hedit, Option.bind_some]
    by_cases hu : client.user = u <;> by_cases hf : f = field <;> simp [hu, hf]
  | none =>
    have hnone : editOf u field (.start client op id) = none := by simp [editOf, hedit]
    rw [hnone, Option.toList_none, List.map_nil]
    refine List.filterMap_eq_nil_iff.mpr fun w hw => ?_
    rcases (appWrite_of_mem hw).field_cases hfield u with ⟨x, f, value, rfl⟩ | hbeside
    · exact (not_storeField_of_edit hedit hw x f value rfl).elim
    · exact content_target_beside hbeside

theorem targets_resume (hfield : field ∈ profileFields) {callback : Callback} {snapshot : Tree} :
    ∀ w ∈ (resume catalogue callback snapshot id).filterMap Command.write?,
      (content (userRef u ++ [field])).target w = none := by
  intro w hw
  have hcallback := callbackWrite_of_mem (mem_writes.mp hw)
  have happ : AppWrite ⟨u, 0⟩ w := .callback hcallback
  rcases happ.field_cases hfield u with ⟨x, f, value, hstore⟩ | hbeside
  · cases hcallback <;> simp [storeField, TeamUp.addRequest] at hstore
  · exact content_target_beside hbeside

theorem given_eq {s : State} {e : Event} (hfield : field ∈ profileFields) :
    (content (userRef u ++ [field])).given (app catalogue) s e =
      (editOf u field e).toList.map fun value q => value.leafAt q := by
  cases e with
  | start client op id =>
    have hwrites : (begin client op id).filterMap Command.write? = opWrites client op id :=
      writes_begin client op id
    simp only [Register.given, issues, app_begin, hwrites, Option.map_some, Option.getD_some]
    exact targets_begin hfield
  | resume index id =>
    simp only [Register.given, issues]
    cases s.answers[index]? with
    | none => rfl
    | some a => exact List.filterMap_eq_nil_iff.mpr (targets_resume hfield)
  | _ => rfl

/-- Only the editing session writes the field. -/
theorem EditedBy.onlyWriter {s : State} {e : Event} (h : EditedBy editor field e)
    (hfield : field ∈ profileFields) :
    (content (userRef editor.user ++ [field])).OnlyWriter (app catalogue) editor s e := by
  intro client ws hissues hne
  cases e with
  | start client' op id =>
    obtain ⟨rfl, rfl⟩ := Prod.mk.inj (Option.some.inj hissues)
    have hnone : editOf editor.user field (.start client' op id) = none := by
      refine Option.not_isSome_iff_eq_none.mp fun hsome => hne (h hsome)
    have htargets : (opWrites client' op id).filterMap
        (content (userRef editor.user ++ [field])).target = _ := targets_begin hfield
    rw [hnone, Option.toList_none, List.map_nil, List.filterMap_eq_nil_iff, ← writes_begin]
      at htargets
    exact htargets
  | resume index id =>
    simp only [issues] at hissues
    obtain ⟨a, -, ha⟩ := Option.map_eq_some_iff.mp hissues
    obtain ⟨rfl, rfl⟩ := Prod.mk.inj ha
    exact targets_resume hfield
  | _ => cases hissues

/-! ### Runs -/

variable {db : Tree} {ids : List String} {events : List Event} {t : State}

theorem valueAt_edits (n : Nat) :
    Register.valueAt ((content (userRef u ++ [field])).read db)
        ((edits u field events).map fun value q => value.leafAt q) n =
      fun q => (fieldAfter db u field events n).leafAt q := by
  have hread : (content (userRef u ++ [field])).read db =
      fun q => (db.sub (userRef u ++ [field])).leafAt q := by
    funext q
    rw [PathTree.leafAt_sub]
    rfl
  rw [Register.valueAt, hread, ← List.map_take, List.getLast?_map, Option.getD_map]
  rfl

/-- What is seen of a field along a run in which one session edits it. -/
def Edited (editor : Session) (field : String) (db : Tree) (done : List Event) (s : State) : Prop :=
  ∃ n log, (content (userRef editor.user ++ [field])).Watched editor
    ((content (userRef editor.user ++ [field])).read db)
    ((edits editor.user field done).map fun value q => value.leafAt q) n log s

theorem Edited.of_initial (db : Tree) (ids : List String) :
    Edited editor field db [] (State.initial db ids) :=
  ⟨0, [], Register.Watched.of_rest (s := State.initial db ids) rfl rfl editor⟩

theorem Edited.step {s : State} {e : Event} {done : List Event} (h : Edited editor field db done s)
    (hissued : Issued AppWrite (fun _ _ _ => True) s) (hfield : field ∈ profileFields)
    (horder : InOrder s e) (hedited : EditedBy editor field e)
    (hst : (app catalogue).step s e = some t) : Edited editor field db (done ++ [e]) t := by
  obtain ⟨n, log, hwatched⟩ := h
  obtain ⟨n', log', hnext⟩ := hwatched.step (content_follows rfl _)
    (fun e he => (hissued.writes e he).replaces hfield _) (fun _ _ _ _ => rfl)
    (hedited.onlyWriter hfield) horder hst
  refine ⟨n', log', ?_⟩
  rw [given_eq hfield] at hnext
  have hdone : edits editor.user field (done ++ [e]) =
      edits editor.user field done ++ (editOf editor.user field e).toList := by
    rw [edits, List.filterMap_append]
    cases h : editOf editor.user field e <;> simp [edits, h]
  rw [hdone, List.map_append]
  exact hnext

theorem edited_of_run (hfield : field ∈ profileFields)
    (run : (app catalogue).Run (fun s e => InOrder s e ∧ EditedBy editor field e)
      (State.initial db ids) events t) :
    Issued AppWrite (fun _ _ _ => True) t ∧ Edited editor field db events t := by
  refine run.history
    (fun done u => Issued AppWrite (fun _ _ _ => True) u ∧ Edited editor field db done u) ?_
    ⟨.of_quiescent ⟨rfl, rfl, rfl⟩, .of_initial db ids⟩
  rintro done u e v ⟨hissued, hedited⟩ ⟨horder, hby⟩ hst
  exact ⟨appWrite_step hissued hst, hedited.step hissued hfield horder hby hst⟩

/-- What is read of the field where it holds one of the values that the edits give it. -/
theorem same_of_valueAt {st : Tree} {m : Nat}
    (hread : (content (userRef u ++ [field])).read st =
      Register.valueAt ((content (userRef u ++ [field])).read db)
        ((edits u field events).map fun value q => value.leafAt q) m) :
    PathTree.Same (st.sub (userRef u ++ [field])) (fieldAfter db u field events m) := by
  rw [valueAt_edits] at hread
  refine PathTree.same_of_leafAt fun q => ?_
  rw [PathTree.leafAt_sub]
  exact congrFun hread q

/-- The field with all edits. -/
def edited (db : Tree) (u field : String) (events : List Event) : Tree :=
  fieldAfter db u field events (edits u field events).length

/-- **The session that edits the field sees the last edit.** -/
theorem Edited.view (h : Edited editor field db events t)
    (hissued : Issued AppWrite (fun _ _ _ => True) t) (hfield : field ∈ profileFields) :
    PathTree.Same (((app catalogue).view t editor).sub (userRef editor.user ++ [field]))
      (edited db editor.user field events) := by
  obtain ⟨n, log, hwatched⟩ := h
  have hown := hwatched.written.view_own (content_follows (P := app catalogue) rfl _)
    fun e he => (hissued.writes e he).replaces hfield _
  rw [List.length_map] at hown
  exact same_of_valueAt hown

/-- **A session sees its own edits at once, and no session sees them out of order.**  The session
    that edits a field of its profile sees the last edit; whatever any session was shown is
    the field after some of the edits, and never after fewer than it was shown before. -/
theorem edits_seen (hfield : field ∈ profileFields)
    (run : (app catalogue).Run (fun s e => InOrder s e ∧ EditedBy editor field e)
      (State.initial db ids) events t) :
    PathTree.Same (((app catalogue).view t editor).sub (userRef editor.user ++ [field]))
        (edited db editor.user field events) ∧
      ∃ log : List (Nat × Session × Tree), log.map Prod.snd = t.seen ∧
        (∀ l ∈ log, PathTree.Same (l.2.2.sub (userRef editor.user ++ [field]))
          (fieldAfter db editor.user field events l.1)) ∧
        log.Pairwise fun l l' => l.2.1 = l'.2.1 → l.1 ≤ l'.1 := by
  obtain ⟨hissued, hedited⟩ := edited_of_run hfield run
  refine ⟨hedited.view hissued hfield, ?_⟩
  obtain ⟨n, log, hwatched⟩ := hedited
  exact ⟨log, hwatched.views, fun l hl => same_of_valueAt (hwatched.reads l hl), hwatched.ordered⟩

/-- Alice edits her biography twice on one device, while her other device looks. -/
def editedTwice : List Event :=
  [.start ⟨"alice1", 1⟩ (.updateBio "one") "-1", .observe ⟨"alice1", 1⟩, .observe ⟨"alice1", 2⟩,
    .deliver 0, .observe ⟨"alice1", 2⟩, .start ⟨"alice1", 1⟩ (.updateBio "two") "-2",
    .observe ⟨"alice1", 2⟩, .deliver 0, .observe ⟨"alice1", 2⟩]

theorem edits_seen_editedTwice :
    ∃ t, (app []).exec
        (fun s e => decide (InOrder s e ∧ EditedBy ⟨"alice1", 1⟩ "biography" e))
        (State.initial .empty []) editedTwice = some t ∧
      PathTree.Same (((app []).view t ⟨"alice1", 1⟩).sub (userRef "alice1" ++ ["biography"]))
        (edited .empty "alice1" "biography" editedTwice) := by
  have hend : ((app []).exec
      (fun s e => decide (InOrder s e ∧ EditedBy ⟨"alice1", 1⟩ "biography" e))
      (State.initial .empty []) editedTwice).isSome = true := by
    decide +kernel
  obtain ⟨t, ht⟩ := Option.isSome_iff_exists.mp hend
  have run := run_of_exec (fun s e h => of_decide_eq_true h) ht
  exact ⟨t, ht, (edits_seen (by simp [profileFields]) run).1⟩

end TeamUp
