import TeamUp.AsIssued
import TeamUp.Authenticity
import TeamUp.Requests
import Mathlib.Data.Sym.Sym2

/-!
# The community

What the app is for, without its database: who are teammates, who has asked whom, and which
messages everyone keeps of whom.  A deed changes all that it changes at once, and a
friendship is one thing of two users.

The database keeps a friendship twice and every conversation twice, writes one side after the
other, and adds a request after a read.  Where the outstanding writes of two sessions never
disagree, it keeps the community all the same: every operation is one deed, and the read of
a request that finds none is the deed of the request.
-/

namespace TeamUp

open Protocol

/-! ### The abstract community -/

structure Community (Name Id : Type) where
  teammates : Set (Sym2 Name)
  /-- `(a, b)` if `a` has a request of `b`. -/
  requests : Set (Name × Name)
  /-- `(a, b, k)` if `a` keeps the message `k` of the conversation with `b`. -/
  messages : Set (Name × Name × Id)

/-- What users do to each other, the user who does it first. -/
inductive Deed (Name Id : Type) where
  | request (user asked : Name)
  | accept (user asking : Name)
  | decline (user asking : Name)
  | remove (user teammate : Name)
  | send (user partner : Name) (id : Id)
  | delete (user partner : Name)
  /-- The messages marked as read are kept again, whatever has become of them. -/
  | markAsRead (user partner : Name) (ids : Set Id)

/-- One thing that may be so in a community. -/
inductive Fact (Name Id : Type) where
  | teammate (a b : Name)
  | request (a b : Name)
  | message (a b : Name) (k : Id)

namespace Community

variable {Name Id : Type}

/-- The messages of one copy of a conversation. -/
def copy (a b : Name) : Set (Name × Name × Id) := {m | m.1 = a ∧ m.2.1 = b}

def apply (c : Community Name Id) : Deed Name Id → Community Name Id
  | .request user asked => { c with requests := insert (asked, user) c.requests }
  | .accept user asking =>
      { c with
        teammates := insert s(user, asking) c.teammates
        requests := c.requests \ {(user, asking), (asking, user)} }
  | .decline user asking => { c with requests := c.requests \ {(user, asking)} }
  | .remove user teammate =>
      { c with
        teammates := c.teammates \ {s(user, teammate)}
        messages := c.messages \ (copy user teammate ∪ copy teammate user) }
  | .send user partner id =>
      { c with messages := c.messages ∪ {(user, partner, id), (partner, user, id)} }
  | .delete user partner => { c with messages := c.messages \ copy user partner }
  | .markAsRead user partner ids =>
      { c with messages := c.messages ∪ {m | m ∈ copy user partner ∧ m.2.2 ∈ ids} }

def Holds (c : Community Name Id) : Fact Name Id → Prop
  | .teammate a b => s(a, b) ∈ c.teammates
  | .request a b => (a, b) ∈ c.requests
  | .message a b k => (a, b, k) ∈ c.messages

end Community

namespace Deed

variable {Name Id : Type} {f : Fact Name Id} {d : Deed Name Id} {c : Community Name Id}

/-- Whatever the community, the fact holds after the deed. -/
def Makes (d : Deed Name Id) (f : Fact Name Id) : Prop :=
  ∀ c : Community Name Id, (c.apply d).Holds f

/-- Whatever the community, the fact does not hold after the deed. -/
def Unmakes (d : Deed Name Id) (f : Fact Name Id) : Prop :=
  ∀ c : Community Name Id, ¬ (c.apply d).Holds f

/-- A deed adds the fact in some cases, or takes it away in some. -/
theorem holds_apply (d : Deed Name Id) (f : Fact Name Id) :
    (∃ p : Prop, ∀ c : Community Name Id, (c.apply d).Holds f ↔ p ∨ c.Holds f) ∨
      ∃ p : Prop, ∀ c : Community Name Id, (c.apply d).Holds f ↔ c.Holds f ∧ ¬ p := by
  have hkept : (∀ c : Community Name Id, (c.apply d).Holds f ↔ c.Holds f) →
      (∃ p : Prop, ∀ c : Community Name Id, (c.apply d).Holds f ↔ p ∨ c.Holds f) ∨
        ∃ p : Prop, ∀ c : Community Name Id, (c.apply d).Holds f ↔ c.Holds f ∧ ¬ p :=
    fun h => Or.inl ⟨False, fun c => by rw [h c, or_iff_right not_false]⟩
  cases d with
  | request user asked =>
    cases f with
    | request a b => exact Or.inl ⟨_, fun c => Set.mem_insert_iff⟩
    | _ => exact hkept fun c => Iff.rfl
  | accept user asking =>
    cases f with
    | teammate a b => exact Or.inl ⟨_, fun c => Set.mem_insert_iff⟩
    | request a b => exact Or.inr ⟨_, fun c => Set.mem_sdiff _⟩
    | message a b k => exact hkept fun c => Iff.rfl
  | decline user asking =>
    cases f with
    | request a b => exact Or.inr ⟨_, fun c => Set.mem_sdiff _⟩
    | _ => exact hkept fun c => Iff.rfl
  | remove user teammate =>
    cases f with
    | teammate a b => exact Or.inr ⟨_, fun c => Set.mem_sdiff _⟩
    | request a b => exact hkept fun c => Iff.rfl
    | message a b k => exact Or.inr ⟨_, fun c => Set.mem_sdiff _⟩
  | delete user partner =>
    cases f with
    | message a b k => exact Or.inr ⟨_, fun c => Set.mem_sdiff _⟩
    | _ => exact hkept fun c => Iff.rfl
  | send | markAsRead =>
    cases f with
    | message a b k => exact Or.inl ⟨_, fun c => or_comm⟩
    | _ => exact hkept fun c => Iff.rfl

/-- A deed makes a fact, unmakes it, or leaves it alone. -/
theorem makes_or_unmakes (d : Deed Name Id) (f : Fact Name Id) :
    d.Makes f ∨ d.Unmakes f ∨ ∀ c : Community Name Id, (c.apply d).Holds f ↔ c.Holds f := by
  rcases d.holds_apply f with ⟨p, hp⟩ | ⟨p, hp⟩
  · by_cases h : p
    · exact Or.inl fun c => (hp c).mpr (Or.inl h)
    · exact Or.inr (Or.inr fun c => by rw [hp c, or_iff_right h])
  · by_cases h : p
    · exact Or.inr (Or.inl fun c hc => ((hp c).mp hc).2 h)
    · exact Or.inr (Or.inr fun c => by rw [hp c, and_iff_left h])

theorem Makes.not_unmakes (h : d.Makes f) : ¬ d.Unmakes f :=
  fun hnot => hnot ⟨∅, ∅, ∅⟩ (h _)

/-- What is left alone in a community without facts and in one with all is neither made nor
    unmade. -/
theorem not_makes_of_kept (h : ∀ c : Community Name Id, (c.apply d).Holds f ↔ c.Holds f) :
    ¬ d.Makes f ∧ ¬ d.Unmakes f := by
  refine ⟨fun hmakes => ?_, fun hunmakes => hunmakes ⟨.univ, .univ, .univ⟩ ((h _).mpr ?_)⟩
  · have hnone := (h ⟨∅, ∅, ∅⟩).mp (hmakes _)
    cases f <;> cases hnone
  · cases f <;> exact Set.mem_univ _

end Deed

namespace Community

variable {Name Id : Type} {f : Fact Name Id}

/-- What makes a fact hold after the deeds: one of them made it and no later one has unmade it,
    or it held before and none has. -/
def Decided (c : Community Name Id) (ds : List (Deed Name Id)) (f : Fact Name Id) : Prop :=
  (c.Holds f ∧ ∀ d ∈ ds, ¬ d.Unmakes f) ∨
    ∃ before d after, ds = before ++ d :: after ∧ d.Makes f ∧ ∀ d' ∈ after, ¬ d'.Unmakes f

theorem decided_snoc (c : Community Name Id) (ds : List (Deed Name Id)) (d : Deed Name Id)
    (f : Fact Name Id) : c.Decided (ds ++ [d]) f ↔ d.Makes f ∨ c.Decided ds f ∧ ¬ d.Unmakes f := by
  constructor
  · rintro (⟨hc, hall⟩ | ⟨before, d', after, hds, hmakes, hall⟩)
    · exact Or.inr ⟨Or.inl ⟨hc, fun d' hd' => hall d' (by simp [hd'])⟩, hall d (by simp)⟩
    · rcases List.eq_nil_or_concat after with rfl | ⟨rest, last, rfl⟩
      · obtain ⟨-, hlast⟩ := List.append_inj' hds rfl
        exact Or.inl (List.singleton_inj.mp hlast ▸ hmakes)
      · rw [List.concat_eq_append, ← List.cons_append, ← List.append_assoc] at hds
        obtain ⟨rfl, hlast⟩ := List.append_inj' hds rfl
        obtain rfl := List.singleton_inj.mp hlast
        exact Or.inr ⟨Or.inr ⟨before, d', rest, rfl, hmakes, fun e he => hall e (by simp [he])⟩,
          hall d (by simp)⟩
  · rintro (hmakes | ⟨⟨hc, hall⟩ | ⟨before, d', after, rfl, hmakes, hall⟩, hnot⟩)
    · exact Or.inr ⟨ds, d, [], rfl, hmakes, by simp⟩
    · exact Or.inl ⟨hc, List.forall_mem_append.mpr ⟨hall, List.forall_mem_singleton.mpr hnot⟩⟩
    · exact Or.inr ⟨before, d', after ++ [d], by simp, hmakes,
        List.forall_mem_append.mpr ⟨hall, List.forall_mem_singleton.mpr hnot⟩⟩

/-- **The last deed about a fact decides it.** -/
theorem holds_foldl (c : Community Name Id) (ds : List (Deed Name Id)) (f : Fact Name Id) :
    (ds.foldl apply c).Holds f ↔ c.Decided ds f := by
  induction ds using List.reverseRecOn with
  | nil => simp [Decided]
  | append_singleton ds d ih =>
    rw [List.foldl_append, List.foldl_cons, List.foldl_nil, decided_snoc, ← ih]
    rcases d.makes_or_unmakes f with hmakes | hunmakes | hkept
    · exact iff_of_true (hmakes _) (Or.inl hmakes)
    · have hnot : ¬ d.Makes f := fun hmakes => hmakes.not_unmakes hunmakes
      exact iff_of_false (hunmakes _) (by tauto)
    · obtain ⟨hmakes, hunmakes⟩ := Deed.not_makes_of_kept hkept
      rw [hkept, or_iff_right hmakes, and_iff_left hunmakes]

end Community

/-! ### The community in the database -/

/-- Where the database keeps a fact. -/
def Fact.path : Fact String String → Ref
  | .teammate a b => teammatesRef a ++ [b]
  | .request a b => teammateRequestsRef a ++ [b]
  | .message a b k => directChatRef a b ++ [k]

/-- Whether the database holds a fact. -/
def Fact.stored (f : Fact String String) : Register Tree Write Bool := presence f.path

/-- The database holds the community. -/
def Holding (db : Tree) (c : Community String String) : Prop :=
  ∀ f, c.Holds f ↔ db.has f.path = true

/-- What an operation does at once. -/
def Op.deed (client : Session) (id : String) : Op → Option (Deed String String)
  | .acceptTeammateRequest r => some (.accept client.user r.username)
  | .declineTeammateRequest r => some (.decline client.user r.username)
  | .removeTeammate t => some (.remove client.user t.username)
  | .sendDirectMessage _ partner _ => some (.send client.user partner.username id)
  | .deleteDirectChat chat => some (.delete client.user chat.chatPartner.username)
  | .markDirectChatMessagesAsRead chat =>
      some (.markAsRead client.user chat.chatPartner.username
        {k | k ∈ (chat.unreadMessages (some client.user)).map Message.id})
  | _ => none

/-- What a callback does: the read of a request is followed by the request, if it found none. -/
def Callback.deed (snapshot : Tree) : Callback → Option (Deed String String)
  | .requestPlayerToTeamUp currentUserName username =>
      if Unlisted currentUserName snapshot then some (.request currentUserName username) else none
  | _ => none

/-- The deed of an event. -/
def deed (s : State) : Event → List (Deed String String)
  | .start client op id => (op.deed client id).toList
  | .resume index _ => (s.answers[index]?.bind fun a => a.callback.deed a.response).toList
  | _ => []

/-- The deeds of a run. -/
def deeds (catalogue : List Game) (s : State) (events : List Event) : List (Deed String String) :=
  (chronicle (app catalogue).step deed s events).1

/-- The community that is stored once everything outstanding has been delivered. -/
def Settled (s : State) (c : Community String String) : Prop :=
  ∀ f : Fact String String, c.Holds f ↔ f.stored.settled s = true

variable {client : Session} {w : Write} {catalogue : List Game} {op : Op} {id : String}
variable {a b k : String}

theorem AppWrite.fact_keepsBelow (h : AppWrite client w) (f : Fact String String) :
    w.KeepsBelow f.path := by
  cases f with
  | teammate a b => exact h.teammate_keepsBelow a b
  | request a b => exact h.request_keepsBelow a b
  | message a b k => exact h.message_keepsBelow a b k

theorem facts_observed :
    (app catalogue).Observed Fact.stored fun f => Write.KeepsBelow f.path where
  follows := fun f => presence_follows rfl f.path
  effect := fun _ _ _ _ _ => rfl

/-! ### Operations -/

/-- A request once an operation and all its writes have run. -/
def requestAfter (a b : String) (client : Session) (v : Bool) : Op → Bool
  | .acceptTeammateRequest r => if SamePair client.user r.username a b then false else v
  | .declineTeammateRequest r => if client.user = a ∧ r.username = b then false else v
  | _ => v

theorem op_of_dropRequest {x y : String} (hw : dropRequest x y ∈ opWrites client op id) :
    (∃ r, op = .acceptTeammateRequest r ∧ SamePair client.user r.username x y) ∨
      ∃ r, op = .declineTeammateRequest r ∧ client.user = x ∧ r.username = y := by
  cases op with
  | acceptTeammateRequest r =>
    refine Or.inl ⟨r, rfl, ?_⟩
    simp only [opWrites, addTeammate, dropRequest, List.mem_cons, reduceCtorEq,
      Write.removeValue.injEq, List.cons_append, List.nil_append, List.cons.injEq, and_true,
      true_and, List.not_mem_nil, or_false, false_or] at hw
    exact hw.imp (fun h => ⟨h.1.symm, h.2.symm⟩) fun h => ⟨h.1.symm, h.2.symm⟩
  | declineTeammateRequest r =>
    have h : x = client.user ∧ y = r.username := by simpa [opWrites, dropRequest] using hw
    exact Or.inr ⟨r, rfl, h.1.symm, h.2.symm⟩
  | markDirectChatMessagesAsRead chat =>
    simp only [opWrites] at hw
    split at hw <;> simp [dropRequest, storeRead] at hw
  | _ =>
    simp [opWrites, dropRequest, dropTeammate, dropChat, storeMessage, storeField, dropPlaying]
      at hw

theorem request_target_of_mem {x : Bool} (hw : w ∈ opWrites client op id)
    (hx : x ∈ (request a b).target w) (v : Bool) : x = requestAfter a b client v op := by
  rcases (appWrite_of_mem hw).request_cases with ⟨u, u', rfl⟩ | ⟨u, u', rfl⟩ | hbeside
  · exact (addRequest_not_mem hw).elim
  · rw [request_target_drop] at hx
    split at hx
    · rename_i huv
      obtain ⟨rfl, rfl⟩ := huv
      rcases op_of_dropRequest hw with ⟨r, rfl, hpair⟩ | ⟨r, rfl, hnames⟩
      · rw [requestAfter, if_pos hpair]
        exact (Option.some.inj hx).symm
      · rw [requestAfter, if_pos hnames]
        exact (Option.some.inj hx).symm
    · cases hx
  · rw [request, presence_target_beside (hbeside a b)] at hx
    cases hx

/-- **What starting an operation makes of a request.** -/
theorem request_updateAll (op : Op) (id a b : String) (v : Bool) :
    (request a b).updateAll v (opWrites client op id) = requestAfter a b client v op := by
  refine Register.updateAll_eq _ (fun w hw x hx => request_target_of_mem hw hx v) ?_
  intro hnone
  cases op with
  | acceptTeammateRequest r =>
    refine if_neg fun hpair => ?_
    rcases hpair with ⟨rfl, rfl⟩ | ⟨rfl, rfl⟩
    · have htouched := hnone (dropRequest client.user r.username) (by simp [opWrites])
      simp [request_target_drop] at htouched
    · have htouched := hnone (dropRequest r.username client.user) (by simp [opWrites])
      simp [request_target_drop] at htouched
  | declineTeammateRequest r =>
    refine if_neg fun hnames => ?_
    obtain ⟨rfl, rfl⟩ := hnames
    have htouched := hnone (dropRequest client.user r.username) (by simp [opWrites])
    simp [request_target_drop] at htouched
  | _ => rfl

/-- A message of one copy once an operation and all its writes have run. -/
def messageAfter (a b k : String) (client : Session) (id : String) (v : Bool) : Op → Bool
  | .sendDirectMessage _ partner _ =>
      if SamePair client.user partner.username a b ∧ id = k then true else v
  | .markDirectChatMessagesAsRead chat =>
      if (client.user = a ∧ chat.chatPartner.username = b) ∧
        k ∈ (chat.unreadMessages (some client.user)).map Message.id then true else v
  | .deleteDirectChat chat =>
      if client.user = a ∧ chat.chatPartner.username = b then false else v
  | .removeTeammate t => if SamePair client.user t.username a b then false else v
  | _ => v

theorem mem_keys_readMessages {unread : List Message} :
    k ∈ (readMessages unread).map Prod.fst ↔ k ∈ unread.map Message.id := by
  constructor
  · intro hk
    obtain ⟨e, he, rfl⟩ := List.mem_map.mp hk
    obtain ⟨m, hm, rfl⟩ := Dictionary.mem_of_mem_collect he
    exact List.mem_map.mpr ⟨m, hm, rfl⟩
  · intro hk
    obtain ⟨m, hm, rfl⟩ := List.mem_map.mp hk
    exact Dictionary.key_mem_collect hm

theorem message_target_of_mem {x : Bool} (hw : w ∈ opWrites client op id)
    (hx : x ∈ (message a b k).target w) (v : Bool) : x = messageAfter a b k client id v op := by
  rcases (appWrite_of_mem hw).message_target hx with
    ⟨rfl, m, rfl, rfl⟩ | ⟨rfl, unread, ⟨m, hm, rfl⟩, rfl⟩ | ⟨rfl, rfl⟩
  · obtain ⟨text, partner, timestamp, rfl, rfl, hpair⟩ := op_of_storeMessage hw
    rw [messageAfter, if_pos ⟨hpair, rfl⟩]
  · obtain ⟨chat, rfl, ha, hb, hread⟩ := op_of_storeRead hw
    have hmem : m.id ∈ (chat.unreadMessages (some client.user)).map Message.id := by
      rw [← mem_keys_readMessages, ← hread, mem_keys_readMessages]
      exact List.mem_map.mpr ⟨m, hm, rfl⟩
    rw [messageAfter, if_pos ⟨⟨ha, hb⟩, hmem⟩]
  · rcases op_of_dropChat hw with ⟨chat, rfl, hnames⟩ | ⟨t, rfl, hpair⟩
    · rw [messageAfter, if_pos hnames]
    · rw [messageAfter, if_pos hpair]

/-- **What starting an operation makes of a message.** -/
theorem message_updateAll (op : Op) (id a b k : String) (v : Bool) :
    (message a b k).updateAll v (opWrites client op id) = messageAfter a b k client id v op := by
  refine Register.updateAll_eq _ (fun w hw x hx => message_target_of_mem hw hx v) ?_
  intro hnone
  cases op with
  | sendDirectMessage text partner timestamp =>
    refine if_neg fun hsent => ?_
    obtain ⟨⟨rfl, rfl⟩ | ⟨rfl, rfl⟩, rfl⟩ := hsent
    · have htouched := hnone (storeMessage client.user partner.username
        (newMessage client.user text timestamp id)) (by simp [opWrites])
      simp [message_target_message, newMessage] at htouched
    · have htouched := hnone (storeMessage partner.username client.user
        (newMessage client.user text timestamp id)) (by simp [opWrites])
      simp [message_target_message, newMessage] at htouched
  | markDirectChatMessagesAsRead chat =>
    refine if_neg fun hmarked => ?_
    obtain ⟨⟨rfl, rfl⟩, hk⟩ := hmarked
    obtain ⟨m, hm, hid⟩ := List.mem_map.mp hk
    have hsome : (chat.unreadMessages (some client.user)).isEmpty = false :=
      List.isEmpty_eq_false_iff.mpr (List.ne_nil_of_mem hm)
    have htouched := hnone (storeRead client.user chat.chatPartner.username
      (chat.unreadMessages (some client.user))) (by simp [opWrites, hsome])
    rw [message_target_read, if_pos ⟨⟨rfl, rfl⟩, m, hm, hid⟩] at htouched
    cases htouched
  | deleteDirectChat chat =>
    refine if_neg fun hnames => ?_
    obtain ⟨rfl, rfl⟩ := hnames
    have htouched := hnone (dropChat client.user chat.chatPartner.username) (by simp [opWrites])
    simp [message_target_drop] at htouched
  | removeTeammate t =>
    refine if_neg fun hpair => ?_
    rcases hpair with ⟨rfl, rfl⟩ | ⟨rfl, rfl⟩
    · have htouched := hnone (dropChat client.user t.username) (by simp [opWrites])
      simp [message_target_drop] at htouched
    · have htouched := hnone (dropChat t.username client.user) (by simp [opWrites])
      simp [message_target_drop] at htouched
  | _ => rfl

/-! ### Steps -/

variable {f : Fact String String} {c : Community String String} {v : Bool}

theorem samePair_iff {x y : String} : SamePair x y a b ↔ s(a, b) = s(x, y) := by
  rw [Sym2.eq_iff, SamePair, eq_comm (a := x), eq_comm (a := y) (b := b), eq_comm (a := y),
    eq_comm (a := x), and_comm (a := a = y)]

/-- What an operation puts into a relation, or takes out of it. -/
theorem ite_true_iff {p q : Prop} [Decidable p] (h : q ↔ v = true) :
    (if p then true else v) = true ↔ p ∨ q := by
  by_cases hp : p <;> simp [hp, h]

theorem ite_false_iff {p q : Prop} [Decidable p] (h : q ↔ v = true) :
    (if p then false else v) = true ↔ q ∧ ¬ p := by
  by_cases hp : p <;> simp [hp, h]

/-- **An operation is one deed**, whatever it writes. -/
theorem holds_begin (h : c.Holds f ↔ v = true) :
    ((op.deed client id).toList.foldl Community.apply c).Holds f ↔
      f.stored.updateAll v (opWrites client op id) = true := by
  cases f with
  | teammate a b =>
    have hafter : (Fact.teammate a b).stored.updateAll v (opWrites client op id) = _ :=
      teammate_updateAll op id a b v
    rw [hafter]
    cases op with
    | acceptTeammateRequest r =>
      rw [teammateAfter, ite_true_iff h, samePair_iff]
      exact Set.mem_insert_iff
    | removeTeammate t =>
      rw [teammateAfter, ite_false_iff h, samePair_iff]
      exact Iff.rfl
    | _ => exact h
  | request a b =>
    have hafter : (Fact.request a b).stored.updateAll v (opWrites client op id) = _ :=
      request_updateAll op id a b v
    rw [hafter]
    cases op with
    | acceptTeammateRequest r =>
      rw [requestAfter, ite_false_iff h]
      refine and_congr_right fun _ => not_congr ?_
      simp [SamePair, eq_comm]
    | declineTeammateRequest r =>
      rw [requestAfter, ite_false_iff h]
      refine and_congr_right fun _ => not_congr ?_
      simp [eq_comm]
    | _ => exact h
  | message a b k =>
    have hafter : (Fact.message a b k).stored.updateAll v (opWrites client op id) = _ :=
      message_updateAll op id a b k v
    rw [hafter]
    cases op with
    | removeTeammate t =>
      rw [messageAfter, ite_false_iff h]
      refine and_congr_right fun _ => not_congr ?_
      simp [Community.copy, SamePair, eq_comm, and_comm]
    | sendDirectMessage text partner timestamp =>
      rw [messageAfter, ite_true_iff h, or_comm]
      refine or_congr_right ?_
      simp [SamePair, eq_comm, or_and_right, and_assoc]
    | deleteDirectChat chat =>
      rw [messageAfter, ite_false_iff h]
      refine and_congr_right fun _ => not_congr ?_
      simp [Community.copy, eq_comm]
    | markDirectChatMessagesAsRead chat =>
      rw [messageAfter, ite_true_iff h, or_comm]
      refine or_congr_right ?_
      simp [Community.copy, eq_comm]
    | _ => exact h

theorem resume_untouched {callback : Callback} {snapshot : Tree}
    (hw : .write w ∈ resume catalogue callback snapshot id)
    (hf : ∀ a b, f ≠ .request a b) : f.stored.target w = none := by
  have hcallback := callbackWrite_of_mem hw
  cases f with
  | teammate a b => exact presence_target_beside (hcallback.teammate_beside a b)
  | request a b => exact (hf a b rfl).elim
  | message a b k => exact presence_target_beside ((hcallback.conversation_beside a b).below [k])

/-- What a callback makes of a request. -/
theorem request_updateAll_resume (callback : Callback) (snapshot : Tree) (id a b : String)
    (v : Bool) :
    (request a b).updateAll v
        ((resume catalogue callback snapshot id).filterMap Command.write?) =
      if callback = .requestPlayerToTeamUp b a ∧ Unlisted b snapshot then true else v := by
  refine Register.updateAll_eq _ (fun w hw x hx => ?_) fun hnone => ?_
  · rcases (callbackWrite_of_mem (mem_writes.mp hw)).request_cases with ⟨u, u', rfl⟩ | hbeside
    · rw [request_target_add] at hx
      split at hx
      · rename_i huv
        obtain ⟨rfl, rfl⟩ := huv
        rw [if_pos (addRequest_of_callback (mem_writes.mp hw))]
        exact (Option.some.inj hx).symm
      · cases hx
    · rw [request, presence_target_beside (hbeside a b)] at hx
      cases hx
  · refine if_neg ?_
    rintro ⟨rfl, hunlisted⟩
    have hwrite : Command.write (addRequest a b) ∈
        resume catalogue (.requestPlayerToTeamUp b a) snapshot id := by
      simp only [resume, requestPlayerToTeamUpRead]
      rw [if_neg (Bool.eq_false_iff.mp hunlisted)]
      exact List.mem_singleton.mpr rfl
    have htouched := hnone _ (mem_writes.mpr hwrite)
    simp [request_target_add] at htouched

theorem Callback.deed_eq {callback : Callback} {snapshot : Tree} :
    callback.deed snapshot = none ∧ (∀ x y, ¬ (callback = .requestPlayerToTeamUp x y ∧
        Unlisted x snapshot)) ∨
      ∃ x y, callback = .requestPlayerToTeamUp x y ∧ Unlisted x snapshot ∧
        callback.deed snapshot = some (.request x y) := by
  cases callback with
  | requestPlayerToTeamUp currentUserName username =>
    by_cases hunlisted : Unlisted currentUserName snapshot
    · exact Or.inr ⟨_, _, rfl, hunlisted, if_pos hunlisted⟩
    · refine Or.inl ⟨if_neg hunlisted, ?_⟩
      rintro x y ⟨heq, h⟩
      obtain ⟨rfl, rfl⟩ := Callback.requestPlayerToTeamUp.inj heq
      exact hunlisted h
  | _ => exact Or.inl ⟨rfl, by simp⟩

/-- **A callback is the deed of a request**, if it writes one, and none otherwise. -/
theorem holds_resume {callback : Callback} {snapshot : Tree} (h : c.Holds f ↔ v = true) :
    ((callback.deed snapshot).toList.foldl Community.apply c).Holds f ↔
      f.stored.updateAll v
        ((resume catalogue callback snapshot id).filterMap Command.write?) = true := by
  by_cases hf : ∃ a b, f = .request a b
  · obtain ⟨a, b, rfl⟩ := hf
    have hafter : (Fact.request a b).stored.updateAll v
        ((resume catalogue callback snapshot id).filterMap Command.write?) = _ :=
      request_updateAll_resume callback snapshot id a b v
    rw [hafter, ite_true_iff h]
    rcases callback.deed_eq with ⟨hnone, hnot⟩ | ⟨x, y, rfl, hunlisted, hdeed⟩
    · rw [hnone, or_iff_right (hnot b a)]
      rfl
    · rw [hdeed]
      refine Set.mem_insert_iff.trans (or_congr_left ?_)
      simp only [Prod.mk.injEq, Callback.requestPlayerToTeamUp.injEq]
      constructor
      · rintro ⟨rfl, rfl⟩
        exact ⟨⟨rfl, rfl⟩, hunlisted⟩
      · rintro ⟨⟨rfl, rfl⟩, -⟩
        exact ⟨rfl, rfl⟩
  · have hkept : f.stored.updateAll v
        ((resume catalogue callback snapshot id).filterMap Command.write?) = v :=
      Register.updateAll_of_none _ (fun w hw => resume_untouched (mem_writes.mp hw)
        fun a b heq => hf ⟨a, b, heq⟩) v
    rw [hkept, ← h]
    rcases callback.deed_eq with ⟨hnone, -⟩ | ⟨x, y, rfl, -, hdeed⟩
    · rw [hnone]
      rfl
    · rw [hdeed]
      cases f with
      | request a b => exact (hf ⟨a, b, rfl⟩).elim
      | _ => exact Iff.rfl

/-! ### Runs -/

/-- What holds along a run whose writes do not disagree. -/
structure Followed (s : State) : Prop where
  issued : Issued AppWrite (fun _ _ _ => True) s
  agrees : ∀ f : Fact String String, f.stored.Agrees s

theorem Settled.step {s t : State} {e : Event} (h : Followed s) (horder : InOrder s e)
    (hst : (app catalogue).step s e = some t) (hc : Settled s c) :
    Settled t ((deed s e).foldl Community.apply c) := by
  intro f
  rw [facts_observed.settled_step (fun f e he => (h.issued.writes e he).fact_keepsBelow f) h.agrees
    horder hst f]
  cases e with
  | start client op id =>
    have hwrites : (begin client op id).filterMap Command.write? = opWrites client op id :=
      writes_begin client op id
    simp only [issues, app_begin, hwrites, Option.map_some, Option.getD_some]
    exact holds_begin (hc f)
  | resume index id =>
    simp only [issues, deed]
    cases hget : s.answers[index]? with
    | none => exact hc f
    | some a => exact holds_resume (hc f)
  | _ => exact hc f

theorem Followed.step {s t : State} {e : Event} (h : Followed s)
    (hundisputed : (app catalogue).Undisputed Fact.stored s e)
    (hst : (app catalogue).step s e = some t) : Followed t :=
  ⟨appWrite_step h.issued hst, fun f => hundisputed.agrees h.agrees hst f⟩

theorem Followed.of_initial {db : Tree} {ids : List String} :
    Followed (State.initial db ids) :=
  ⟨.of_quiescent ⟨rfl, rfl, rfl⟩, fun f => by simp [Register.Agrees, State.initial]⟩

variable {db : Tree} {ids : List String} {events : List Event} {t : State}

/-- The community that the deeds of a run make of the one at its start. -/
def community (catalogue : List Game) (c : Community String String) (s : State)
    (events : List Event) : Community String String :=
  (deeds catalogue s events).foldl Community.apply c

theorem settled_of_run (hc : Holding db c)
    (run : (app catalogue).Run
      (fun s e => InOrder s e ∧ (app catalogue).Undisputed Fact.stored s e)
      (State.initial db ids) events t) :
    Settled t (community catalogue c (State.initial db ids) events) := by
  have hinitial : Settled (State.initial db ids) c := fun f => by
    rw [Register.settled_of_none_outstanding _ rfl]
    exact hc f
  have hsim : Followed t ∧ Settled t (community catalogue c (State.initial db ids) events) := by
    refine run.simulation Community.apply (fun s c => Followed s ∧ Settled s c) ?_
      ⟨.of_initial, hinitial⟩
    rintro u e v c ⟨hfollowed, hsettled⟩ hok hst
    exact ⟨hfollowed.step hok.2 hst, hsettled.step hfollowed hok.1 hst⟩
  exact hsim.2

theorem Settled.holding (h : Settled t c) (hrest : t.outstanding = []) : Holding t.store c :=
  fun f => by
    rw [h f, Register.settled_of_none_outstanding _ hrest]
    rfl

/-- The database holds a community if it stores friendships with both users. -/
theorem exists_holding (h : Symmetric db) : ∃ c, Holding db c := by
  refine ⟨⟨{p | ∀ a b, p = s(a, b) → db.has (teammatesRef a ++ [b]) = true},
    {p | db.has (teammateRequestsRef p.1 ++ [p.2]) = true},
    {p | db.has (directChatRef p.1 p.2.1 ++ [p.2.2]) = true}⟩, fun f => ?_⟩
  cases f with
  | teammate a b =>
    refine ⟨fun hall => hall a b rfl, fun hhas x y hpair => ?_⟩
    rcases Sym2.eq_iff.mp hpair with ⟨rfl, rfl⟩ | ⟨rfl, rfl⟩
    · exact hhas
    · exact (h _ _).trans hhas
  | _ => exact Iff.rfl

/-- **The database refines the community.**  Once nothing is outstanding, it holds what the deeds
    make of the community that it held before the run. -/
theorem community_refined (hdb : Holding db c)
    (run : (app catalogue).Run
      (fun s e => InOrder s e ∧ (app catalogue).Undisputed Fact.stored s e)
      (State.initial db ids) events t)
    (hrest : t.outstanding = []) :
    Holding t.store (community catalogue c (State.initial db ids) events) :=
  (settled_of_run hdb run).holding hrest

/-- **The last deed about a fact decides whether it is stored.** -/
theorem facts_decided (hdb : Holding db c)
    (run : (app catalogue).Run
      (fun s e => InOrder s e ∧ (app catalogue).Undisputed Fact.stored s e)
      (State.initial db ids) events t)
    (hrest : t.outstanding = []) (f : Fact String String) :
    t.store.has f.path = true ↔ c.Decided (deeds catalogue (State.initial db ids) events) f := by
  rw [← (settled_of_run hdb run).holding hrest f]
  exact c.holds_foldl _ f

/-! ### A run -/

theorem presencePut_cases {p ref : Ref} {value : Tree} {x : Bool}
    (h : presencePut p ref value = some x) : ref <+: p ∨ p <+: ref ∧ x = true := by
  unfold presencePut at h
  split at h
  · rename_i hbelow
    exact Or.inl hbelow
  · split at h
    · rename_i habove
      exact Or.inr ⟨habove.1, (Option.some.inj h).symm⟩
    · cases h

theorem presence_target_mem {p : Ref} {x : Bool} (h : (presence p).target w = some x) :
    ∃ e ∈ w.puts, presencePut p e.1 e.2 = some x := by
  have hfold : ∀ (puts : List (Ref × Tree)) (found : Option Bool),
      puts.foldl (fun found e => (presencePut p e.1 e.2).or found) found = some x →
      (∃ e ∈ puts, presencePut p e.1 e.2 = some x) ∨ found = some x := by
    intro puts
    induction puts with
    | nil => exact fun found h => Or.inr h
    | cons e rest ih =>
      intro found h
      rcases ih _ h with ⟨e', he', hx⟩ | hor
      · exact Or.inl ⟨e', by simp [he'], hx⟩
      · simp only at hor
        cases hput : presencePut p e.1 e.2 with
        | none =>
          rw [hput, Option.none_or] at hor
          exact Or.inr hor
        | some y =>
          rw [hput, Option.some_or] at hor
          exact Or.inl ⟨e, by simp, hput.trans hor⟩
  exact (hfold w.puts none h).resolve_right (by simp)

/-- Writes that lie apart agree about every path. -/
theorem Write.Apart.agree {w' : Write} (h : w.Apart w') {p : Ref} {x y : Bool}
    (hx : (presence p).target w = some x) (hy : (presence p).target w' = some y) : x = y := by
  obtain ⟨e, he, hput⟩ := presence_target_mem hx
  obtain ⟨e', he', hput'⟩ := presence_target_mem hy
  have hapart := h e he e' he'
  rcases presencePut_cases hput with hbelow | ⟨habove, rfl⟩ <;>
    rcases presencePut_cases hput' with hbelow' | ⟨habove', rfl⟩
  · rcases List.prefix_or_prefix_of_prefix hbelow hbelow' with hpre | hpre
    · exact (hapart.1 hpre).elim
    · exact (hapart.2 hpre).elim
  · exact (hapart.1 (hbelow.trans habove')).elim
  · exact (hapart.2 (hbelow'.trans habove)).elim
  · rfl

theorem undisputed_of_issuedApart {s : State} {e : Event}
    (h : (app catalogue).IssuedApart Write.Apart s e) :
    (app catalogue).Undisputed Fact.stored s e := by
  intro client ws hissue w hw e he hne f x hx y hy
  exact (h (client, ws) (by simp [hissue]) w hw e he hne).agree hx hy

theorem run_befriended : ∃ t, (app []).exec (fun s e => decide (Separate [] s e))
      (State.initial requested []) befriended = some t ∧
    (app []).Run (fun s e => InOrder s e ∧ (app []).Undisputed Fact.stored s e)
      (State.initial requested []) befriended t ∧ t.outstanding = [] := by
  have hrest : ((app []).exec (fun s e => decide (Separate [] s e))
      (State.initial requested []) befriended).map Config.outstanding = some [] := by
    decide +kernel
  obtain ⟨t, ht, hout⟩ := Option.map_eq_some_iff.mp hrest
  refine ⟨t, ht, run_of_exec (fun s e h => ?_) ht, hout⟩
  obtain ⟨horder, hapart⟩ := of_decide_eq_true h
  exact ⟨horder, undisputed_of_issuedApart hapart⟩

theorem community_refined_befriended :
    ∃ c t, (app []).exec (fun s e => decide (Separate [] s e))
        (State.initial requested []) befriended = some t ∧ Holding requested c ∧
      Holding t.store (community [] c (State.initial requested []) befriended) := by
  obtain ⟨c, hc⟩ := exists_holding symmetric_requested
  obtain ⟨t, ht, run, hout⟩ := run_befriended
  exact ⟨c, t, ht, hc, community_refined hc run hout⟩

theorem facts_decided_befriended :
    ∃ c t, (app []).exec (fun s e => decide (Separate [] s e))
        (State.initial requested []) befriended = some t ∧ Holding requested c ∧
      ∀ f : Fact String String, t.store.has f.path = true ↔
        c.Decided (deeds [] (State.initial requested []) befriended) f := by
  obtain ⟨c, hc⟩ := exists_holding symmetric_requested
  obtain ⟨t, ht, run, hout⟩ := run_befriended
  exact ⟨c, t, ht, hc, facts_decided hc run hout⟩

end TeamUp
