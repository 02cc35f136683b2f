import Mathlib.Algebra.BigOperators.Group.Finset.Basic
import Mathlib.Algebra.Order.BigOperators.Group.Finset
import Mathlib.Data.Fintype.Card

/-!
# Replicas of a store

A store is shared by devices, each of which keeps a replica of it.  A device sees a write of
its own at once.  The store takes the writes of a device in their order; it acknowledges each
of them to that device, and hands one that changed something on to the others.  What is on its
way to a device may stay there for any time, so a device may see an old store with its own
writes on top.

Devices that react to changes with further writes come to rest if their writes *settle*
something: the number of what is left to settle never grows by such a write, and falls whenever
the write changes anything.  The `potential` counts this number at the store and in every view,
with the writes and the changes on their way; every write a device issues in reaction costs one
of it, and every other write adds a bounded amount.
-/

namespace TeamUp

/-- What the store tells a device. -/
inductive Update (W : Type) where
  /-- The oldest write of the device not acknowledged yet is done. -/
  | acknowledged
  /-- Another write changed the store. -/
  | changed (w : W)
deriving DecidableEq

structure Replica (W T : Type) where
  /-- The store as the device was told. -/
  base : T
  /-- The writes of the device that have reached the store, and are not acknowledged yet. -/
  sent : List W
  /-- The writes of the device on their way to the store. -/
  pending : List W
  /-- The updates on their way to the device. -/
  updates : List (Update W)

structure Replicated (Device W T : Type) where
  store : T
  replica : Device → Replica W T

variable {W T : Type} (apply : W → T → T)

def applyEach (writes : List W) (t : T) : T := writes.foldl (fun t w => apply w t) t

namespace Replica

/-- The replica with the writes of the device on top. -/
def view (r : Replica W T) : T := applyEach apply (r.sent ++ r.pending) r.base

def issue (r : Replica W T) (w : W) : Replica W T := { r with pending := r.pending ++ [w] }

def tell (r : Replica W T) (u : Update W) : Replica W T := { r with updates := r.updates ++ [u] }

/-- The oldest write of the device has reached the store. -/
def arrive (r : Replica W T) (w : W) (pending : List W) : Replica W T where
  base := r.base
  sent := r.sent ++ [w]
  pending := pending
  updates := r.updates ++ [.acknowledged]

/-- The oldest update reaches the device. -/
def receive (r : Replica W T) : Option (Replica W T) :=
  match r.updates, r.sent with
  | .changed w :: updates, _ => some { r with base := apply w r.base, updates }
  | .acknowledged :: updates, w :: sent => some { r with base := apply w r.base, sent, updates }
  | _, _ => none

variable {apply}

@[simp] theorem view_issue (r : Replica W T) (w : W) :
    (r.issue w).view apply = apply w (r.view apply) := by
  simp [view, issue, applyEach]

@[simp] theorem view_tell (r : Replica W T) (u : Update W) :
    (r.tell u).view apply = r.view apply := rfl

theorem view_arrive {r : Replica W T} {w : W} {pending : List W} (h : r.pending = w :: pending) :
    (r.arrive w pending).view apply = r.view apply := by
  simp [view, arrive, h]

/-- Either the device is told about a write that is not its own, or it sees what it saw. -/
theorem receive_cases {r r' : Replica W T} (h : r.receive apply = some r') :
    (∃ w updates, r.updates = .changed w :: updates ∧
      r' = { base := apply w r.base, sent := r.sent, pending := r.pending, updates }) ∨
    ∃ w sent updates, r.updates = .acknowledged :: updates ∧ r.sent = w :: sent ∧
      r' = { base := apply w r.base, sent, pending := r.pending, updates } ∧
      r'.view apply = r.view apply := by
  unfold receive at h
  split at h
  · rename_i w updates hupdates
    exact Or.inl ⟨w, updates, hupdates, (Option.some.inj h).symm⟩
  · rename_i updates w sent hupdates hsent
    obtain rfl := Option.some.inj h
    exact Or.inr ⟨w, sent, updates, hupdates, hsent, rfl, by simp [view, applyEach, hsent]⟩
  · cases h

end Replica

namespace Replicated

variable {Device : Type} [DecidableEq Device] (changes : W → T → Bool)

/-- The device sees its write at once. -/
def issue (s : Replicated Device W T) (i : Device) (w : W) : Replicated Device W T :=
  { store := s.store, replica := Function.update s.replica i ((s.replica i).issue w) }

/-- A write that comes from none of the devices. -/
def commit (s : Replicated Device W T) (w : W) : Replicated Device W T where
  store := apply w s.store
  replica := fun j => if changes w s.store then (s.replica j).tell (.changed w) else s.replica j

/-- The oldest write on its way from the device reaches the store. -/
def arrive (s : Replicated Device W T) (i : Device) : Option (Replicated Device W T) :=
  match (s.replica i).pending with
  | [] => none
  | w :: pending =>
      some {
        store := apply w s.store
        replica := Function.update (s.commit apply changes w).replica i
          ((s.replica i).arrive w pending) }

def receive (s : Replicated Device W T) (i : Device) : Option (Replicated Device W T) :=
  ((s.replica i).receive apply).map fun r =>
    { store := s.store, replica := Function.update s.replica i r }

variable {apply changes}

theorem arrive_eq {s t : Replicated Device W T} {i : Device}
    (h : s.arrive apply changes i = some t) :
    ∃ w pending, (s.replica i).pending = w :: pending ∧
      t = {
        store := apply w s.store
        replica := Function.update (s.commit apply changes w).replica i
          ((s.replica i).arrive w pending) } := by
  unfold arrive at h
  split at h
  · cases h
  · rename_i w pending hpending
    exact ⟨w, pending, hpending, (Option.some.inj h).symm⟩

theorem receive_eq {s t : Replicated Device W T} {i : Device} (h : s.receive apply i = some t) :
    ∃ r, (s.replica i).receive apply = some r ∧
      t = { store := s.store, replica := Function.update s.replica i r } := by
  obtain ⟨r, hr, rfl⟩ := Option.map_eq_some_iff.mp h
  exact ⟨r, hr, rfl⟩

end Replicated

/-! ### Invariants -/

/-- The replica satisfies the property, and every write it holds is permitted. -/
structure Replica.Keeps (I : T → Prop) (permitted : W → Prop) (r : Replica W T) : Prop where
  base : I r.base
  sent : ∀ w ∈ r.sent, permitted w
  pending : ∀ w ∈ r.pending, permitted w
  updates : ∀ w, .changed w ∈ r.updates → permitted w

structure Replicated.Keeps {Device : Type} (I : T → Prop) (permitted : W → Prop)
    (s : Replicated Device W T) : Prop where
  store : I s.store
  replica : ∀ i, (s.replica i).Keeps I permitted

section Keeps

variable {apply} {I : T → Prop} {permitted : W → Prop} {w : W}

theorem holds_applyEach (hI : ∀ w t, permitted w → I t → I (apply w t)) {writes : List W} {t : T}
    (hwrites : ∀ w ∈ writes, permitted w) (ht : I t) : I (applyEach apply writes t) := by
  induction writes generalizing t with
  | nil => exact ht
  | cons w writes ih =>
    exact ih (fun w' hw' => hwrites w' (by simp [hw'])) (hI w t (hwrites w (by simp)) ht)

namespace Replica.Keeps

variable {r r' : Replica W T}

/-- What a device sees satisfies the property. -/
theorem view (h : r.Keeps I permitted) (hI : ∀ w t, permitted w → I t → I (apply w t)) :
    I (r.view apply) :=
  holds_applyEach hI (List.forall_mem_append.mpr ⟨h.sent, h.pending⟩) h.base

theorem issue (h : r.Keeps I permitted) (hw : permitted w) : (r.issue w).Keeps I permitted where
  base := h.base
  sent := h.sent
  pending := List.forall_mem_append.mpr ⟨h.pending, List.forall_mem_singleton.mpr hw⟩
  updates := h.updates

theorem tell (h : r.Keeps I permitted) (hw : permitted w) :
    (r.tell (.changed w)).Keeps I permitted where
  base := h.base
  sent := h.sent
  pending := h.pending
  updates := by
    intro w' hw'
    rcases List.mem_append.mp hw' with hold | hnew
    · exact h.updates w' hold
    · obtain rfl := Update.changed.inj (List.mem_singleton.mp hnew)
      exact hw

theorem arrive (h : r.Keeps I permitted) {pending : List W} (hpending : r.pending = w :: pending) :
    (r.arrive w pending).Keeps I permitted := by
  have hall := h.pending
  rw [hpending] at hall
  refine ⟨h.base, ?_, fun w' hw' => hall w' (List.mem_cons_of_mem _ hw'),
    fun w' hw' => h.updates w' ?_⟩
  · exact List.forall_mem_append.mpr ⟨h.sent, List.forall_mem_singleton.mpr (hall w (by simp))⟩
  · simpa [Replica.arrive] using hw'

theorem receive (h : r.Keeps I permitted) (hI : ∀ w t, permitted w → I t → I (apply w t))
    (hr : r.receive apply = some r') : r'.Keeps I permitted := by
  rcases receive_cases hr with ⟨w, updates, hupdates, rfl⟩ |
    ⟨w, sent, updates, hupdates, hsent, rfl, -⟩
  · have hold := h.updates
    rw [hupdates] at hold
    exact ⟨hI w _ (hold w (by simp)) h.base, h.sent, h.pending,
      fun w' hw' => hold w' (by simp [hw'])⟩
  · have hold := h.updates
    have hall := h.sent
    rw [hupdates] at hold
    rw [hsent] at hall
    exact ⟨hI w _ (hall w (by simp)) h.base, fun w' hw' => hall w' (by simp [hw']), h.pending,
      fun w' hw' => hold w' (by simp [hw'])⟩

end Replica.Keeps

namespace Replicated.Keeps

variable {Device : Type} {changes : W → T → Bool} {s t : Replicated Device W T} {i : Device}

theorem commit (h : s.Keeps I permitted) (hI : ∀ w t, permitted w → I t → I (apply w t))
    (hw : permitted w) : (s.commit apply changes w).Keeps I permitted := by
  refine ⟨hI w _ hw h.store, fun j => ?_⟩
  simp only [Replicated.commit]
  split_ifs
  · exact (h.replica j).tell hw
  · exact h.replica j

variable [DecidableEq Device]

theorem update (h : s.Keeps I permitted) {r : Replica W T} (hr : r.Keeps I permitted) :
    ({ store := s.store, replica := Function.update s.replica i r } :
      Replicated Device W T).Keeps I permitted := by
  refine ⟨h.store, (Function.forall_update_iff s.replica fun _ (r : Replica W T) =>
    r.Keeps I permitted).mpr ?_⟩
  exact ⟨hr, fun j _ => h.replica j⟩

theorem issue (h : s.Keeps I permitted) (hw : permitted w) : (s.issue i w).Keeps I permitted :=
  h.update ((h.replica i).issue hw)

theorem arrive (h : s.Keeps I permitted) (hI : ∀ w t, permitted w → I t → I (apply w t))
    (hst : s.arrive apply changes i = some t) : t.Keeps I permitted := by
  obtain ⟨w, pending, hpending, rfl⟩ := arrive_eq hst
  have hw : permitted w := (h.replica i).pending w (by simp [hpending])
  exact (h.commit hI hw).update ((h.replica i).arrive hpending)

theorem receive (h : s.Keeps I permitted) (hI : ∀ w t, permitted w → I t → I (apply w t))
    (hst : s.receive apply i = some t) : t.Keeps I permitted := by
  obtain ⟨r, hr, rfl⟩ := receive_eq hst
  exact h.update ((h.replica i).receive hI hr)

end Replicated.Keeps

end Keeps

/-! ### Sums over the devices -/

section Sums

variable {Device : Type} [Fintype Device] [DecidableEq Device] {f g : Device → Nat} {i : Device}

theorem sum_le_of_one {gain loss : Nat} (hi : f i + loss ≤ g i + gain)
    (hother : ∀ j, j ≠ i → f j ≤ g j) : ∑ j, f j + loss ≤ ∑ j, g j + gain := by
  have hrest : ∑ j ∈ Finset.univ.erase i, f j ≤ ∑ j ∈ Finset.univ.erase i, g j :=
    Finset.sum_le_sum fun j hj => hother j (Finset.ne_of_mem_erase hj)
  have hf := Finset.add_sum_erase Finset.univ f (Finset.mem_univ i)
  have hg := Finset.add_sum_erase Finset.univ g (Finset.mem_univ i)
  omega

end Sums

/-! ### The potential -/

/-- A number of things to settle, which the settling writes never increase, and lower
    whenever they change anything. -/
structure Settles (apply : W → T → T) (changes : W → T → Bool) (settling : W → Prop)
    (unsettled : T → Nat) (most : Nat) : Prop where
  bounded : ∀ t, unsettled t ≤ most
  settles : ∀ w, settling w → ∀ t,
    unsettled (apply w t) + (if changes w t then 1 else 0) ≤ unsettled t

/-- The goals not met. -/
def unmet {G : Type} (met : G → T → Prop) [∀ g t, Decidable (met g t)] (goals : List G)
    (t : T) : Nat :=
  goals.countP fun g => ¬ met g t

/-- Writes that keep every goal that is met, and meet a new one if they change anything,
    settle goals. -/
theorem settles_unmet {G : Type} {met : G → T → Prop} [∀ g t, Decidable (met g t)]
    {goals : List G} {apply : W → T → T} {changes : W → T → Bool} {settling : W → Prop}
    (hkeep : ∀ w, settling w → ∀ t, ∀ g ∈ goals, met g t → met g (apply w t))
    (hmeet : ∀ w, settling w → ∀ t, changes w t = true →
      ∃ g ∈ goals, ¬ met g t ∧ met g (apply w t)) :
    Settles apply changes settling (unmet met goals) goals.length where
  bounded := fun _ => List.countP_le_length
  settles := by
    intro w hw t
    have hmono : ∀ goals' : List G, goals' ⊆ goals →
        unmet met goals' (apply w t) ≤ unmet met goals' t := fun goals' hsub =>
      List.countP_mono_left fun g hg hunmet => by
        simp only [decide_eq_true_eq] at hunmet ⊢
        exact fun hmet => hunmet (hkeep w hw t g (hsub hg) hmet)
    split_ifs with hchanges
    · obtain ⟨g, hg, hbefore, hafter⟩ := hmeet w hw t hchanges
      obtain ⟨earlier, later, rfl⟩ := List.append_of_mem hg
      have hearlier := hmono earlier (List.subset_append_left _ _)
      have hlater := hmono later fun g' hg' => by simp [hg']
      simp only [unmet, List.countP_append, List.countP_cons, hbefore, hafter, not_true_eq_false,
        not_false_eq_true, decide_true, decide_false, if_true, Bool.false_eq_true, if_false]
        at hearlier hlater ⊢
      omega
    · exact hmono goals (List.Subset.refl _)

section Potential

variable {Device : Type} [Fintype Device] (changes : W → T → Bool)
variable (settling : W → Prop) [DecidablePred settling] (unsettled : T → Nat) (most : Nat)

def Update.isChanged : Update W → Bool
  | .acknowledged => false
  | .changed _ => true

/-- A change on its way may unsettle a view, and is noticed there. -/
def changeCost : Nat := most + 1

/-- A thing not settled at the store may lead to a change, which each device is told about. -/
def thingCost (Device : Type) [Fintype Device] : Nat :=
  Fintype.card Device * changeCost most + 1

/-- A write that settles nothing may unsettle the store. -/
def writeCost (Device : Type) [Fintype Device] : Nat :=
  most * thingCost most Device + Fintype.card Device * changeCost most

def share (Device : Type) [Fintype Device] (r : Replica W T) (turns : Nat) : Nat :=
  (r.pending.countP fun w => ¬ settling w) * writeCost most Device +
    r.updates.countP Update.isChanged * changeCost most + unsettled (r.view apply) + turns

/-- `turns` is how often each device may still react. -/
def potential (s : Replicated Device W T) (turns : Device → Nat) : Nat :=
  unsettled s.store * thingCost most Device +
    ∑ i, share apply settling unsettled most Device (s.replica i) (turns i)

variable {apply changes settling unsettled most}
variable {s t : Replicated Device W T} {turns turns' : Device → Nat} {i : Device} {w : W}

theorem share_mono (r : Replica W T) {n n' : Nat} (h : n ≤ n') :
    share apply settling unsettled most Device r n ≤
      share apply settling unsettled most Device r n' :=
  Nat.add_le_add_left h _

theorem share_issue (r : Replica W T) (w : W) (n : Nat) :
    share apply settling unsettled most Device (r.issue w) n =
      (r.pending.countP (fun w => ¬ settling w) + if settling w then 0 else 1) *
          writeCost most Device +
        r.updates.countP Update.isChanged * changeCost most +
        unsettled (apply w (r.view apply)) + n := by
  have hcount : (r.issue w).pending.countP (fun w => ¬ settling w) =
      r.pending.countP (fun w => ¬ settling w) + if settling w then 0 else 1 := by
    by_cases hw : settling w <;> simp [Replica.issue, hw]
  rw [share, Replica.view_issue, hcount]
  rfl

theorem share_tell_changed (r : Replica W T) (w : W) (n : Nat) :
    share apply settling unsettled most Device (r.tell (.changed w)) n =
      share apply settling unsettled most Device r n + changeCost most := by
  have hcount : (r.tell (.changed w)).updates.countP Update.isChanged =
      r.updates.countP Update.isChanged + 1 := by
    simp [Replica.tell, Update.isChanged]
  have hpending : (r.tell (.changed w)).pending = r.pending := rfl
  simp only [share, Replica.view_tell, hcount, hpending, Nat.add_mul, Nat.one_mul]
  omega

theorem share_arrive {r : Replica W T} {pending : List W} (h : r.pending = w :: pending)
    (n : Nat) :
    share apply settling unsettled most Device (r.arrive w pending) n +
        (if settling w then 0 else writeCost most Device) =
      share apply settling unsettled most Device r n := by
  have hcount : (r.arrive w pending).updates.countP Update.isChanged =
      r.updates.countP Update.isChanged := by
    simp [Replica.arrive, Update.isChanged]
  have hpending : (r.arrive w pending).pending = pending := rfl
  simp only [share, Replica.view_arrive h, hcount, hpending, h, List.countP_cons]
  by_cases hw : settling w
  · simp [hw]
  · simp only [hw, not_false_eq_true, decide_true, if_true, if_false, Nat.add_mul, Nat.one_mul]
    omega

/-- What the devices are told about a write. -/
theorem sum_commit (w : W) (turns : Device → Nat) :
    ∑ j, share apply settling unsettled most Device
        ((s.commit apply changes w).replica j) (turns j) =
      ∑ j, share apply settling unsettled most Device (s.replica j) (turns j) +
        if changes w s.store then Fintype.card Device * changeCost most else 0 := by
  cases hchanges : changes w s.store with
  | true =>
    simp only [Replicated.commit, hchanges, if_true, share_tell_changed, Finset.sum_add_distrib,
      Finset.sum_const, Nat.nsmul_eq_mul, Finset.card_univ]
  | false => simp [Replicated.commit, hchanges]

theorem potential_settled (h : Settles apply changes settling unsettled most) (hw : settling w)
    (turns : Device → Nat) :
    potential apply settling unsettled most (s.commit apply changes w) turns ≤
      potential apply settling unsettled most s turns := by
  have hsettles := h.settles w hw s.store
  have hthing : (unsettled (apply w s.store) + if changes w s.store then 1 else 0) *
      thingCost most Device ≤ unsettled s.store * thingCost most Device :=
    Nat.mul_le_mul_right _ hsettles
  have hcost : Fintype.card Device * changeCost most ≤ thingCost most Device :=
    Nat.le_succ _
  rw [potential, sum_commit, potential]
  simp only [Replicated.commit, Nat.add_mul] at hthing ⊢
  split_ifs at hthing ⊢ <;> omega

/-- **A write that comes from elsewhere** adds a bounded amount. -/
theorem potential_elsewhere (h : Settles apply changes settling unsettled most) (w : W)
    (turns : Device → Nat) :
    potential apply settling unsettled most (s.commit apply changes w) turns ≤
      potential apply settling unsettled most s turns + writeCost most Device := by
  have hmost : unsettled (apply w s.store) * thingCost most Device ≤
      most * thingCost most Device := Nat.mul_le_mul_right _ (h.bounded _)
  rw [potential, sum_commit, potential, writeCost]
  simp only [Replicated.commit]
  split_ifs <;> omega

variable [DecidableEq Device]

/-- A device may lose turns. -/
theorem potential_rest (hi : turns' i ≤ turns i) (hother : ∀ j, j ≠ i → turns' j = turns j) :
    potential apply settling unsettled most s turns' ≤
      potential apply settling unsettled most s turns := by
  refine Nat.add_le_add_left (Finset.sum_le_sum fun j _ => share_mono _ ?_) _
  by_cases hj : j = i
  · rw [hj]
    exact hi
  · exact (hother j hj).le

/-- What a device does to its replica shows in its share only. -/
theorem potential_update {r : Replica W T} (gain loss : Nat)
    (hi : share apply settling unsettled most Device r (turns' i) + loss ≤
      share apply settling unsettled most Device (s.replica i) (turns i) + gain)
    (hother : ∀ j, j ≠ i → turns' j = turns j) :
    potential apply settling unsettled most
        { store := s.store, replica := Function.update s.replica i r } turns' + loss ≤
      potential apply settling unsettled most s turns + gain := by
  have hsum : ∑ j, share apply settling unsettled most Device
        (Function.update s.replica i r j) (turns' j) + loss ≤
      ∑ j, share apply settling unsettled most Device (s.replica j) (turns j) + gain := by
    refine sum_le_of_one (i := i) ?_ fun j hj => ?_
    · rw [Function.update_self]
      exact hi
    · rw [Function.update_of_ne hj, hother j hj]
  simp only [potential]
  omega

/-- **A turn that issues a settling write** costs one at least. -/
theorem potential_issue (h : Settles apply changes settling unsettled most) (hw : settling w)
    (hi : turns' i + 1 ≤ turns i + if changes w ((s.replica i).view apply) then 1 else 0)
    (hother : ∀ j, j ≠ i → turns' j = turns j) :
    potential apply settling unsettled most (s.issue i w) turns' + 1 ≤
      potential apply settling unsettled most s turns := by
  refine potential_update 0 1 ?_ hother
  have hsettles := h.settles w hw ((s.replica i).view apply)
  rw [share_issue, if_pos hw]
  simp only [Nat.add_zero, share]
  omega

/-- What any other write adds. -/
def disturbance (most : Nat) (Device : Type) [Fintype Device] : Nat :=
  writeCost most Device + most + 1

theorem potential_disturb (h : Settles apply changes settling unsettled most)
    (hi : turns' i ≤ turns i + 1) (hother : ∀ j, j ≠ i → turns' j = turns j) :
    potential apply settling unsettled most (s.issue i w) turns' ≤
      potential apply settling unsettled most s turns + disturbance most Device := by
  refine potential_update _ 0 ?_ hother
  have hbounded := h.bounded (apply w ((s.replica i).view apply))
  rw [share_issue, share, disturbance]
  split_ifs <;> simp only [Nat.add_mul, Nat.one_mul] <;> omega

/-- **A write that arrives** costs nothing. -/
theorem potential_arrive (h : Settles apply changes settling unsettled most)
    (harrive : s.arrive apply changes i = some t) (turns : Device → Nat) :
    potential apply settling unsettled most t turns ≤
      potential apply settling unsettled most s turns := by
  obtain ⟨w, pending, hpending, rfl⟩ := Replicated.arrive_eq harrive
  have htold : share apply settling unsettled most Device (s.replica i) (turns i) ≤
      share apply settling unsettled most Device ((s.commit apply changes w).replica i)
        (turns i) := by
    simp only [Replicated.commit]
    split_ifs
    · rw [share_tell_changed]
      omega
    · exact Nat.le_refl _
  have hupdate := potential_update (s := s.commit apply changes w) 0 _
    ((share_arrive hpending (turns i)).trans_le htold) fun _ _ => rfl
  by_cases hw : settling w
  · have hsettled := potential_settled (s := s) h hw turns
    rw [if_pos hw] at hupdate
    exact hupdate.trans hsettled
  · have helsewhere := potential_elsewhere (s := s) h w turns
    rw [if_neg hw] at hupdate
    exact Nat.le_of_add_le_add_right (hupdate.trans helsewhere)

/-- **An update that reaches a device** costs nothing, if the device takes a turn more only
    when it sees something else then. -/
theorem potential_receive (h : Settles apply changes settling unsettled most)
    (hreceive : s.receive apply i = some t) (hi : turns' i ≤ turns i + 1)
    (hsame : (t.replica i).view apply = (s.replica i).view apply → turns' i ≤ turns i)
    (hother : ∀ j, j ≠ i → turns' j = turns j) :
    potential apply settling unsettled most t turns' ≤
      potential apply settling unsettled most s turns := by
  obtain ⟨r, hr, rfl⟩ := Replicated.receive_eq hreceive
  refine potential_update 0 0 ?_ hother
  simp only [Function.update_self] at hsame
  rcases Replica.receive_cases hr with ⟨w, updates, hupdates, rfl⟩ |
    ⟨w, sent, updates, hupdates, hsent, rfl, hview⟩
  · have hbounded := h.bounded ((⟨apply w (s.replica i).base, (s.replica i).sent,
      (s.replica i).pending, updates⟩ : Replica W T).view apply)
    simp only [share, hupdates, List.countP_cons, Update.isChanged, if_true, Nat.add_mul,
      Nat.one_mul, changeCost]
    omega
  · have hturns := hsame hview
    simp only [share, hview, hupdates, List.countP_cons, Update.isChanged, Bool.false_eq_true,
      if_false, Nat.add_zero]
    omega

end Potential

end TeamUp
