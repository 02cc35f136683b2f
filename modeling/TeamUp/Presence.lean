import TeamUp.Registers
import TeamUp.Firebase

/-!
# Presence of a path

Whether anything is stored at or below a path is a register of the database, as
long as nothing strictly below the path is removed on its own.
-/

namespace TeamUp

namespace Write

/-- The replacements a write consists of. -/
def puts : Write → List (Ref × Tree)
  | .setValue ref value => [(ref, value)]
  | .updateChildValues ref values => values.map fun e => (ref ++ [e.1], e.2)
  | .removeValue ref => [(ref, .empty)]

theorem apply_eq_puts (w : Write) (t : Tree) :
    w.apply t = w.puts.foldl (fun t e => t.put e.1 e.2) t := by
  cases w with
  | setValue ref value => rfl
  | updateChildValues ref values => rw [puts, List.foldl_map]; rfl
  | removeValue ref => rfl

/-- A write replaces what is at or below its reference only. -/
theorem ref_prefix_of_puts {w : Write} {e : Ref × Tree} (he : e ∈ w.puts) : w.ref <+: e.1 := by
  cases w with
  | setValue ref value =>
    rw [List.mem_singleton.mp he]
    exact List.prefix_refl _
  | updateChildValues ref values =>
    obtain ⟨c, -, rfl⟩ := List.mem_map.mp he
    exact List.prefix_append ref [c.1]
  | removeValue ref =>
    rw [List.mem_singleton.mp he]
    exact List.prefix_refl _

/-- The write removes nothing strictly below the path. -/
def KeepsBelow (p : Ref) (w : Write) : Prop :=
  ∀ e ∈ w.puts, p <+: e.1 → e.1 = p ∨ e.2.has [] = true

/-- The write replaces nothing at, above or below the path. -/
def Beside (p : Ref) (w : Write) : Prop := ∀ e ∈ w.puts, Incomparable e.1 p

theorem Beside.keepsBelow {p : Ref} {w : Write} (h : w.Beside p) : w.KeepsBelow p :=
  fun e he hpre => ((h e he).2 hpre).elim

theorem Beside.below {p : Ref} {w : Write} (h : w.Beside p) (r : Ref) : w.Beside (p ++ r) :=
  fun e he => ((h e he).symm.of_prefix (List.prefix_append p r)).symm

/-- A write beside a path changes nothing at or below it. -/
theorem Beside.leafAt {p : Ref} {w : Write} (h : w.Beside p) (t : Tree) (r : Ref) :
    (w.apply t).leafAt (p ++ r) = t.leafAt (p ++ r) := by
  have hbelow := h.below r
  rw [apply_eq_puts]
  unfold Beside at hbelow
  generalize w.puts = puts at hbelow
  induction puts generalizing t with
  | nil => rfl
  | cons e rest ih =>
    rw [List.foldl_cons, ih (t.put e.1 e.2) fun e' he' => hbelow e' (by simp [he']),
      PathTree.leafAt_put_beside t e.2 (hbelow e (by simp))]

/-- What a write leaves at a path depends on nothing else than what was there. -/
theorem leafAt_apply_congr (w : Write) {t u : Tree} {q : Ref} (h : t.leafAt q = u.leafAt q) :
    (w.apply t).leafAt q = (w.apply u).leafAt q := by
  rw [apply_eq_puts, apply_eq_puts]
  generalize w.puts = puts
  induction puts generalizing t u with
  | nil => exact h
  | cons e rest ih => exact ih (PathTree.leafAt_put_congr h e.1 e.2)

/-- It is enough that the reference lies beside the path. -/
theorem beside_of_ref {p : Ref} {w : Write} (h : Incomparable w.ref p) : w.Beside p := by
  intro e he
  cases w with
  | setValue ref value =>
    rw [List.mem_singleton.mp he]
    exact h
  | updateChildValues ref values =>
    obtain ⟨c, -, rfl⟩ := List.mem_map.mp he
    exact h.of_prefix (List.prefix_append ref [c.1])
  | removeValue ref =>
    rw [List.mem_singleton.mp he]
    exact h

end Write

/-- What replacing the node at `ref` makes of whether anything is stored at `p`. -/
def presencePut (p ref : Ref) (value : Tree) : Option Bool :=
  if ref <+: p then some (value.has (p.drop ref.length))
  else if p <+: ref ∧ value.has [] = true then some true
  else none

theorem has_put (t : Tree) {p ref : Ref} {value : Tree}
    (h : p <+: ref → ref = p ∨ value.has [] = true) :
    (t.put ref value).has p = (presencePut p ref value).getD (t.has p) := by
  unfold presencePut
  by_cases hbelow : ref <+: p
  · obtain ⟨r, rfl⟩ := hbelow
    simp [PathTree.has_put_below]
  · rw [if_neg hbelow]
    by_cases habove : p <+: ref
    · have hvalue : value.has [] = true := by
        rcases h habove with rfl | hvalue
        · exact (hbelow (List.prefix_refl _)).elim
        · exact hvalue
      obtain ⟨r, rfl⟩ := habove
      simp [hvalue, PathTree.has_put_above t p r hvalue]
    · simp [habove, PathTree.has_put_beside t value ⟨hbelow, habove⟩]

/-- Whether anything is stored at or below a path. -/
def presence (p : Ref) : Register Tree Write Bool where
  read := fun t => t.has p
  target := fun w => w.puts.foldl (fun found e => (presencePut p e.1 e.2).or found) none

@[simp] theorem presence_read (p : Ref) (t : Tree) : (presence p).read t = t.has p := rfl

theorem presence_update (p : Ref) (v : Bool) (w : Write) :
    (presence p).update v w =
      w.puts.foldl (fun v e => (presencePut p e.1 e.2).getD v) v := by
  have hfold : ∀ (puts : List (Ref × Tree)) (found : Option Bool),
      (puts.foldl (fun found e => (presencePut p e.1 e.2).or found) found).getD v =
        puts.foldl (fun v e => (presencePut p e.1 e.2).getD v) (found.getD v) := by
    intro puts
    induction puts with
    | nil => intro found; rfl
    | cons e rest ih =>
      intro found
      rw [List.foldl_cons, List.foldl_cons, ih]
      cases presencePut p e.1 e.2 <;> rfl
  exact hfold w.puts none

theorem presence_target_beside {p : Ref} {w : Write} (h : w.Beside p) :
    (presence p).target w = none := by
  have hput : ∀ e ∈ w.puts, presencePut p e.1 e.2 = none := by
    intro e he
    simp [presencePut, (h e he).1, (h e he).2]
  simp only [presence]
  generalize w.puts = puts at hput
  induction puts with
  | nil => rfl
  | cons e rest ih =>
    rw [List.foldl_cons, hput e (by simp), Option.none_or]
    exact ih fun e' he' => hput e' (by simp [he'])

/-- A write that does not touch the path and removes nothing below it lies beside it. -/
theorem beside_of_target_none {p : Ref} {w : Write} (hkeeps : w.KeepsBelow p)
    (h : (presence p).target w = none) : w.Beside p := by
  have hfold : ∀ (puts : List (Ref × Tree)) (found : Option Bool),
      puts.foldl (fun found e => (presencePut p e.1 e.2).or found) found = none →
      found = none ∧ ∀ e ∈ puts, presencePut p e.1 e.2 = none := by
    intro puts
    induction puts with
    | nil => exact fun found h => ⟨h, by simp⟩
    | cons e rest ih =>
      intro found hnone
      obtain ⟨hor, hrest⟩ := ih _ hnone
      obtain ⟨hput, hfound⟩ := Option.or_eq_none_iff.mp hor
      exact ⟨hfound, List.forall_mem_cons.mpr ⟨hput, hrest⟩⟩
  intro e he
  have hput := (hfold w.puts none h).2 e he
  unfold presencePut at hput
  split at hput
  · cases hput
  · rename_i hbelow
    split at hput
    · cases hput
    · rename_i hneither
      refine ⟨hbelow, fun hpre => ?_⟩
      rcases hkeeps e he hpre with heq | hvalue
      · exact hbelow (heq ▸ List.prefix_refl _)
      · exact hneither ⟨hpre, hvalue⟩

/-- A write whose replacements agree on the path gives it their value. -/
theorem presence_target_eq {p : Ref} {w : Write} {x : Bool}
    (hall : ∀ e ∈ w.puts, ∀ y ∈ presencePut p e.1 e.2, y = x)
    (hhit : ∃ e ∈ w.puts, presencePut p e.1 e.2 = some x) : (presence p).target w = some x := by
  have hfold : ∀ (puts : List (Ref × Tree)) (found : Option Bool),
      (∀ e ∈ puts, ∀ y ∈ presencePut p e.1 e.2, y = x) →
      ((∃ e ∈ puts, presencePut p e.1 e.2 = some x) ∨ found = some x) →
      puts.foldl (fun found e => (presencePut p e.1 e.2).or found) found = some x := by
    intro puts
    induction puts with
    | nil => exact fun found _ hor => hor.resolve_left (by simp)
    | cons e rest ih =>
      intro found hputs hor
      rw [List.foldl_cons]
      refine ih _ (fun e' he' => hputs e' (by simp [he'])) ?_
      cases he : presencePut p e.1 e.2 with
      | some y => exact Or.inr (by rw [Option.some_or, hputs e (by simp) y he])
      | none =>
        rw [Option.none_or]
        refine hor.imp_left ?_
        rintro ⟨e', he', hx⟩
        rcases List.mem_cons.mp he' with rfl | hrest
        · rw [he] at hx
          cases hx
        · exact ⟨e', hrest, hx⟩
  exact hfold w.puts none hall (Or.inl hhit)

theorem presencePut_within {p ref : Ref} {value : Tree} (hpre : p <+: ref)
    (hvalue : value.has [] = true) : presencePut p ref value = some true := by
  unfold presencePut
  split
  · rename_i hback
    have heq : ref = p := hback.eq_of_length (Nat.le_antisymm hback.length_le hpre.length_le)
    simp [heq, hvalue]
  · simp [hpre, hvalue]

/-- Storing something in one child does not touch its siblings. -/
theorem presencePut_child (ref : Ref) (k k' : String) {value : Tree}
    (hvalue : value.has [] = true) :
    presencePut (ref ++ [k]) (ref ++ [k']) value = if k' = k then some true else none := by
  by_cases h : k' = k
  · rw [if_pos h, h]
    exact presencePut_within (List.prefix_refl _) hvalue
  · rw [if_neg h]
    simp [presencePut, h, Ne.symm h]

/-- A write that only stores something at or below the path makes it present. -/
theorem presence_target_within {p : Ref} {w : Write} (hne : w.puts ≠ [])
    (h : ∀ e ∈ w.puts, p <+: e.1 ∧ e.2.has [] = true) : (presence p).target w = some true := by
  have hput : ∀ e ∈ w.puts, presencePut p e.1 e.2 = some true :=
    fun e he => presencePut_within (h e he).1 (h e he).2
  obtain ⟨e, he⟩ := List.exists_mem_of_ne_nil _ hne
  refine presence_target_eq (fun e he y hy => ?_) ⟨e, he, hput e he⟩
  rw [hput e he] at hy
  exact (Option.some.inj hy).symm

/-- **What a write makes of whether anything is stored at a path.** -/
theorem has_apply {p : Ref} {w : Write} (hw : w.KeepsBelow p) (t : Tree) :
    (w.apply t).has p = (presence p).update (t.has p) w := by
  rw [Write.apply_eq_puts, presence_update]
  unfold Write.KeepsBelow at hw
  generalize w.puts = puts at hw
  induction puts generalizing t with
  | nil => rfl
  | cons e rest ih =>
    rw [List.foldl_cons, List.foldl_cons, ← has_put t (hw e (by simp)),
      ih (t.put e.1 e.2) fun e' he' => hw e' (by simp [he'])]

theorem presence_follows {Client Op Request Callback Response Id : Type}
    {P : Protocol Client Op Tree Write Request Callback Response Id}
    (hP : P.apply = Write.apply) (p : Ref) :
    (presence p).Follows P (Write.KeepsBelow p) := by
  intro w hw st
  rw [hP]
  exact has_apply hw st

end TeamUp
