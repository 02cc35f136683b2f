import Mathlib.Data.List.Dedup
import Mathlib.Data.List.Infix
import Mathlib.Data.List.Pairwise

/-!
# Path-addressed trees

A hierarchical store is determined by its leaves: an inner node exists exactly
when some leaf lies below it, so an emptied node disappears by itself.  A
`PathTree` is therefore a finite list of leaves with their paths, and carries
the proof that no leaf lies at, above or below another one.

Reading and writing at a path are characterised through membership of leaves
(`mem_sub`, `mem_put`) and through `leafAt`; whether anything is stored at or
below a path is `has`.
-/

namespace TeamUp

/-- Of two elements of a list one comes before the other. -/
theorem pair_sublist {α : Type} {l : List α} {x y : α} (hx : x ∈ l) (hy : y ∈ l) (hne : x ≠ y) :
    [x, y].Sublist l ∨ [y, x].Sublist l := by
  obtain ⟨before, after, rfl⟩ := List.append_of_mem hx
  have hx' : [x].Sublist (x :: after) := List.singleton_sublist.mpr List.mem_cons_self
  rcases List.mem_append.mp hy with hbefore | hafter
  · right
    exact (List.singleton_sublist.mpr hbefore).append hx'
  · left
    have hrest : y ∈ after := (List.mem_cons.mp hafter).resolve_left hne.symm
    exact ((List.singleton_sublist.mpr hrest).cons_cons x).trans (List.sublist_append_right _ _)

/-- Neither path is a prefix of the other. -/
def Incomparable {κ : Type} (p q : List κ) : Prop := ¬ p <+: q ∧ ¬ q <+: p

instance {κ : Type} [DecidableEq κ] (p q : List κ) : Decidable (Incomparable p q) :=
  inferInstanceAs (Decidable (¬ p <+: q ∧ ¬ q <+: p))

theorem Incomparable.symm {κ : Type} {p q : List κ} (h : Incomparable p q) :
    Incomparable q p := ⟨h.2, h.1⟩

theorem Incomparable.append_left {κ : Type} (r : List κ) {p q : List κ} :
    Incomparable (r ++ p) (r ++ q) ↔ Incomparable p q := by
  simp only [Incomparable, List.prefix_append_right_inj]

/-- A path extending one of two incomparable paths is incomparable to the other. -/
theorem Incomparable.of_prefix {κ : Type} {p p' q : List κ} (h : Incomparable p q)
    (hp : p <+: p') : Incomparable p' q := by
  refine ⟨fun hq => h.1 (hp.trans hq), fun hq => ?_⟩
  rcases List.prefix_or_prefix_of_prefix hp hq with hpq | hqp
  · exact h.1 hpq
  · exact h.2 hqp

/-- A tree given by its leaves. -/
structure PathTree (κ α : Type) where
  leaves : List (List κ × α)
  prefixFree : leaves.Pairwise fun x y => Incomparable x.1 y.1
deriving DecidableEq

namespace PathTree

variable {κ α : Type}

/-! ### Construction and membership -/

def empty : PathTree κ α := ⟨[], List.Pairwise.nil⟩

/-- A single value, without children. -/
def leaf (value : α) : PathTree κ α := ⟨[([], value)], List.pairwise_singleton _ _⟩

def isEmpty (t : PathTree κ α) : Bool := t.leaves.isEmpty

@[simp] theorem leaves_empty : (empty : PathTree κ α).leaves = [] := rfl

@[simp] theorem leaves_leaf (value : α) :
    (leaf value : PathTree κ α).leaves = [([], value)] := rfl

/-- Two leaves on comparable paths are the same leaf. -/
theorem eq_of_prefix {t : PathTree κ α} {x y : List κ × α}
    (hx : x ∈ t.leaves) (hy : y ∈ t.leaves) (hpre : x.1 <+: y.1) : x = y := by
  have hall := List.Pairwise.forall_of_forall_of_flip
    (R := fun x y : List κ × α => x = y ∨ Incomparable x.1 y.1)
    (fun _ _ => Or.inl rfl) (t.prefixFree.imp Or.inr)
    (t.prefixFree.imp fun h => Or.inr h.symm)
  rcases hall hx hy with heq | hinc
  · exact heq
  · exact (hinc.1 hpre).elim

/-- Two trees that hold the same leaves, in whatever order. -/
def Same (t u : PathTree κ α) : Prop := ∀ e, e ∈ t.leaves ↔ e ∈ u.leaves

theorem Same.refl (t : PathTree κ α) : Same t t := fun _ => Iff.rfl

theorem Same.symm {t u : PathTree κ α} (h : Same t u) : Same u t := fun e => (h e).symm

theorem Same.trans {t u v : PathTree κ α} (h : Same t u) (h' : Same u v) : Same t v :=
  fun e => (h e).trans (h' e)

section Lookup

variable [DecidableEq κ]

/-- The value stored at exactly this path. -/
def leafAt (t : PathTree κ α) (p : List κ) : Option α :=
  (t.leaves.find? fun e => e.1 = p).map Prod.snd

theorem leafAt_eq_some {t : PathTree κ α} {p : List κ} {v : α} :
    t.leafAt p = some v ↔ (p, v) ∈ t.leaves := by
  constructor
  · intro h
    obtain ⟨⟨q, w⟩, hfind, rfl⟩ := Option.map_eq_some_iff.mp h
    have hq : q = p := by simpa using List.find?_some hfind
    exact hq ▸ List.mem_of_find?_eq_some hfind
  · intro hmem
    cases hfind : t.leaves.find? fun e => e.1 = p with
    | none =>
      have hnone := List.find?_eq_none.mp hfind _ hmem
      simp at hnone
    | some e =>
      have hp : e.1 = p := by simpa using List.find?_some hfind
      have heq : e = (p, v) :=
        eq_of_prefix (List.mem_of_find?_eq_some hfind) hmem (hp ▸ List.prefix_refl _)
      simp [leafAt, hfind, heq]

/-- Nothing is stored above a leaf. -/
theorem leafAt_above {t : PathTree κ α} {p q : List κ} {v : α}
    (h : t.leafAt (p ++ q) = some v) (hq : q ≠ []) : t.leafAt p = none := by
  cases hp : t.leafAt p with
  | none => rfl
  | some w =>
    have heq := eq_of_prefix (leafAt_eq_some.mp hp) (leafAt_eq_some.mp h) (List.prefix_append p q)
    exact (hq (List.self_eq_append_right.mp (congrArg Prod.fst heq))).elim

theorem leafAt_eq_none {t : PathTree κ α} {p : List κ} :
    t.leafAt p = none ↔ ∀ v, (p, v) ∉ t.leaves := by
  constructor
  · intro h v hv
    rw [leafAt_eq_some.mpr hv] at h
    cases h
  · intro h
    cases hp : t.leafAt p with
    | none => rfl
    | some v => exact (h v (leafAt_eq_some.mp hp)).elim

theorem Same.leafAt {t u : PathTree κ α} (h : Same t u) (p : List κ) :
    t.leafAt p = u.leafAt p := by
  cases hu : u.leafAt p with
  | none => exact leafAt_eq_none.mpr fun v hv => leafAt_eq_none.mp hu v ((h _).mp hv)
  | some v => exact leafAt_eq_some.mpr ((h _).mpr (leafAt_eq_some.mp hu))

theorem same_of_leafAt {t u : PathTree κ α} (h : ∀ p, t.leafAt p = u.leafAt p) : Same t u := by
  rintro ⟨p, v⟩
  rw [← leafAt_eq_some, ← leafAt_eq_some, h]

instance [DecidableEq α] (t u : PathTree κ α) : Decidable (Same t u) :=
  decidable_of_iff ((∀ e ∈ t.leaves, e ∈ u.leaves) ∧ ∀ e ∈ u.leaves, e ∈ t.leaves)
    ⟨fun h e => ⟨h.1 e, h.2 e⟩, fun h => ⟨fun e => (h e).mp, fun e => (h e).mpr⟩⟩

end Lookup

/-! ### Subtrees -/

section Subtrees

variable [DecidableEq κ]

/-- The remainder of a path below another one. -/
def strip (p q : List κ) : Option (List κ) :=
  if p <+: q then some (q.drop p.length) else none

theorem strip_eq_some {p q r : List κ} : strip p q = some r ↔ q = p ++ r := by
  unfold strip
  constructor
  · intro h
    split at h
    · rename_i hpre
      obtain ⟨s, rfl⟩ := hpre
      simpa using h
    · cases h
  · rintro rfl
    simp

/-- The subtree at a path. -/
def sub (t : PathTree κ α) (p : List κ) : PathTree κ α where
  leaves := t.leaves.filterMap fun e => (strip p e.1).map fun q => (q, e.2)
  prefixFree := by
    refine t.prefixFree.filterMap _ ?_
    intro x y hxy x' hx' y' hy'
    obtain ⟨q, hq, rfl⟩ := Option.map_eq_some_iff.mp hx'
    obtain ⟨r, hr, rfl⟩ := Option.map_eq_some_iff.mp hy'
    rw [strip_eq_some.mp hq, strip_eq_some.mp hr] at hxy
    exact (Incomparable.append_left p).mp hxy

theorem mem_sub {t : PathTree κ α} {p q : List κ} {v : α} :
    (q, v) ∈ (t.sub p).leaves ↔ (p ++ q, v) ∈ t.leaves := by
  simp only [sub, List.mem_filterMap, Option.map_eq_some_iff, Prod.mk.injEq, Prod.exists]
  constructor
  · rintro ⟨q', v', hmem, r, hr, rfl, rfl⟩
    exact strip_eq_some.mp hr ▸ hmem
  · intro hmem
    exact ⟨p ++ q, v, hmem, q, strip_eq_some.mpr rfl, rfl, rfl⟩

@[simp] theorem leafAt_sub (t : PathTree κ α) (p q : List κ) :
    (t.sub p).leafAt q = t.leafAt (p ++ q) := by
  cases h : t.leafAt (p ++ q) with
  | none => exact leafAt_eq_none.mpr fun v hv => leafAt_eq_none.mp h v (mem_sub.mp hv)
  | some v => exact leafAt_eq_some.mpr (mem_sub.mpr (leafAt_eq_some.mp h))

theorem strip_append (p q r : List κ) : strip (p ++ q) r = (strip p r).bind (strip q) := by
  cases h : strip (p ++ q) r with
  | some u =>
    obtain rfl := strip_eq_some.mp h
    rw [List.append_assoc, strip_eq_some.mpr rfl]
    exact (strip_eq_some.mpr rfl).symm
  | none =>
    cases hp : strip p r with
    | none => rfl
    | some v =>
      cases hq : strip q v with
      | none => exact hq.symm
      | some u =>
        obtain rfl := strip_eq_some.mp hp
        obtain rfl := strip_eq_some.mp hq
        rw [strip_eq_some.mpr (List.append_assoc p q u).symm] at h
        cases h

theorem sub_sub (t : PathTree κ α) (p q : List κ) : (t.sub p).sub q = t.sub (p ++ q) := by
  simp only [sub, PathTree.mk.injEq, List.filterMap_filterMap]
  congr 1
  funext e
  rw [strip_append]
  cases strip p e.1 <;> rfl

/-- Something is stored at or below the path. -/
def has (t : PathTree κ α) (p : List κ) : Bool := !(t.sub p).isEmpty

theorem has_iff {t : PathTree κ α} {p : List κ} :
    t.has p = true ↔ ∃ q v, (p ++ q, v) ∈ t.leaves := by
  have hempty : (t.sub p).isEmpty = false ↔ ∃ e, e ∈ (t.sub p).leaves := by
    simp [isEmpty, List.eq_nil_iff_forall_not_mem]
  simp only [has, Bool.not_eq_true', hempty, Prod.exists, mem_sub]

theorem has_of_leafAt {t : PathTree κ α} {p q : List κ} {v : α}
    (h : t.leafAt (p ++ q) = some v) : t.has p = true :=
  has_iff.mpr ⟨q, v, leafAt_eq_some.mp h⟩

theorem has_of_append {t : PathTree κ α} {p q : List κ} (h : t.has (p ++ q) = true) :
    t.has p = true := by
  obtain ⟨r, v, hmem⟩ := has_iff.mp h
  rw [List.append_assoc] at hmem
  exact has_iff.mpr ⟨q ++ r, v, hmem⟩

theorem leafAt_of_not_has {t : PathTree κ α} {p : List κ} (h : t.has p = false)
    (q : List κ) : t.leafAt (p ++ q) = none := by
  cases hq : t.leafAt (p ++ q) with
  | none => rfl
  | some v => rw [has_of_leafAt hq] at h; cases h

theorem has_iff_leafAt {t : PathTree κ α} {p : List κ} :
    t.has p = true ↔ ∃ q, t.leafAt (p ++ q) ≠ none := by
  rw [has_iff]
  constructor
  · rintro ⟨q, v, hmem⟩
    exact ⟨q, by simp [leafAt_eq_some.mpr hmem]⟩
  · rintro ⟨q, hne⟩
    obtain ⟨v, hv⟩ := Option.ne_none_iff_exists'.mp hne
    exact ⟨q, v, leafAt_eq_some.mp hv⟩

theorem isEmpty_iff {t : PathTree κ α} : t.isEmpty = true ↔ ∀ p, t.leafAt p = none := by
  simp only [isEmpty, List.isEmpty_iff, List.eq_nil_iff_forall_not_mem, Prod.forall,
    leafAt_eq_none]

@[simp] theorem has_sub (t : PathTree κ α) (p q : List κ) :
    (t.sub p).has q = t.has (p ++ q) := by
  apply Bool.eq_iff_iff.mpr
  simp only [has_iff_leafAt, leafAt_sub, List.append_assoc]

/-- The names of the children of the root. -/
def keys (t : PathTree κ α) : List κ := (t.leaves.filterMap fun e => e.1.head?).dedup

theorem mem_keys {t : PathTree κ α} {k : κ} : k ∈ t.keys ↔ t.has [k] = true := by
  simp only [keys, List.mem_dedup, List.mem_filterMap, has_iff, Prod.exists]
  constructor
  · rintro ⟨p, v, hmem, hhead⟩
    obtain ⟨q, rfl⟩ : ∃ q, p = k :: q := by
      cases p with
      | nil => cases hhead
      | cons k' q => exact ⟨q, by simpa using hhead⟩
    exact ⟨q, v, hmem⟩
  · rintro ⟨q, v, hmem⟩
    exact ⟨k :: q, v, hmem, rfl⟩

def child (t : PathTree κ α) (k : κ) : PathTree κ α := t.sub [k]

@[simp] theorem leafAt_child (t : PathTree κ α) (k : κ) (p : List κ) :
    (t.child k).leafAt p = t.leafAt (k :: p) := leafAt_sub t [k] p

theorem Same.has {t u : PathTree κ α} (h : Same t u) (p : List κ) :
    t.has p = u.has p := by
  apply Bool.eq_iff_iff.mpr
  simp only [has_iff_leafAt, h.leafAt]

theorem Same.mem_keys {t u : PathTree κ α} (h : Same t u) {k : κ} :
    k ∈ t.keys ↔ k ∈ u.keys := by
  rw [PathTree.mem_keys, PathTree.mem_keys, h.has]

theorem Same.keys_perm {t u : PathTree κ α} (h : Same t u) : t.keys.Perm u.keys :=
  (List.perm_ext_iff_of_nodup (List.nodup_dedup _) (List.nodup_dedup _)).mpr fun _ => h.mem_keys

theorem Same.isEmpty {t u : PathTree κ α} (h : Same t u) : t.isEmpty = u.isEmpty := by
  rw [Bool.eq_iff_iff, isEmpty_iff, isEmpty_iff]
  simp only [h.leafAt]

theorem Same.sub {t u : PathTree κ α} (h : Same t u) (p : List κ) : Same (t.sub p) (u.sub p) := by
  refine same_of_leafAt fun q => ?_
  rw [leafAt_sub, leafAt_sub, h.leafAt]

/-- The same tree, enumerated from the leaves below a path on. -/
def startingAt (t : PathTree κ α) (p : List κ) : PathTree κ α where
  leaves := t.leaves.filter (fun e => p <+: e.1) ++ t.leaves.filter fun e => ¬ p <+: e.1
  prefixFree := by
    have hperm := List.filter_append_perm (fun e : List κ × α => decide (p <+: e.1)) t.leaves
    simp only [← decide_not] at hperm
    exact hperm.symm.pairwise t.prefixFree Incomparable.symm

theorem same_startingAt (t : PathTree κ α) (p : List κ) : Same (t.startingAt p) t := by
  intro e
  simp only [startingAt, List.mem_append, List.mem_filter, decide_eq_true_eq]
  tauto

/-- Below `q`, the key the enumeration starts with comes before every other one. -/
theorem pair_sublist_startingAt (t : PathTree κ α) (q : List κ) {k k' : κ} (hne : k' ≠ k)
    (hk : k ∈ ((t.startingAt (q ++ [k])).sub q).keys)
    (hk' : k' ∈ ((t.startingAt (q ++ [k])).sub q).keys) :
    [k, k'].Sublist ((t.startingAt (q ++ [k])).sub q).keys := by
  have hleaves : (t.startingAt (q ++ [k])).leaves.Pairwise fun e e' =>
      q ++ [k] <+: e'.1 → q ++ [k] <+: e.1 := by
    refine List.pairwise_append.mpr ⟨?_, ?_, ?_⟩
    · exact List.pairwise_of_forall_mem_list fun e he _ _ _ =>
        of_decide_eq_true (List.mem_filter.mp he).2
    · exact List.pairwise_of_forall_mem_list fun _ _ e' he' hbelow =>
        (of_decide_eq_true (List.mem_filter.mp he').2 hbelow).elim
    · exact fun e he _ _ _ => of_decide_eq_true (List.mem_filter.mp he).2
  have hchildren : ((t.startingAt (q ++ [k])).sub q).leaves.Pairwise fun e e' =>
      e'.1.head? = some k → e.1.head? = some k := by
    refine hleaves.filterMap _ fun x y hxy x' hx' y' hy' hhead => ?_
    obtain ⟨r, hr, rfl⟩ := Option.map_eq_some_iff.mp hx'
    obtain ⟨r', hr', rfl⟩ := Option.map_eq_some_iff.mp hy'
    rw [strip_eq_some.mp hr, strip_eq_some.mp hr'] at hxy
    simp only [List.prefix_append_right_inj] at hxy
    cases r' with
    | nil => cases hhead
    | cons k'' rest =>
      obtain rfl := Option.some.inj hhead
      obtain ⟨s, rfl⟩ := hxy ⟨rest, rfl⟩
      rfl
  have hkeys : ((t.startingAt (q ++ [k])).sub q).keys.Pairwise fun x y => y = k → x = k := by
    refine List.Pairwise.sublist (List.dedup_sublist _) (hchildren.filterMap _ ?_)
    intro x y hxy x' hx' y' hy' hy
    exact Option.some.inj (hx'.symm.trans (hxy (hy ▸ hy')))
  rcases pair_sublist hk hk' hne.symm with hbefore | hafter
  · exact hbefore
  · exact (hne (List.pairwise_pair.mp (hkeys.sublist hafter) rfl)).elim

end Subtrees

/-! ### Selecting children -/

section Selecting

variable [DecidableEq κ]

/-- The children of the root whose name satisfies `f`. -/
def filterKeys (t : PathTree κ α) (f : κ → Bool) : PathTree κ α where
  leaves := t.leaves.filter fun e => e.1.head?.any f
  prefixFree := t.prefixFree.filter _

omit [DecidableEq κ] in
theorem mem_filterKeys {t : PathTree κ α} {f : κ → Bool} {k : κ} {p : List κ} {v : α} :
    (k :: p, v) ∈ (t.filterKeys f).leaves ↔ (k :: p, v) ∈ t.leaves ∧ f k = true := by
  simp [filterKeys]

theorem leafAt_filterKeys_nil (t : PathTree κ α) (f : κ → Bool) :
    (t.filterKeys f).leafAt [] = none := by
  refine leafAt_eq_none.mpr fun v hv => ?_
  simp [filterKeys] at hv

theorem leafAt_filterKeys (t : PathTree κ α) (f : κ → Bool) (k : κ) (q : List κ) :
    (t.filterKeys f).leafAt (k :: q) = if f k then t.leafAt (k :: q) else none := by
  split
  · rename_i hf
    cases hleaf : t.leafAt (k :: q) with
    | some v => exact leafAt_eq_some.mpr (mem_filterKeys.mpr ⟨leafAt_eq_some.mp hleaf, hf⟩)
    | none =>
      refine leafAt_eq_none.mpr fun v hv => ?_
      exact leafAt_eq_none.mp hleaf v (mem_filterKeys.mp hv).1
  · rename_i hf
    exact leafAt_eq_none.mpr fun v hv => hf (mem_filterKeys.mp hv).2

theorem mem_keys_filterKeys {t : PathTree κ α} {f : κ → Bool} {k : κ} :
    k ∈ (t.filterKeys f).keys ↔ k ∈ t.keys ∧ f k = true := by
  simp only [mem_keys, has_iff, List.cons_append, List.nil_append, mem_filterKeys]
  constructor
  · rintro ⟨p, v, hmem, hk⟩
    exact ⟨⟨p, v, hmem⟩, hk⟩
  · rintro ⟨⟨p, v, hmem⟩, hk⟩
    exact ⟨p, v, hmem, hk⟩

end Selecting

/-! ### Writing -/

section Writing

variable [DecidableEq κ]

/-- Replace what is stored at and below a path.  An empty replacement removes
    it; any other one also displaces a value stored above the path. -/
def put (t : PathTree κ α) (p : List κ) (n : PathTree κ α) : PathTree κ α where
  leaves :=
    t.leaves.filter (fun e => ¬ p <+: e.1 ∧ (n.isEmpty ∨ ¬ e.1 <+: p)) ++
      n.leaves.map fun e => (p ++ e.1, e.2)
  prefixFree := by
    refine List.pairwise_append.mpr ⟨t.prefixFree.filter _, ?_, ?_⟩
    · rw [List.pairwise_map]
      exact n.prefixFree.imp (Incomparable.append_left p).mpr
    · intro x hx y hy
      obtain ⟨e, he, rfl⟩ := List.mem_map.mp hy
      have hne : n.isEmpty = false := by
        simpa [isEmpty] using List.ne_nil_of_mem he
      have hkeep : ¬ p <+: x.1 ∧ ¬ x.1 <+: p := by
        simpa [hne] using (List.mem_filter.mp hx).2
      exact (Incomparable.of_prefix ⟨hkeep.1, hkeep.2⟩ (List.prefix_append p e.1)).symm

theorem mem_put {t n : PathTree κ α} {p q : List κ} {v : α} :
    (q, v) ∈ (t.put p n).leaves ↔
      ((q, v) ∈ t.leaves ∧ ¬ p <+: q ∧ (n.isEmpty = true ∨ ¬ q <+: p)) ∨
        ∃ r, q = p ++ r ∧ (r, v) ∈ n.leaves := by
  simp only [put, List.mem_append, List.mem_filter, List.mem_map, decide_eq_true_eq,
    Prod.mk.injEq, Prod.exists]
  refine or_congr Iff.rfl ⟨?_, ?_⟩
  · rintro ⟨r, w, hmem, rfl, rfl⟩
    exact ⟨r, rfl, hmem⟩
  · rintro ⟨r, rfl, hmem⟩
    exact ⟨r, v, hmem, rfl, rfl⟩

theorem Same.put {t u : PathTree κ α} (h : Same t u) (p : List κ) (n : PathTree κ α) :
    Same (t.put p n) (u.put p n) := by
  rintro ⟨q, v⟩
  rw [mem_put, mem_put, h (q, v)]

/-- What is put at one of two paths apart is not affected by what is put at the other. -/
theorem mem_put_of_incomparable {t n m : PathTree κ α} {p q x : List κ} {v : α}
    (h : Incomparable p q) :
    (x, v) ∈ ((t.put p n).put q m).leaves ↔
      ((x, v) ∈ t.leaves ∧ (¬ p <+: x ∧ (n.isEmpty = true ∨ ¬ x <+: p)) ∧
        ¬ q <+: x ∧ (m.isEmpty = true ∨ ¬ x <+: q)) ∨
      (∃ r, x = p ++ r ∧ (r, v) ∈ n.leaves) ∨ ∃ r, x = q ++ r ∧ (r, v) ∈ m.leaves := by
  have hapart : ∀ r, ¬ q <+: p ++ r ∧ ¬ p ++ r <+: q := by
    intro r
    have hbelow := h.of_prefix (List.prefix_append p r)
    exact ⟨hbelow.2, hbelow.1⟩
  have hkept : (∃ r, x = p ++ r ∧ (r, v) ∈ n.leaves) → ¬ q <+: x ∧ ¬ x <+: q := by
    rintro ⟨r, rfl, -⟩
    exact hapart r
  rw [mem_put, mem_put]
  generalize (∃ r, x = p ++ r ∧ (r, v) ∈ n.leaves) = first at hkept ⊢
  generalize (∃ r, x = q ++ r ∧ (r, v) ∈ m.leaves) = second
  tauto

/-- **Puts at paths apart commute.** -/
theorem put_comm (t n m : PathTree κ α) {p q : List κ} (h : Incomparable p q) :
    Same ((t.put p n).put q m) ((t.put q m).put p n) := by
  rintro ⟨x, v⟩
  rw [mem_put_of_incomparable h, mem_put_of_incomparable h.symm]
  exact or_congr (and_congr_right fun _ => and_comm) or_comm

/-- Below the written path only the new content is found. -/
@[simp] theorem leafAt_put_below (t n : PathTree κ α) (p r : List κ) :
    (t.put p n).leafAt (p ++ r) = n.leafAt r := by
  cases hr : n.leafAt r with
  | none =>
    refine leafAt_eq_none.mpr fun v hv => ?_
    rcases mem_put.mp hv with ⟨-, hpre, -⟩ | ⟨r', heq, hmem⟩
    · exact hpre (List.prefix_append p r)
    · rw [List.append_cancel_left heq] at hr
      exact leafAt_eq_none.mp hr v hmem
  | some v => exact leafAt_eq_some.mpr (mem_put.mpr (Or.inr ⟨r, rfl, leafAt_eq_some.mp hr⟩))

/-- A write does not change what is stored on a path beside it. -/
theorem leafAt_put_beside (t n : PathTree κ α) {p q : List κ} (h : Incomparable p q) :
    (t.put p n).leafAt q = t.leafAt q := by
  have hkeep : ∀ v, (q, v) ∈ (t.put p n).leaves ↔ (q, v) ∈ t.leaves := by
    intro v
    rw [mem_put]
    constructor
    · rintro (⟨hmem, -⟩ | ⟨r, rfl, -⟩)
      · exact hmem
      · exact (h.1 (List.prefix_append p r)).elim
    · exact fun hmem => Or.inl ⟨hmem, h.1, Or.inr h.2⟩
  cases hq : t.leafAt q with
  | none => exact leafAt_eq_none.mpr fun v hv => leafAt_eq_none.mp hq v ((hkeep v).mp hv)
  | some v => exact leafAt_eq_some.mpr ((hkeep v).mpr (leafAt_eq_some.mp hq))

/-- What a write leaves at a path depends on nothing else than what was there. -/
theorem leafAt_put_congr {t u : PathTree κ α} {q : List κ} (h : t.leafAt q = u.leafAt q)
    (p : List κ) (n : PathTree κ α) : (t.put p n).leafAt q = (u.put p n).leafAt q := by
  have hmem : ∀ v, (q, v) ∈ t.leaves ↔ (q, v) ∈ u.leaves := fun v => by
    rw [← leafAt_eq_some, ← leafAt_eq_some, h]
  refine Option.ext fun v => ?_
  rw [leafAt_eq_some, leafAt_eq_some, mem_put, mem_put, hmem]

theorem has_put_below (t n : PathTree κ α) (p r : List κ) :
    (t.put p n).has (p ++ r) = n.has r := by
  apply Bool.eq_iff_iff.mpr
  simp only [has_iff_leafAt, List.append_assoc, leafAt_put_below]

@[simp] theorem has_put_self (t n : PathTree κ α) (p : List κ) :
    (t.put p n).has p = n.has [] := by
  simpa using has_put_below t n p []

theorem has_put_beside (t n : PathTree κ α) {p q : List κ} (h : Incomparable p q) :
    (t.put p n).has q = t.has q := by
  have hext : ∀ r, Incomparable p (q ++ r) := fun r =>
    (h.symm.of_prefix (List.prefix_append q r)).symm
  apply Bool.eq_iff_iff.mpr
  simp only [has_iff_leafAt, leafAt_put_beside t n (hext _)]

/-- A write of something below a path leaves something stored there. -/
theorem has_put_above (t : PathTree κ α) {n : PathTree κ α} (q r : List κ)
    (hn : n.has [] = true) : (t.put (q ++ r) n).has q = true := by
  obtain ⟨s, hs⟩ := has_iff_leafAt.mp hn
  refine has_iff_leafAt.mpr ⟨r ++ s, ?_⟩
  rw [← List.append_assoc, leafAt_put_below]
  exact hs

/-- A write of what is stored there already changes nothing. -/
theorem same_put {t n : PathTree κ α} {p : List κ} (h : Same (t.sub p) n)
    (hn : n.has [] = true) : Same (t.put p n) t := by
  obtain ⟨s, hs⟩ := has_iff_leafAt.mp hn
  obtain ⟨v, hv⟩ := Option.ne_none_iff_exists'.mp hs
  rw [List.nil_append] at hv
  refine same_of_leafAt fun q => ?_
  by_cases hbelow : p <+: q
  · obtain ⟨r, rfl⟩ := hbelow
    rw [leafAt_put_below, ← h.leafAt, leafAt_sub]
  · by_cases habove : q <+: p
    · obtain ⟨r, rfl⟩ := habove
      have hr : r ++ s ≠ [] := fun hnil => hbelow (by simp [(List.append_eq_nil_iff.mp hnil).1])
      have hbefore : t.leafAt (q ++ (r ++ s)) = some v := by
        rw [← List.append_assoc, ← leafAt_sub, h.leafAt, hv]
      have hafter : (t.put (q ++ r) n).leafAt (q ++ (r ++ s)) = some v := by
        rw [← List.append_assoc, leafAt_put_below, hv]
      rw [leafAt_above hbefore hr, leafAt_above hafter hr]
    · exact leafAt_put_beside t n ⟨hbelow, habove⟩

@[simp] theorem has_empty (p : List κ) : (empty : PathTree κ α).has p = false := rfl

@[simp] theorem leafAt_empty (p : List κ) : (empty : PathTree κ α).leafAt p = none := rfl

@[simp] theorem has_leaf_nil (v : α) : (leaf v : PathTree κ α).has [] = true := rfl

@[simp] theorem leafAt_leaf_nil (v : α) : (leaf v : PathTree κ α).leafAt [] = some v := rfl

@[simp] theorem leafAt_leaf_cons (v : α) (k : κ) (p : List κ) :
    (leaf v : PathTree κ α).leafAt (k :: p) = none := by
  simp [leafAt, leaf]

end Writing

end PathTree

end TeamUp
