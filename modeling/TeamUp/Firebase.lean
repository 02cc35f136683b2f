import TeamUp.PathTree
import Mathlib.Data.Rat.Defs

/-!
# The realtime database

The database is a tree of string keys over four kinds of values.  References are
key paths; `setValue`, `updateChildValues` and `removeValue` replace subtrees,
and a node without content does not exist (`FChildrenNode.updateImmediateChild`).

Snapshots are read back through `FChildrenNode.val`, which turns a node whose
keys are all small integers into an array; a cast to a dictionary then fails.
Every key given to `child` is a legal key, so a reference is a list of keys.
-/

namespace TeamUp

inductive Leaf where
  | str (value : String)
  | int (value : Int)
  | double (value : Rat)
  | bool (value : Bool)
deriving DecidableEq

abbrev Tree := PathTree String Leaf

abbrev Ref := List String

/-- A dictionary literal, or what is left of one after `as? [String : Any]`. -/
abbrev Dictionary := List (String × Tree)

namespace Dictionary

/-- `dictionary[key] = value` -/
def set (values : Dictionary) (key : String) (value : Tree) : Dictionary :=
  (key, value) :: values.filter fun e => e.1 ≠ key

/-- The dictionary a loop fills with one entry for each element. -/
def collect {α : Type} (entry : α → String × Tree) (xs : List α) : Dictionary :=
  xs.foldl (fun d x => Dictionary.set d (entry x).1 (entry x).2) []

theorem nodup_set {values : Dictionary} (h : (values.map Prod.fst).Nodup) (key : String)
    (value : Tree) : ((values.set key value).map Prod.fst).Nodup := by
  simp only [set, List.map_cons, List.nodup_cons, List.mem_map, List.mem_filter]
  refine ⟨?_, h.sublist (List.filter_sublist.map _)⟩
  rintro ⟨e, ⟨-, hne⟩, rfl⟩
  simp at hne

theorem mem_set {values : Dictionary} {key : String} {value : Tree} {e : String × Tree} :
    e ∈ values.set key value ↔ e = (key, value) ∨ e ∈ values ∧ e.1 ≠ key := by
  simp [set]

variable {α : Type} {entry : α → String × Tree}

theorem collect_append (xs : List α) (x : α) :
    collect entry (xs ++ [x]) = (collect entry xs).set (entry x).1 (entry x).2 := by
  simp [collect]

theorem nodup_collect (xs : List α) : ((collect entry xs).map Prod.fst).Nodup := by
  induction xs using List.reverseRecOn with
  | nil => exact List.nodup_nil
  | append_singleton xs x ih =>
    rw [collect_append]
    exact nodup_set ih _ _

theorem mem_of_mem_collect {xs : List α} {e : String × Tree} (h : e ∈ collect entry xs) :
    ∃ x ∈ xs, e = entry x := by
  induction xs using List.reverseRecOn with
  | nil => cases h
  | append_singleton xs x ih =>
    rw [collect_append, mem_set] at h
    rcases h with rfl | ⟨hmem, -⟩
    · exact ⟨x, by simp, rfl⟩
    · obtain ⟨y, hy, heq⟩ := ih hmem
      exact ⟨y, by simp [hy], heq⟩

theorem key_mem_collect {xs : List α} {x : α} (hx : x ∈ xs) :
    (entry x).1 ∈ (collect entry xs).map Prod.fst := by
  induction xs using List.reverseRecOn with
  | nil => cases hx
  | append_singleton xs y ih =>
    rw [collect_append]
    by_cases hkey : (entry x).1 = (entry y).1
    · exact List.mem_map.mpr ⟨_, mem_set.mpr (Or.inl rfl), hkey.symm⟩
    · have hold : x ∈ xs := by
        rcases List.mem_append.mp hx with h | h
        · exact h
        · exact (hkey (by rw [List.mem_singleton.mp h])).elim
      obtain ⟨e, he, hkey'⟩ := List.mem_map.mp (ih hold)
      exact List.mem_map.mpr ⟨e, mem_set.mpr (Or.inr ⟨he, hkey' ▸ hkey⟩), hkey'⟩

/-- An element is found under its key if the others with that key have the same entry. -/
theorem lookup_collect (entry : α → String × Tree) {xs : List α} {x : α} (hx : x ∈ xs)
    (hsame : ∀ y ∈ xs, (entry y).1 = (entry x).1 → entry y = entry x) :
    (collect entry xs).lookup (entry x).1 = some (entry x).2 := by
  cases hlookup : (collect entry xs).lookup (entry x).1 with
  | none =>
    obtain ⟨e, he, hkey⟩ := List.mem_map.mp (key_mem_collect hx)
    have hne := List.lookup_eq_none_iff.mp hlookup e he
    simp [hkey] at hne
  | some n =>
    obtain ⟨l₁, l₂, hsplit, -⟩ := List.lookup_eq_some_iff.mp hlookup
    have hmem : ((entry x).1, n) ∈ collect entry xs := by rw [hsplit]; simp
    obtain ⟨y, hy, hentry⟩ := mem_of_mem_collect hmem
    have heq := hsame y hy (congrArg Prod.fst hentry).symm
    rw [heq] at hentry
    exact congrArg some (congrArg Prod.snd hentry)

theorem lookup_of_mem {values : Dictionary} (h : (values.map Prod.fst).Nodup)
    {e : String × Tree} (he : e ∈ values) : values.lookup e.1 = some e.2 := by
  induction values with
  | nil => cases he
  | cons e' rest ih =>
    rw [List.map_cons, List.nodup_cons] at h
    rcases List.mem_cons.mp he with rfl | hrest
    · exact List.lookup_cons_self
    · have hne : e.1 ≠ e'.1 := fun heq => h.1 (heq ▸ List.mem_map.mpr ⟨e, hrest, rfl⟩)
      rw [show e' = (e'.1, e'.2) from rfl, List.lookup_cons, beq_eq_false_iff_ne.mpr hne]
      exact ih h.2 hrest

theorem lookup_filter_ne {values : Dictionary} {key k : String} (h : key ≠ k) :
    (values.filter fun e => e.1 ≠ k).lookup key = values.lookup key := by
  induction values with
  | nil => rfl
  | cons e rest ih =>
    obtain ⟨k', value⟩ := e
    by_cases he : k' = k
    · subst he
      rw [List.filter_cons_of_neg (by simp), ih, List.lookup_cons, beq_eq_false_iff_ne.mpr h]
    · rw [List.filter_cons_of_pos (by simpa using he), List.lookup_cons, List.lookup_cons, ih]

theorem lookup_set (values : Dictionary) (k : String) (value : Tree) (key : String) :
    (values.set k value).lookup key = if key = k then some value else values.lookup key := by
  rw [set, List.lookup_cons]
  split_ifs with h
  · rw [beq_iff_eq.mpr h]
  · rw [beq_eq_false_iff_ne.mpr h, lookup_filter_ne h]

/-- The last element with a key is found under it. -/
theorem lookup_collect_last (entry : α → String × Tree) (xs : List α) (key : String) :
    (collect entry xs).lookup key =
      (xs.reverse.find? fun x => (entry x).1 == key).map fun x => (entry x).2 := by
  induction xs using List.reverseRecOn with
  | nil => rfl
  | append_singleton xs x ih =>
    rw [collect_append, lookup_set, ih, List.reverse_append, List.reverse_singleton,
      List.singleton_append, List.find?_cons]
    split_ifs with h
    · rw [beq_iff_eq.mpr h.symm, Option.map_some]
    · rw [beq_eq_false_iff_ne.mpr (Ne.symm h)]

/-- A key no element has is not found. -/
theorem lookup_collect_none (entry : α → String × Tree) {xs : List α} {key : String}
    (h : ∀ x ∈ xs, (entry x).1 ≠ key) : (collect entry xs).lookup key = none := by
  refine List.lookup_eq_none_iff.mpr fun e he => ?_
  obtain ⟨x, hx, rfl⟩ := mem_of_mem_collect he
  simpa using Ne.symm (h x hx)

end Dictionary

namespace Tree

def str (value : String) : Tree := .leaf (.str value)
def int (value : Int) : Tree := .leaf (.int value)
def double (value : Rat) : Tree := .leaf (.double value)
def bool (value : Bool) : Tree := .leaf (.bool value)

/-- The node a dictionary literal is stored as. -/
def ofDictionary (values : Dictionary) : Tree :=
  values.foldl (fun t e => t.put [e.1] e.2) .empty

/-- The subscript `dictionary[key]`; an absent key gives the empty node. -/
abbrev get (dictionary : Tree) (key : String) : Tree := dictionary.child key

/-! ### Casts of snapshot values -/

/-- `as? String` -/
def asString (t : Tree) : Option String :=
  match t.leafAt [] with
  | some (.str value) => some value
  | _ => none

theorem asString_congr {t t' : Tree} (h : t.leafAt [] = t'.leafAt []) :
    t.asString = t'.asString := by
  simp only [asString, h]

/-- `as? Int`, which accepts every number that is an integer. -/
def asInt (t : Tree) : Option Int :=
  match t.leafAt [] with
  | some (.int value) => some value
  | some (.double value) => if value.den = 1 then some value.num else none
  | some (.bool value) => some (if value then 1 else 0)
  | _ => none

/-- `as? Bool`, which accepts the numbers 0 and 1. -/
def asBool (t : Tree) : Option Bool :=
  match t.leafAt [] with
  | some (.bool value) => some value
  | some (.int value) => if value = 1 then some true else if value = 0 then some false else none
  | some (.double value) =>
      if value = 1 then some true else if value = 0 then some false else none
  | _ => none

/-- `FUtilities.intForString`, after the test for leading zeroes. -/
def integerKey (key : String) : Option Nat :=
  match key.toList with
  | [] => none
  | '0' :: _ :: _ => none
  | digits =>
      if digits.all Char.isDigit then
        some (digits.foldl (fun n c => 10 * n + (c.toNat - '0'.toNat)) 0)
      else none

/-- A generated key is not an integer. -/
theorem integerKey_of_hyphen {key : String} (h : key.toList.contains '-' = true) :
    integerKey key = none := by
  have hmem : '-' ∈ key.toList := by simpa using h
  unfold integerKey
  split
  · rfl
  · rfl
  · rw [if_neg]
    intro hall
    have hdigit : Char.isDigit '-' = true := List.all_eq_true.mp hall '-' hmem
    exact absurd hdigit (by decide)

/-- The node is exported as an array: every key is an integer, and the largest
    one is below twice their number. -/
def exportsArray (t : Tree) : Bool :=
  t.keys.all (fun k => (integerKey k).isSome) &&
    decide ((t.keys.filterMap integerKey).foldl max 0 < 2 * t.keys.length)

/-- `as? [String : Any]` and `as? NSDictionary`: there is a value, it is not a
    leaf, and it is not exported as an array. -/
def asDictionary (t : Tree) : Option Tree :=
  if t.isEmpty || (t.leafAt []).isSome || t.exportsArray then none else some t

theorem asString_eq_some {t : Tree} {value : String} :
    t.asString = some value ↔ t.leafAt [] = some (.str value) := by
  unfold asString
  split
  · rename_i v hv
    rw [hv, Option.some.injEq, Option.some.injEq, Leaf.str.injEq]
  · rename_i hother
    constructor
    · intro h
      cases h
    · exact fun h => (hother value h).elim

theorem asDictionary_eq_some {t u : Tree} (h : t.asDictionary = some u) : u = t := by
  unfold asDictionary at h
  split at h
  · cases h
  · exact (Option.some.inj h).symm

/-- A node with these keys is exported as an array. -/
def indexes (keys : List String) : Bool :=
  keys.all (fun k => (integerKey k).isSome) &&
    decide ((keys.filterMap integerKey).foldl max 0 < 2 * keys.length)

theorem indexes_perm {keys keys' : List String} (h : keys.Perm keys') :
    indexes keys = indexes keys' := by
  have hmax : (keys.filterMap integerKey).foldl max 0 =
      (keys'.filterMap integerKey).foldl max 0 :=
    (h.filterMap _).foldl_eq' (fun m _ n _ k => Nat.max_right_comm k m n) 0
  rw [indexes, indexes, h.all_eq, hmax, h.length_eq]

theorem exportsArray_congr {t u : Tree} (h : PathTree.Same t u) :
    t.exportsArray = u.exportsArray := indexes_perm h.keys_perm

/-- Whether a node is cast to a dictionary does not depend on how it is enumerated. -/
theorem asDictionary_congr {t u : Tree} (h : PathTree.Same t u) :
    t.asDictionary = none ∧ u.asDictionary = none ∨
      t.asDictionary = some t ∧ u.asDictionary = some u := by
  simp only [asDictionary, h.isEmpty, h.leafAt, exportsArray_congr h]
  split
  · exact Or.inl ⟨rfl, rfl⟩
  · exact Or.inr ⟨rfl, rfl⟩

theorem asDictionary_of_indexes {t : Tree} {names : List String} (hkeys : t.keys.Perm names)
    (hindexes : indexes names = true) : t.asDictionary = none := by
  have harray : t.exportsArray = true := (indexes_perm hkeys).trans hindexes
  simp [asDictionary, harray]

theorem asDictionary_of_names {t : Tree} {names : List String} (hroot : t.leafAt [] = none)
    (hkeys : t.keys.Perm names) (hne : names ≠ []) (hindexes : indexes names = false) :
    t.asDictionary = some t := by
  have harray : t.exportsArray = false := (indexes_perm hkeys).trans hindexes
  have hempty : t.isEmpty = false := by
    refine Bool.eq_false_iff.mpr fun htrue => ?_
    obtain ⟨k, hk⟩ := List.exists_mem_of_ne_nil names hne
    obtain ⟨q, hq⟩ := PathTree.has_iff_leafAt.mp (PathTree.mem_keys.mp (hkeys.mem_iff.mpr hk))
    exact hq (PathTree.isEmpty_iff.mp htrue _)
  simp [asDictionary, harray, hempty, hroot]

/-- A node with a key that is not an integer is a dictionary. -/
theorem asDictionary_of_key {t : Tree} {k : String} (hroot : t.leafAt [] = none)
    (hk : k ∈ t.keys) (hint : integerKey k = none) : t.asDictionary = some t := by
  have hindexes : indexes t.keys = false := by
    simp only [indexes, Bool.and_eq_false_iff, List.all_eq_false]
    exact Or.inl ⟨k, hk, by simp [hint]⟩
  exact asDictionary_of_names hroot (List.Perm.refl _) (List.ne_nil_of_mem hk) hindexes

/-- What is cast to a dictionary has keys, which are not the indexes of an array. -/
theorem indexes_of_asDictionary {t dictionary : Tree} (h : t.asDictionary = some dictionary) :
    dictionary.keys ≠ [] ∧ indexes dictionary.keys = false := by
  obtain rfl := asDictionary_eq_some h
  unfold asDictionary at h
  split at h
  · cases h
  · rename_i hcast
    simp only [Bool.or_eq_true, not_or, Bool.not_eq_true] at hcast
    obtain ⟨⟨hempty, hroot⟩, harray⟩ := hcast
    refine ⟨fun hkeys => ?_, harray⟩
    refine Bool.eq_false_iff.mp hempty (PathTree.isEmpty_iff.mpr fun p => ?_)
    cases p with
    | nil => exact Option.isNone_iff_eq_none.mp (Option.isSome_eq_false_iff.mp hroot)
    | cons k q =>
      by_contra hleaf
      have hk : k ∈ dictionary.keys :=
        PathTree.mem_keys.mpr (PathTree.has_iff_leafAt.mpr ⟨q, hleaf⟩)
      rw [hkeys] at hk
      cases hk

@[simp] theorem leafAt_str (s : String) : (str s).leafAt [] = some (.str s) := rfl

@[simp] theorem leafAt_int (n : Int) : (int n).leafAt [] = some (.int n) := rfl

@[simp] theorem leafAt_bool (b : Bool) : (bool b).leafAt [] = some (.bool b) := rfl

@[simp] theorem asString_str (s : String) : (str s).asString = some s := rfl

end Tree

/-! ### Writes -/

inductive Write where
  | setValue (ref : Ref) (value : Tree)
  | updateChildValues (ref : Ref) (values : Dictionary)
  | removeValue (ref : Ref)
deriving DecidableEq

namespace Write

def ref : Write → Ref
  | .setValue ref _ => ref
  | .updateChildValues ref _ => ref
  | .removeValue ref => ref

def apply : Write → Tree → Tree
  | .setValue ref value, t => t.put ref value
  | .updateChildValues ref values, t =>
      values.foldl (fun t e => t.put (ref ++ [e.1]) e.2) t
  | .removeValue ref, t => t.put ref .empty

variable {t : Tree} {q ref : Ref}

/-- **Frame rule.**  A write leaves every path beside its reference alone. -/
theorem leafAt_apply_beside (w : Write) (h : Incomparable w.ref q) :
    (w.apply t).leafAt q = t.leafAt q := by
  cases w with
  | setValue ref value => exact PathTree.leafAt_put_beside t value h
  | updateChildValues ref values =>
    simp only [apply]
    induction values generalizing t with
    | nil => rfl
    | cons e rest ih =>
      rw [List.foldl_cons, ih h,
        PathTree.leafAt_put_beside t e.2 (h.of_prefix (List.prefix_append ref [e.1]))]
  | removeValue ref => exact PathTree.leafAt_put_beside t .empty h

theorem has_apply_beside (w : Write) (h : Incomparable w.ref q) :
    (w.apply t).has q = t.has q := by
  have hext : ∀ r, Incomparable w.ref (q ++ r) := fun r =>
    (h.symm.of_prefix (List.prefix_append q r)).symm
  apply Bool.eq_iff_iff.mpr
  simp only [PathTree.has_iff_leafAt, leafAt_apply_beside w (hext _)]

/-- Updating children does not touch a child that is not named. -/
theorem leafAt_update_other {values : Dictionary} {k : String}
    (hk : k ∉ values.map Prod.fst) (r : Ref) :
    ((updateChildValues ref values).apply t).leafAt (ref ++ k :: r) =
      t.leafAt (ref ++ k :: r) := by
  simp only [apply]
  induction values generalizing t with
  | nil => rfl
  | cons e rest ih =>
    simp only [List.map_cons, List.mem_cons, not_or] at hk
    have hbeside : Incomparable (ref ++ [e.1]) (ref ++ k :: r) := by
      rw [Incomparable.append_left]
      simp [Incomparable, hk.1, Ne.symm hk.1]
    rw [List.foldl_cons, ih hk.2, PathTree.leafAt_put_beside t e.2 hbeside]

/-- Updating children replaces each child that is named. -/
theorem leafAt_update_named {values : Dictionary} (hnodup : (values.map Prod.fst).Nodup)
    {k : String} {n : Tree} (hmem : (k, n) ∈ values) (r : Ref) :
    ((updateChildValues ref values).apply t).leafAt (ref ++ k :: r) = n.leafAt r := by
  simp only [apply]
  induction values generalizing t with
  | nil => cases hmem
  | cons e rest ih =>
    simp only [List.map_cons, List.nodup_cons] at hnodup
    rcases List.mem_cons.mp hmem with rfl | hrest
    · have hother : ((updateChildValues ref rest).apply (t.put (ref ++ [k]) n)).leafAt
          (ref ++ k :: r) = (t.put (ref ++ [k]) n).leafAt (ref ++ k :: r) :=
        leafAt_update_other hnodup.1 r
      have hsplit : ref ++ k :: r = (ref ++ [k]) ++ r := by simp
      simp only [apply] at hother
      rw [List.foldl_cons, hother, hsplit, PathTree.leafAt_put_below]
    · exact ih hnodup.2 hrest

/-- Updating children with what they are changes nothing. -/
theorem same_update {values : Dictionary}
    (h : ∀ e ∈ values, PathTree.Same (t.sub (ref ++ [e.1])) e.2 ∧ e.2.has [] = true) :
    PathTree.Same ((updateChildValues ref values).apply t) t := by
  simp only [apply]
  induction values generalizing t with
  | nil => exact PathTree.Same.refl t
  | cons e rest ih =>
    have hfirst := PathTree.same_put (h e (by simp)).1 (h e (by simp)).2
    refine (ih fun e' he' => ?_).trans hfirst
    obtain ⟨hsame, hsome⟩ := h e' (by simp [he'])
    exact ⟨(hfirst.sub _).trans hsame, hsome⟩

theorem leafAt_update_of_lookup {values : Dictionary} (hnodup : (values.map Prod.fst).Nodup)
    {k : String} {n : Tree} (h : values.lookup k = some n) (r : Ref) :
    ((updateChildValues ref values).apply t).leafAt (ref ++ k :: r) = n.leafAt r := by
  obtain ⟨l₁, l₂, hvalues, -⟩ := List.lookup_eq_some_iff.mp h
  exact leafAt_update_named hnodup (by rw [hvalues]; simp) r

theorem leafAt_update_of_lookup_none {values : Dictionary} {k : String}
    (h : values.lookup k = none) (r : Ref) :
    ((updateChildValues ref values).apply t).leafAt (ref ++ k :: r) =
      t.leafAt (ref ++ k :: r) := by
  refine leafAt_update_other (fun hk => ?_) r
  obtain ⟨e, he, rfl⟩ := List.mem_map.mp hk
  simpa using List.lookup_eq_none_iff.mp h e he

/-- What a path below the reference holds after updating children. -/
theorem leafAt_update {values : Dictionary} (hnodup : (values.map Prod.fst).Nodup)
    (k : String) (r : Ref) :
    ((updateChildValues ref values).apply t).leafAt (ref ++ k :: r) =
      match values.lookup k with
      | some n => n.leafAt r
      | none => t.leafAt (ref ++ k :: r) := by
  cases h : values.lookup k with
  | none => exact leafAt_update_of_lookup_none h r
  | some n => exact leafAt_update_of_lookup hnodup h r

end Write

namespace Tree

theorem ofDictionary_eq_apply (values : Dictionary) :
    ofDictionary values = (Write.updateChildValues [] values).apply .empty := rfl

theorem leafAt_ofDictionary {values : Dictionary} (hnodup : (values.map Prod.fst).Nodup)
    (k : String) (r : Ref) :
    (ofDictionary values).leafAt (k :: r) =
      match values.lookup k with
      | some n => n.leafAt r
      | none => none := by
  have h : ((Write.updateChildValues [] values).apply .empty).leafAt ([] ++ k :: r) = _ :=
    Write.leafAt_update hnodup k r
  simpa [ofDictionary_eq_apply] using h

theorem leafAt_ofDictionary_nil (values : Dictionary) : (ofDictionary values).leafAt [] = none := by
  suffices h : ∀ t : Tree, t.leafAt [] = none →
      (values.foldl (fun t e => t.put [e.1] e.2) t).leafAt [] = none from h .empty rfl
  induction values with
  | nil => exact fun _ ht => ht
  | cons e rest ih =>
    refine fun t ht => ih _ (PathTree.leafAt_eq_none.mpr fun v hv => ?_)
    rcases PathTree.mem_put.mp hv with ⟨hold, -, -⟩ | ⟨r, hr, -⟩
    · exact PathTree.leafAt_eq_none.mp ht v hold
    · cases hr

end Tree

/-! ### Reads -/

/-- What a single-event observer is attached to: a reference, or its children
    ordered by one of their values and equal to a given string. -/
inductive Query where
  | value (ref : Ref)
  | equal (ref : Ref) (child : String) (content : String)
deriving DecidableEq

namespace Query

def snapshot : Query → Tree → Tree
  | .value ref, db => db.sub ref
  | .equal ref child content, db =>
      (db.sub ref).filterKeys fun k => db.leafAt (ref ++ [k, child]) = some (.str content)

/-- A snapshot carries the answer's leaves; its dictionaries are enumerated in
    whatever order. -/
def answers (q : Query) (db : Tree) (snapshot : Tree) : Bool :=
  decide (PathTree.Same snapshot (q.snapshot db))

end Query

end TeamUp
