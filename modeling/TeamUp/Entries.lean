import TeamUp.Controllers
import TeamUp.Presence

/-!
# Entries of a user in the lists of a game

Who looks for players of a game, and who plays it now, are lists of entries under
generated keys.  A user's entry is found by a query for the name in it, and the first
key of the answer is taken for the only one.
-/

namespace TeamUp

/-- The list has an entry with the name of the user under this key. -/
def Listed (list : Ref) (u : String) (db : Tree) (k : String) : Prop :=
  db.leafAt (list ++ [k, "username"]) = some (.str u)

instance (list : Ref) (u : String) (db : Tree) (k : String) : Decidable (Listed list u db k) :=
  inferInstanceAs (Decidable (_ = _))

/-- The key taken from the answer of a query for the entries of a user. -/
def firstKey (snapshot : Tree) : Option String :=
  (Tree.asDictionary snapshot).bind fun dictionary => dictionary.keys.head?

variable {list : Ref} {u k : String} {db snapshot : Tree}

/-! ### Queries -/

theorem mem_keys_answer (h : (Query.equal list "username" u).answers db snapshot = true)
    {k : String} : k ∈ snapshot.keys ↔ Listed list u db k := by
  have hsame : PathTree.Same snapshot ((Query.equal list "username" u).snapshot db) :=
    of_decide_eq_true h
  rw [hsame.mem_keys, Query.snapshot, PathTree.mem_keys_filterKeys, decide_eq_true_iff]
  refine ⟨fun h => h.2, fun hlisted => ⟨?_, hlisted⟩⟩
  rw [PathTree.mem_keys, PathTree.has_sub]
  refine PathTree.has_of_leafAt (q := ["username"]) (v := .str u) ?_
  rw [List.append_assoc]
  exact hlisted

/-- The entry under a generated key is taken if it is the only one. -/
theorem firstKey_of_only (h : (Query.equal list "username" u).answers db snapshot = true)
    (hk : Listed list u db k) (honly : ∀ k', Listed list u db k' → k' = k)
    (hint : Tree.integerKey k = none) : firstKey snapshot = some k := by
  have hsame : PathTree.Same snapshot ((Query.equal list "username" u).snapshot db) :=
    of_decide_eq_true h
  have hmem : k ∈ snapshot.keys := (mem_keys_answer h).mpr hk
  have hroot : snapshot.leafAt [] = none := by
    rw [hsame.leafAt]
    exact PathTree.leafAt_filterKeys_nil _ _
  rw [firstKey, Tree.asDictionary_of_key hroot hmem hint, Option.bind_some]
  cases hkeys : snapshot.keys with
  | nil =>
    rw [hkeys] at hmem
    cases hmem
  | cons k' rest =>
    have hfirst : Listed list u db k' := (mem_keys_answer h).mp (by rw [hkeys]; simp)
    rw [honly k' hfirst]
    rfl

theorem listed_of_firstKey (h : (Query.equal list "username" u).answers db snapshot = true)
    (hk : firstKey snapshot = some k) : Listed list u db k := by
  obtain ⟨dictionary, hdictionary, hhead⟩ := Option.bind_eq_some_iff.mp hk
  obtain rfl := Tree.asDictionary_eq_some hdictionary
  exact (mem_keys_answer h).mp (List.mem_of_head? hhead)

/-! ### Writes -/

/-- Nothing at or below the reference has changed. -/
def Unchanged (ref : Ref) (db db' : Tree) : Prop :=
  ∀ q, db'.leafAt (ref ++ q) = db.leafAt (ref ++ q)

section Unchanged

variable {ref : Ref} {db' : Tree}

theorem unchanged_of_beside {w : Write} (h : Incomparable w.ref ref) :
    Unchanged ref db (w.apply db) :=
  fun q => (Write.beside_of_ref h).leafAt db q

theorem Unchanged.below (h : Unchanged ref db db') (q : Ref) : Unchanged (ref ++ q) db db' := by
  intro r
  rw [List.append_assoc]
  exact h (q ++ r)

theorem Unchanged.same (h : Unchanged ref db db') : PathTree.Same (db'.sub ref) (db.sub ref) :=
  PathTree.same_of_leafAt fun q => by rw [PathTree.leafAt_sub, PathTree.leafAt_sub, h q]

theorem Unchanged.listed (h : Unchanged list db db') (k : String) :
    Listed list u db' k ↔ Listed list u db k := by
  rw [Listed, h, Listed]

end Unchanged

theorem listed_beside {w : Write} (h : Incomparable w.ref (list ++ [k, "username"])) :
    Listed list u (w.apply db) k ↔ Listed list u db k := by
  rw [Listed, Write.leafAt_apply_beside w h, Listed]

theorem Incomparable.entry {k' : String} (h : k' ≠ k) :
    Incomparable (list ++ [k]) (list ++ [k', "username"]) := by
  rw [Incomparable.append_left]
  simp [Incomparable, h, Ne.symm h]

theorem listed_removeEntry (k' : String) :
    Listed list u ((Write.removeValue (list ++ [k])).apply db) k' ↔
      Listed list u db k' ∧ k' ≠ k := by
  by_cases h : k' = k
  · subst h
    have hgone : ((Write.removeValue (list ++ [k'])).apply db).leafAt
        ((list ++ [k']) ++ ["username"]) = none := by
      rw [Write.apply, PathTree.leafAt_put_below]
      rfl
    rw [List.append_assoc] at hgone
    simp only [Listed, ne_eq, not_true_eq_false, and_false, iff_false]
    intro hlisted
    exact Option.some_ne_none _ (hlisted.symm.trans hgone)
  · rw [listed_beside (Incomparable.entry h), and_iff_left h]

/-- Writing an entry with the name of the user adds it to the list, and changes no other. -/
theorem listed_updateEntry {values : Dictionary} (hnodup : (values.map Prod.fst).Nodup)
    (husername : ("username", Tree.str u) ∈ values) (k' : String) :
    Listed list u ((Write.updateChildValues (list ++ [k]) values).apply db) k' ↔
      k' = k ∨ Listed list u db k' := by
  by_cases h : k' = k
  · subst h
    have hnew : ((Write.updateChildValues (list ++ [k']) values).apply db).leafAt
        ((list ++ [k']) ++ ["username"]) = some (.str u) :=
      Write.leafAt_update_named hnodup husername []
    rw [List.append_assoc] at hnew
    exact iff_of_true hnew (Or.inl rfl)
  · rw [listed_beside (Incomparable.entry h), or_iff_right h]

end TeamUp
