import Mathlib
import TeamUp.InterruptedSetup
import TeamUp.SearchScreens

/-!
# Searching users by the beginning of their names

`searchUsers` looks for a prefix by a range: the search names from the lowercased text to
the text followed by U+F8FF, which is above every letter and digit.  The range is exactly
the prefix.  The users are all handed over, in the order of their names, unless the names
found are the numbers Firebase takes for the indexes of an array, which takes a hundred
thousand of them.
-/

namespace TeamUp

/-! ### Prefixes as ranges -/

section Prefixes

variable {α : Type} [LinearOrder α]

/-- Between a list and its extension by something above all the elements are the lists it is a
    prefix of. -/
theorem prefix_iff_between {p s : List α} {top : α} (hs : ∀ c ∈ s, c < top) :
    ¬ List.Lex (· < ·) s p ∧ ¬ List.Lex (· < ·) (p ++ [top]) s ↔ p <+: s := by
  induction p generalizing s with
  | nil =>
    cases s with
    | nil => simp
    | cons c rest =>
      have hc : c < top := hs c (by simp)
      simp [List.cons_lex_cons_iff, not_lt_of_gt hc, ne_of_gt hc]
  | cons a p ih =>
    cases s with
    | nil => simp
    | cons b s =>
      have hrest := ih fun c hc => hs c (List.mem_cons_of_mem b hc)
      rw [List.cons_append, List.cons_lex_cons_iff, List.cons_lex_cons_iff,
        List.cons_prefix_cons, ← hrest]
      constructor
      · rintro ⟨hlow, hhigh⟩
        rw [not_or, not_and] at hlow hhigh
        have heq : a = b := le_antisymm (not_lt.mp hlow.1) (not_lt.mp hhigh.1)
        exact ⟨heq, hlow.2 heq.symm, hhigh.2 heq⟩
      · rintro ⟨rfl, hlow, hhigh⟩
        simp [hlow, hhigh]

end Prefixes

/-- The same for strings, which are ordered by the code points of their characters. -/
theorem between_iff_prefix {low s : String} {top : Char} (hs : ∀ c ∈ s.toList, c < top) :
    low ≤ s ∧ s ≤ low ++ String.singleton top ↔ low.toList <+: s.toList := by
  rw [← prefix_iff_between hs, ← String.toList_singleton, ← String.toList_append]
  exact Iff.rfl

/-! ### The query -/

/-- The records of the users whose search name is in the range, both ends included. -/
def usersBetween (low high : String) (db : Tree) : Tree :=
  (db.sub ["users"]).filterKeys fun key =>
    match db.leafAt (userRef key ++ ["searchName"]) with
    | some (.str value) => decide (low ≤ value) && decide (value ≤ high)
    | _ => false

/-- The query of `searchUsers`; `lowercase` stands for `lowercased()` on any text. -/
def searchUsersQuery (lowercase : String → String) (searchText : String) (db : Tree) : Tree :=
  let searchText := lowercase searchText
  usersBetween searchText (searchText ++ String.singleton '\uf8ff') db

/-- `setupProfile` accepted the name, and the record under it is a user's. -/
structure Registered (db : Tree) (username : String) : Prop where
  acceptable : SetupProfile.acceptable username = true
  record : SetupProfile.HasRecord db username
  searchName :
    db.leafAt (userRef username ++ ["searchName"]) = some (.str (lowercased username))

/-- Every record is one of an accepted name. -/
def Registry (db : Tree) : Prop := ∀ username ∈ (db.sub ["users"]).keys, Registered db username

/-- The names of the records that begin with the text when lowercased. -/
def namesWithPrefix (text : String) (db : Tree) : List String :=
  (db.sub ["users"]).keys.filter fun username =>
    text.toList.isPrefixOf (lowercased username).toList

/-- The users are those of the records whose lowercased name begins with the text, each once, in
    the order of their names. -/
structure FoundByPrefix (text : String) (db : Tree) (users : List User) : Prop where
  names : ∀ username, (∃ user ∈ users, user.username = username) ↔
    username ∈ namesWithPrefix text db
  record : ∀ user ∈ users, ∃ record, PathTree.Same record (db.sub (userRef user.username)) ∧
    fetchedUser record = some user
  ordered : users.Pairwise fun a b => a.username < b.username

variable {db snapshot : Tree} {username searchText : String} {lowercase : String → String}

/-! ### The names found -/

theorem toNat_lt_of_isAlphanum {c : Char} (h : c.isAlphanum = true) : c.toNat < 128 := by
  simp only [Char.isAlphanum, Char.isAlpha, Char.isUpper, Char.isLower, Char.isDigit,
    Bool.or_eq_true, Bool.and_eq_true, decide_eq_true_eq, UInt32.le_iff_toNat_le, ge_iff_le] at h
  have hval : c.toNat = c.val.toNat := rfl
  have hZ : 'Z'.val.toNat = 90 := rfl
  have hz : 'z'.val.toNat = 122 := rfl
  have hnine : '9'.val.toNat = 57 := rfl
  omega

theorem toLower_lt_of_isAlphanum {c : Char} (h : c.isAlphanum = true) : c.toLower < '\uf8ff' := by
  have hall : ∀ n < 128, (Char.ofNat n).toLower < '\uf8ff' := by decide +kernel
  have hc := hall c.toNat (toNat_lt_of_isAlphanum h)
  rwa [Char.ofNat_toNat] at hc

theorem Registered.below (h : Registered db username) :
    ∀ c ∈ (lowercased username).toList, c < '\uf8ff' := by
  intro c hc
  rw [lowercased, String.toList_ofList] at hc
  obtain ⟨letter, hletter, rfl⟩ := List.mem_map.mp hc
  have hall := h.acceptable
  simp only [SetupProfile.acceptable, Bool.and_eq_true, List.all_eq_true] at hall
  exact toLower_lt_of_isAlphanum (hall.1.1 letter hletter)

/-- The range finds the names that begin with the text. -/
theorem mem_keys_searchUsersQuery (h : Registry db) :
    username ∈ (searchUsersQuery lowercase searchText db).keys ↔
      username ∈ namesWithPrefix (lowercase searchText) db := by
  rw [searchUsersQuery, usersBetween, PathTree.mem_keys_filterKeys, namesWithPrefix,
    List.mem_filter]
  refine and_congr_right fun hkey => ?_
  have hregistered := h username hkey
  rw [hregistered.searchName, List.isPrefixOf_iff_prefix, ← between_iff_prefix hregistered.below]
  simp only [Bool.and_eq_true, decide_eq_true_eq]

/-- A snapshot of the query has the records it found. -/
theorem record_of_snapshot
    (hsame : PathTree.Same snapshot (searchUsersQuery lowercase searchText db))
    (hkey : username ∈ snapshot.keys) :
    PathTree.Same (snapshot.get username) (db.sub (userRef username)) := by
  refine PathTree.same_of_leafAt fun q => ?_
  rw [hsame.mem_keys, searchUsersQuery, usersBetween, PathTree.mem_keys_filterKeys] at hkey
  rw [PathTree.leafAt_child, hsame.leafAt, searchUsersQuery, usersBetween,
    PathTree.leafAt_filterKeys, if_pos hkey.2, PathTree.leafAt_sub, PathTree.leafAt_sub]
  rfl

theorem namesWithPrefix_nodup : (namesWithPrefix searchText db).Nodup :=
  (List.nodup_dedup _).filter _

/-- The names found are those of the records that begin with the text. -/
theorem keys_snapshot_perm (h : Registry db)
    (hsame : PathTree.Same snapshot (searchUsersQuery lowercase searchText db)) :
    snapshot.keys.Perm (namesWithPrefix (lowercase searchText) db) :=
  (List.perm_ext_iff_of_nodup (List.nodup_dedup _) namesWithPrefix_nodup).mpr fun _ =>
    (hsame.mem_keys).trans (mem_keys_searchUsersQuery h)

/-- The record under a name found decodes to a user of that name. -/
theorem decodes_of_mem_keys (h : Registry db)
    (hsame : PathTree.Same snapshot (searchUsersQuery lowercase searchText db))
    (hkey : username ∈ snapshot.keys) :
    ∃ user, fetchedUser (snapshot.get username) = some user ∧ user.username = username := by
  have hfound := (keys_snapshot_perm h hsame).mem_iff.mp hkey
  have hrecord := record_of_snapshot hsame hkey
  obtain ⟨user, rfl, hstored⟩ := (h username (List.mem_filter.mp hfound).1).record
  have hstored' := hstored.congr hrecord
  obtain ⟨user', hdecodes, hleaves⟩ := hstored'.decodes
  exact ⟨user', hdecodes, (hleaves.fields_eq hstored').1⟩

/-! ### The users handed over -/

/-- What `searchUsers` sorts by. -/
theorem pairwise_byUsername (users : List User) :
    (users.mergeSort fun a b => !decide (b.username < a.username)).Pairwise fun a b =>
      a.username ≤ b.username := by
  have hle : ∀ a b : User,
      (!decide (b.username < a.username)) = true ↔ a.username ≤ b.username := by
    intro a b
    rw [Bool.not_eq_true', decide_eq_false_iff_not, String.not_lt]
  refine (List.pairwise_mergeSort ?_ ?_ users).imp fun hab => (hle _ _).mp hab
  · intro a b c hab hbc
    exact (hle a c).mpr (String.le_trans ((hle a b).mp hab) ((hle b c).mp hbc))
  · intro a b
    rw [Bool.or_eq_true]
    exact (String.le_total a.username b.username).imp (hle a b).mpr (hle b a).mpr

/-- The users of the names found. -/
theorem usernames_decoded (h : Registry db)
    (hsame : PathTree.Same snapshot (searchUsersQuery lowercase searchText db))
    {keys : List String} (hkeys : keys ⊆ snapshot.keys) :
    (keys.filterMap fun key => fetchedUser (snapshot.get key)).map User.username = keys := by
  induction keys with
  | nil => rfl
  | cons key rest ih =>
    obtain ⟨user, hdecodes, hname⟩ := decodes_of_mem_keys h hsame (hkeys List.mem_cons_self)
    have hrest := ih fun k hk => hkeys (List.mem_cons_of_mem key hk)
    simp only [List.filterMap_cons, hdecodes, List.map_cons, hname, hrest]

/-- A snapshot that is a dictionary hands over what was found. -/
theorem foundByPrefix_of_dictionary (h : Registry db)
    (hsame : PathTree.Same snapshot (searchUsersQuery lowercase searchText db))
    (hdictionary : snapshot.asDictionary = some snapshot) :
    FoundByPrefix (lowercase searchText) db (searchedUsers snapshot) := by
  have hsearched : searchedUsers snapshot =
      (snapshot.keys.filterMap fun key => fetchedUser (snapshot.get key)).mergeSort
        fun a b => !decide (b.username < a.username) := by
    rw [searchedUsers, hdictionary]
    rfl
  have hperm := List.mergeSort_perm
    (snapshot.keys.filterMap fun key => fetchedUser (snapshot.get key))
    fun a b => !decide (b.username < a.username)
  have hnames := (hperm.map User.username).trans
    (List.Perm.of_eq (usernames_decoded h hsame (List.Subset.refl _)))
  rw [hsearched]
  refine ⟨fun username => ?_, fun user huser => ?_, ?_⟩
  · rw [← (keys_snapshot_perm h hsame).mem_iff, ← hnames.mem_iff, List.mem_map]
  · obtain ⟨key, hkey, hdecodes⟩ := List.mem_filterMap.mp (hperm.mem_iff.mp huser)
    obtain ⟨user', hdecodes', rfl⟩ := decodes_of_mem_keys h hsame hkey
    obtain rfl := Option.some.inj (hdecodes.symm.trans hdecodes')
    exact ⟨snapshot.get user.username, record_of_snapshot hsame hkey, hdecodes⟩
  · have hnodup : (((snapshot.keys.filterMap fun key => fetchedUser (snapshot.get key)).mergeSort
        fun a b => !decide (b.username < a.username)).map User.username).Nodup :=
      hnames.nodup_iff.mpr (List.nodup_dedup _)
    refine (pairwise_byUsername _).imp₂ (fun a b hle hne => ?_) (List.pairwise_map.mp hnodup)
    by_contra hlt
    exact hne (String.le_antisymm hle (String.not_lt.mp hlt))

theorem foundByPrefix_of_indexes (h : Registry db)
    (hsame : PathTree.Same snapshot (searchUsersQuery lowercase searchText db))
    (hindexes : Tree.indexes (namesWithPrefix (lowercase searchText) db) = false) :
    FoundByPrefix (lowercase searchText) db (searchedUsers snapshot) := by
  have hkeys := keys_snapshot_perm h hsame
  by_cases hempty : namesWithPrefix (lowercase searchText) db = []
  · have hnone : searchedUsers snapshot = [] := by
      have hnokeys : snapshot.keys = [] := List.perm_nil.mp (hempty ▸ hkeys)
      unfold searchedUsers
      split
      · rename_i dictionary hdictionary
        obtain rfl := Tree.asDictionary_eq_some hdictionary
        rw [hnokeys, List.filterMap_nil, List.mergeSort_nil]
      · rfl
    rw [hnone]
    exact ⟨by simp [hempty], by simp, List.Pairwise.nil⟩
  · have hroot : snapshot.leafAt [] = none := by
      rw [hsame.leafAt, searchUsersQuery, usersBetween, PathTree.leafAt_filterKeys_nil]
    exact foundByPrefix_of_dictionary h hsame
      (Tree.asDictionary_of_names hroot hkeys hempty hindexes)

/-- Where the names are the indexes of an array, nobody is handed over. -/
theorem indexes_of_foundByPrefix (h : Registry db)
    (hsame : PathTree.Same snapshot (searchUsersQuery lowercase searchText db))
    (hfound : FoundByPrefix (lowercase searchText) db (searchedUsers snapshot)) :
    Tree.indexes (namesWithPrefix (lowercase searchText) db) = false := by
  by_contra harray
  rw [Bool.not_eq_false] at harray
  have hnone : searchedUsers snapshot = [] := by
    rw [searchedUsers, Tree.asDictionary_of_indexes (keys_snapshot_perm h hsame) harray]
  cases hnames : namesWithPrefix (lowercase searchText) db with
  | nil =>
    rw [hnames] at harray
    cases harray
  | cons username rest =>
    obtain ⟨user, huser, -⟩ :=
      (hfound.names username).mpr (by rw [hnames]; exact List.mem_cons_self)
    rw [hnone] at huser
    cases huser

/-- **`searchUsers` hands over exactly the users whose lowercased name begins with the
    lowercased text, each once, ordered by name**, exactly if the names found are not the
    indexes of an array. -/
theorem searchUsers_found_iff (h : Registry db)
    (hsame : PathTree.Same snapshot (searchUsersQuery lowercase searchText db)) :
    FoundByPrefix (lowercase searchText) db (searchedUsers snapshot) ↔
      Tree.indexes (namesWithPrefix (lowercase searchText) db) = false :=
  ⟨indexes_of_foundByPrefix h hsame, foundByPrefix_of_indexes h hsame⟩

/-! ### Names that are numbers -/

theorem digitChar_of_isDigit {c : Char} (h : c.isDigit = true) : (c.toNat - 48).digitChar = c := by
  have hall : ∀ n < 128, (Char.ofNat n).isDigit = true → (n - 48).digitChar = Char.ofNat n := by
    decide +kernel
  have halnum : c.isAlphanum = true := by simp [Char.isAlphanum, h]
  have hc := hall c.toNat (toNat_lt_of_isAlphanum halnum)
  rw [Char.ofNat_toNat] at hc
  exact hc h

/-- Digits without a leading zero are those of their number. -/
theorem toDigits_ofDigitChars {digits : List Char} (hne : digits ≠ [])
    (hdigits : ∀ c ∈ digits, c.isDigit = true) (hhead : digits.head? ≠ some '0') :
    0 < Nat.ofDigitChars 10 digits 0 ∧
      Nat.toDigits 10 (Nat.ofDigitChars 10 digits 0) = digits := by
  induction digits using List.reverseRecOn with
  | nil => exact (hne rfl).elim
  | append_singleton front c ih =>
    have hc : c.isDigit = true := hdigits c (by simp)
    have hlt : c.toNat - 48 < 10 := by
      simp only [Char.isDigit, Bool.and_eq_true, decide_eq_true_eq, UInt32.le_iff_toNat_le,
        ge_iff_le] at hc
      have hnine : '9'.val.toNat = 57 := rfl
      have hval : c.toNat = c.val.toNat := rfl
      omega
    have hvalue : Nat.ofDigitChars 10 (front ++ [c]) 0 =
        10 * Nat.ofDigitChars 10 front 0 + (c.toNat - 48) := by
      rw [Nat.ofDigitChars_append, Nat.ofDigitChars_cons, Nat.ofDigitChars_nil]
      rfl
    rw [hvalue]
    by_cases hfront : front = []
    · subst hfront
      have hzero : c ≠ '0' := by simpa using hhead
      have hpos : 0 < c.toNat - 48 := by
        rw [← digitChar_of_isDigit hc] at hzero
        refine Nat.pos_of_ne_zero fun heq => hzero ?_
        rw [heq]
        rfl
      rw [Nat.ofDigitChars_nil, Nat.mul_zero, Nat.zero_add, Nat.toDigits_of_lt_base hlt,
        digitChar_of_isDigit hc]
      exact ⟨hpos, rfl⟩
    · have hhead' : front.head? ≠ some '0' := by
        rwa [List.head?_append_of_ne_nil _ hfront] at hhead
      obtain ⟨hpos, hfirst⟩ := ih hfront (fun d hd => hdigits d (by simp [hd])) hhead'
      refine ⟨by omega, ?_⟩
      rw [← Nat.toDigits_append_toDigits (by decide) hpos hlt, hfirst,
        Nat.toDigits_of_lt_base hlt, digitChar_of_isDigit hc]

theorem head_toDigits {n : Nat} (hpos : 0 < n) : (Nat.toDigits 10 n).head? ≠ some '0' := by
  induction n using Nat.strongRecOn with
  | _ n ih =>
    by_cases hn : n < 10
    · have hall : ∀ n < 10, 0 < n → (Nat.toDigits 10 n).head? ≠ some '0' := by decide +kernel
      exact hall n hn hpos
    · rw [Nat.toDigits_of_base_le (by decide) (by omega),
        List.head?_append_of_ne_nil _ Nat.toDigits_ne_nil]
      exact ih (n / 10) (by omega) (by omega)

/-- A key that is read as a positive number is its numeral. -/
theorem repr_of_integerKey {key : String} {n : Nat} (hlong : 1 < key.length)
    (h : Tree.integerKey key = some n) : key = n.repr := by
  rw [← String.length_toList] at hlong
  rw [← String.toList_inj, Nat.toList_repr]
  unfold Tree.integerKey at h
  split at h
  · cases h
  · cases h
  · rename_i hnil hzero
    split at h
    · rename_i hdigits
      rw [← Option.some.inj h]
      refine (toDigits_ofDigitChars (fun heq => hnil heq) (List.all_eq_true.mp hdigits) ?_).2.symm
      intro hhead
      obtain ⟨rest, hrest⟩ := List.head?_eq_some_iff.mp hhead
      cases rest with
      | nil =>
        rw [hrest] at hlong
        exact absurd hlong (by decide)
      | cons c rest => exact hzero c rest hrest
    · cases h

theorem integerKey_repr {n : Nat} (hpos : 0 < n) : Tree.integerKey n.repr = some n := by
  unfold Tree.integerKey
  rw [Nat.toList_repr]
  split
  · rename_i hnil
    exact (Nat.toDigits_ne_nil hnil).elim
  · rename_i hzero
    exact (head_toDigits hpos (by rw [hzero]; rfl)).elim
  · rw [if_pos (List.all_eq_true.mpr fun c hc =>
      Nat.isDigit_of_mem_toDigits (by decide) (by decide) hc)]
    exact congrArg some Nat.ofDigitChars_ten_toDigits

/-- An accepted name that is a number has at least six digits. -/
theorem le_of_acceptable {username : String} {n : Nat}
    (haccepted : SetupProfile.acceptable username = true)
    (h : Tree.integerKey username = some n) : 100000 ≤ n := by
  simp only [SetupProfile.acceptable, Bool.and_eq_true, decide_eq_true_eq] at haccepted
  have hname := repr_of_integerKey (by omega) h
  by_contra hlt
  have hshort : (Nat.toDigits 10 n).length ≤ 5 :=
    (Nat.length_toDigits_le_iff (by decide) (by decide)).mpr (by omega)
  rw [← Nat.toList_repr, ← hname, String.length_toList] at hshort
  omega

theorem foldl_max_lt_iff {n start : Nat} {values : List Nat} :
    values.foldl max start < n ↔ start < n ∧ ∀ value ∈ values, value < n := by
  induction values generalizing start with
  | nil => simp
  | cons value rest ih => simp [ih, and_assoc]

/-- It takes a hundred thousand accepted names to be the indexes of an array. -/
theorem hundredThousand_of_indexes {names : List String} (hnodup : names.Nodup)
    (haccepted : ∀ name ∈ names, SetupProfile.acceptable name = true)
    (h : Tree.indexes names = true) : 100000 ≤ names.length := by
  simp only [Tree.indexes, Bool.and_eq_true, List.all_eq_true, decide_eq_true_eq] at h
  obtain ⟨hnumbers, hmax⟩ := h
  generalize hlargest : (names.filterMap Tree.integerKey).foldl max 0 = largest at hmax
  have hbelow := (foldl_max_lt_iff (n := largest + 1)).mp (by rw [hlargest]; omega)
  -- the names are numerals of numbers from a hundred thousand to the largest
  have hsubset : names ⊆ (List.range' 100000 (largest - 99999)).map Nat.repr := by
    intro name hname
    obtain ⟨n, hn⟩ := Option.isSome_iff_exists.mp (hnumbers name hname)
    have hlarge := le_of_acceptable (haccepted name hname) hn
    have hsmall := hbelow.2 n (List.mem_filterMap.mpr ⟨name, hname, hn⟩)
    have hlong := haccepted name hname
    simp only [SetupProfile.acceptable, Bool.and_eq_true, decide_eq_true_eq] at hlong
    refine List.mem_map.mpr ⟨n, List.mem_range'_1.mpr (by omega), ?_⟩
    exact (repr_of_integerKey (by omega) hn).symm
  have hcount := (List.subperm_of_subset hnodup hsubset).length_le
  rw [List.length_map, List.length_range'] at hcount
  omega

/-- With fewer names than that the search is right. -/
theorem searchUsers_found (h : Registry db)
    (hsame : PathTree.Same snapshot (searchUsersQuery lowercase searchText db))
    (hfew : (namesWithPrefix (lowercase searchText) db).length < 100000) :
    FoundByPrefix (lowercase searchText) db (searchedUsers snapshot) := by
  refine foundByPrefix_of_indexes h hsame (Bool.eq_false_iff.mpr fun harray => ?_)
  have hmany := hundredThousand_of_indexes namesWithPrefix_nodup (fun name hname =>
    (h name (List.mem_filter.mp hname).1).acceptable) harray
  omega

/-! ### A hundred thousand numbers -/

theorem Registry.storeProfile (h : Registry db) {attempt : Attempt}
    (haccepted : SetupProfile.acceptable attempt.username = true)
    (hpicked : SetupProfile.Picked attempt) :
    Registry ((SetupProfile.storeProfile attempt).apply db) := by
  intro username hkey
  by_cases hname : username = attempt.username
  · subst hname
    refine ⟨haccepted, SetupProfile.hasRecord_storeProfile hpicked db, ?_⟩
    have hmem : ("searchName", Tree.str (lowercased attempt.username)) ∈
        SetupProfile.profileValues attempt := by
      simp [SetupProfile.profileValues]
    exact Write.leafAt_update_named (SetupProfile.nodup_profileValues attempt) hmem []
  · rw [PathTree.mem_keys, PathTree.has_sub, List.singleton_append,
      SetupProfile.has_storeProfile, if_neg hname] at hkey
    have hregistered := h username (by
      rw [PathTree.mem_keys, PathTree.has_sub]
      exact hkey)
    refine ⟨hregistered.acceptable, hregistered.record.storeProfile hname, ?_⟩
    rw [Write.leafAt_apply_beside, hregistered.searchName]
    simp [Incomparable, Write.ref, SetupProfile.storeProfile, hname, Ne.symm hname]

/-- **What `setupProfile` stores is a registry** of the names it was given. -/
theorem registry_profiles {attempts : List Attempt}
    (haccepted : ∀ attempt ∈ attempts, SetupProfile.acceptable attempt.username = true ∧
      SetupProfile.Picked attempt) :
    Registry (profiles attempts) ∧
      ∀ username, username ∈ ((profiles attempts).sub ["users"]).keys ↔
        ∃ attempt ∈ attempts, attempt.username = username := by
  suffices hall : ∀ db : Tree, Registry db →
      Registry (attempts.foldl (fun db a => (SetupProfile.storeProfile a).apply db) db) ∧
      ∀ username, username ∈ ((attempts.foldl
        (fun db a => (SetupProfile.storeProfile a).apply db) db).sub ["users"]).keys ↔
          (∃ attempt ∈ attempts, attempt.username = username) ∨
            username ∈ (db.sub ["users"]).keys by
    have hempty := hall .empty (fun username hkey => by cases hkey)
    refine ⟨hempty.1, fun username => (hempty.2 username).trans (or_iff_left fun hkey => ?_)⟩
    cases hkey
  induction attempts with
  | nil => exact fun db hdb => ⟨hdb, fun username => by simp⟩
  | cons attempt rest ih =>
    intro db hdb
    have hfirst := haccepted attempt List.mem_cons_self
    obtain ⟨hregistry, hkeys⟩ := ih (fun a ha => haccepted a (List.mem_cons_of_mem attempt ha)) _
      (hdb.storeProfile hfirst.1 hfirst.2)
    refine ⟨hregistry, fun username => ?_⟩
    rw [List.foldl_cons, hkeys username]
    simp only [PathTree.mem_keys, PathTree.has_sub, List.singleton_append,
      SetupProfile.has_storeProfile, List.mem_cons, exists_eq_or_imp]
    by_cases hname : username = attempt.username
    · simp [hname]
    · simp [hname, Ne.symm hname]

theorem searchUsers_found_iff_alice :
    Mirrors.userNames (searchedUsers (searchUsersQuery lowercased "ALI" (profiles aliceAndBob))) =
        ["alice1"] ∧
      FoundByPrefix "ali" (profiles aliceAndBob)
        (searchedUsers (searchUsersQuery lowercased "ALI" (profiles aliceAndBob))) := by
  have haccepted : ∀ attempt ∈ aliceAndBob, SetupProfile.acceptable attempt.username = true ∧
      SetupProfile.Picked attempt := by
    unfold SetupProfile.Picked
    decide +kernel
  have hlower : lowercased "ALI" = "ali" := by decide +kernel
  have hindexes : Tree.indexes (namesWithPrefix (lowercased "ALI") (profiles aliceAndBob)) =
      false := by
    decide +kernel
  refine ⟨by decide +kernel, ?_⟩
  rw [← hlower]
  exact (searchUsers_found_iff (registry_profiles haccepted).1 (PathTree.Same.refl _)).mpr hindexes

/-- The profiles of the six-digit numbers that begin with 1. -/
def numbered : List Attempt :=
  (List.range 100000).map fun i =>
    { SetupProfile.gamer with username := (100000 + i).repr }

theorem acceptable_repr {n : Nat} (hlow : 100000 ≤ n) (hhigh : n < 200000) :
    SetupProfile.acceptable n.repr = true := by
  have hle : (Nat.toDigits 10 n).length ≤ 6 :=
    (Nat.length_toDigits_le_iff (by decide) (by decide)).mpr (by omega)
  have hge : ¬ (Nat.toDigits 10 n).length ≤ 5 := fun hshort => by
    have hsmall := (Nat.length_toDigits_le_iff (by decide) (by decide)).mp hshort
    omega
  have hletters : (Nat.toDigits 10 n).all (fun c => c.isAlphanum) = true :=
    List.all_eq_true.mpr fun c hc => by
      simp [Char.isAlphanum, Nat.isDigit_of_mem_toDigits (by decide) (by decide) hc]
  rw [SetupProfile.acceptable, ← String.length_toList, Nat.toList_repr, hletters]
  simp only [Bool.true_and, Bool.and_eq_true, decide_eq_true_eq]
  omega

theorem accepted_numbered : ∀ attempt ∈ numbered,
    SetupProfile.acceptable attempt.username = true ∧ SetupProfile.Picked attempt := by
  intro attempt hattempt
  obtain ⟨i, hi, rfl⟩ := List.mem_map.mp hattempt
  have hlt := List.mem_range.mp hi
  exact ⟨acceptable_repr (by omega) (by omega), rfl⟩

/-- They begin with 1, also when lowercased. -/
theorem prefix_repr {n : Nat} (hlow : 100000 ≤ n) (hhigh : n < 200000) :
    "1".toList.isPrefixOf (lowercased n.repr).toList = true := by
  obtain ⟨rest, hdigits⟩ : ∃ rest, Nat.toDigits 10 n = '1' :: rest := by
    iterate 5 rw [Nat.toDigits_of_base_le (by decide) (by omega)]
    have hone : n / 10 / 10 / 10 / 10 / 10 = 1 := by omega
    rw [hone, Nat.toDigits_of_lt_base (by decide)]
    exact ⟨_, rfl⟩
  have hlower : (lowercased n.repr).toList = '1' :: rest.map Char.toLower := by
    rw [lowercased, Nat.toList_repr, hdigits, String.toList_ofList]
    rfl
  rw [hlower]
  rfl

theorem nodup_numerals : ((List.range 100000).map fun i => (100000 + i).repr).Nodup := by
  refine (List.nodup_range).map_on fun i _ j _ heq => ?_
  have hkeys := congrArg Tree.integerKey heq
  rw [integerKey_repr (by omega), integerKey_repr (by omega), Option.some.injEq] at hkeys
  omega

theorem namesWithPrefix_numbered :
    (namesWithPrefix "1" (profiles numbered)).Perm
      ((List.range 100000).map fun i => (100000 + i).repr) := by
  refine (List.perm_ext_iff_of_nodup namesWithPrefix_nodup nodup_numerals).mpr fun username => ?_
  rw [namesWithPrefix, List.mem_filter, (registry_profiles accepted_numbered).2 username,
    List.mem_map]
  constructor
  · rintro ⟨⟨attempt, hattempt, rfl⟩, -⟩
    obtain ⟨i, hi, rfl⟩ := List.mem_map.mp hattempt
    exact ⟨i, hi, rfl⟩
  · rintro ⟨i, hi, rfl⟩
    have hlt := List.mem_range.mp hi
    exact ⟨⟨_, List.mem_map.mpr ⟨i, hi, rfl⟩, rfl⟩, prefix_repr (by omega) (by omega)⟩

theorem indexes_numerals :
    Tree.indexes ((List.range 100000).map fun i => (100000 + i).repr) = true := by
  have hkeys : ∀ i, Tree.integerKey (100000 + i).repr = some (100000 + i) :=
    fun i => integerKey_repr (by omega)
  have hvalues : (((List.range 100000).map fun i => (100000 + i).repr).filterMap
      Tree.integerKey) = (List.range 100000).map fun i => 100000 + i := by
    rw [List.filterMap_map, ← List.filterMap_eq_map]
    exact List.filterMap_congr fun i _ => hkeys i
  rw [Tree.indexes, hvalues, Bool.and_eq_true, decide_eq_true_eq]
  constructor
  · refine List.all_eq_true.mpr fun name hname => ?_
    obtain ⟨i, -, rfl⟩ := List.mem_map.mp hname
    rw [hkeys i]
    rfl
  · rw [List.length_map, List.length_range, foldl_max_lt_iff]
    refine ⟨by omega, fun n hn => ?_⟩
    obtain ⟨i, hi, rfl⟩ := List.mem_map.mp hn
    have hlt := List.mem_range.mp hi
    omega

theorem indexes_numbered : Tree.indexes (namesWithPrefix "1" (profiles numbered)) = true :=
  (Tree.indexes_perm namesWithPrefix_numbered).trans indexes_numerals

/-- **All the six-digit numbers that begin with 1, searched for by the 1, are not found.** -/
theorem not_always_foundByPrefix :
    ¬ ∀ (lowercase : String → String) (searchText : String) (db snapshot : Tree), Registry db →
      PathTree.Same snapshot (searchUsersQuery lowercase searchText db) →
      FoundByPrefix (lowercase searchText) db (searchedUsers snapshot) := by
  intro hall
  have hone : lowercased "1" = "1" := by decide +kernel
  have hregistry := (registry_profiles accepted_numbered).1
  have hfound := hall lowercased "1" (profiles numbered) _ hregistry (PathTree.Same.refl _)
  have hindexes := indexes_of_foundByPrefix hregistry (PathTree.Same.refl _) hfound
  rw [hone, indexes_numbered] at hindexes
  cases hindexes

end TeamUp
