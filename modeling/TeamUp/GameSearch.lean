import TeamUp.Models

/-!
# Searching games by either case

`searchGames` matches a text with the beginning of a word as it is typed, and from four
characters on with any part of the name, both lowercased.  A long text that begins a word is
also a part of the name, so its case does not matter; a shorter one finds a name of its own
spelling only, unless it has a space and finds nothing.

The characters of a string, Swift's grapheme clusters up to canonical equivalence, and their
lowercase are parameters.
-/

namespace TeamUp

/-! ### The words of a list -/

section Words

variable {α : Type} [BEq α] [LawfulBEq α] {a : α} {word head xs : List α} {rest : List (List α)}

omit [LawfulBEq α] in
/-- The first piece of a list that is split is a prefix of it, the others are parts of it. -/
theorem splitOn_cons_parts (h : xs.splitOn a = head :: rest) :
    head <+: xs ∧ ∀ word ∈ rest, word <:+: xs := by
  induction xs generalizing head rest with
  | nil =>
    obtain ⟨rfl, rfl⟩ := List.cons.inj h
    exact ⟨List.nil_prefix, fun word hword => (by cases hword)⟩
  | cons x xs ih =>
    rw [List.splitOn_cons_eq_if_modifyHead] at h
    obtain ⟨head', rest', hpieces⟩ := List.exists_cons_of_ne_nil (List.splitOn_ne_nil a xs)
    obtain ⟨hhead, hrest⟩ := ih hpieces
    rw [hpieces] at h
    split at h
    · obtain ⟨rfl, rfl⟩ := List.cons.inj h
      refine ⟨List.nil_prefix, fun word hword => ?_⟩
      rcases List.mem_cons.mp hword with rfl | hlater
      · exact hhead.isInfix.trans (List.suffix_cons x xs).isInfix
      · exact (hrest word hlater).trans (List.suffix_cons x xs).isInfix
    · obtain ⟨rfl, rfl⟩ := List.cons.inj h
      refine ⟨List.cons_prefix_cons.mpr ⟨rfl, hhead⟩, fun word hword => ?_⟩
      exact (hrest word hword).trans (List.suffix_cons x xs).isInfix

omit [LawfulBEq α] in
theorem infix_of_mem_splitOn (h : word ∈ xs.splitOn a) : word <:+: xs := by
  obtain ⟨head, rest, hpieces⟩ := List.exists_cons_of_ne_nil (List.splitOn_ne_nil a xs)
  obtain ⟨hhead, hrest⟩ := splitOn_cons_parts hpieces
  rw [hpieces] at h
  rcases List.mem_cons.mp h with rfl | hlater
  · exact hhead.isInfix
  · exact hrest word hlater

theorem not_mem_of_mem_splitOn (h : word ∈ xs.splitOn a) : a ∉ word := by
  induction xs generalizing word with
  | nil =>
    rw [List.mem_singleton.mp h]
    exact List.not_mem_nil
  | cons x xs ih =>
    rw [List.splitOn_cons_eq_if_modifyHead] at h
    split at h
    · rcases List.mem_cons.mp h with rfl | hlater
      · exact List.not_mem_nil
      · exact ih hlater
    · rename_i hx
      obtain ⟨head, rest, hpieces⟩ := List.exists_cons_of_ne_nil (List.splitOn_ne_nil a xs)
      rw [hpieces] at h ih
      rcases List.mem_cons.mp h with rfl | hlater
      · rintro hmem
        rcases List.mem_cons.mp hmem with rfl | hin
        · exact hx (beq_self_eq_true a)
        · exact ih List.mem_cons_self hin
      · exact ih (List.mem_cons_of_mem _ hlater)

end Words

namespace Texts

variable {Character : Type} [DecidableEq Character] {T : Texts Character}
variable {a b name searchText : String}

theorem beginsWord_iff : T.beginsWord searchText name = true ↔
    ∃ word ∈ (T.characters name).splitOn T.space, word ≠ [] ∧
      T.characters searchText <+: word := by
  simp [beginsWord]

theorem isPart_congr (h : T.lowercased a = T.lowercased b) :
    T.isPart a name = T.isPart b name := by
  have hlength : (T.characters a).length = (T.characters b).length := by
    simpa [lowercased] using congrArg List.length h
  rw [isPart, isPart, h, hlength]

/-- A long text that begins a word is a part of the name. -/
theorem isPart_of_beginsWord (hlong : 4 ≤ (T.characters searchText).length)
    (h : T.beginsWord searchText name = true) : T.isPart searchText name = true := by
  obtain ⟨word, hword, -, hpre⟩ := beginsWord_iff.mp h
  have hinfix := hpre.isInfix.trans (infix_of_mem_splitOn hword)
  simp only [isPart, Bool.and_eq_true, decide_eq_true_eq]
  exact ⟨hlong, hinfix.map T.lowercase⟩

theorem found_eq_isPart (hlong : 4 ≤ (T.characters searchText).length) :
    (T.beginsWord searchText name || T.isPart searchText name) = T.isPart searchText name := by
  cases hbegins : T.beginsWord searchText name
  · exact Bool.false_or _
  · rw [Bool.true_or, isPart_of_beginsWord hlong hbegins]

/-- No word begins with a text that has a space. -/
theorem beginsWord_of_space (h : T.space ∈ T.characters searchText) :
    T.beginsWord searchText name = false := by
  refine Bool.eq_false_iff.mpr fun hbegins => ?_
  obtain ⟨word, hword, -, hpre⟩ := beginsWord_iff.mp hbegins
  exact not_mem_of_mem_splitOn hword (hpre.subset h)

/-- A name without spaces is found by itself, and by no other text of its length. -/
theorem beginsWord_own (hspace : T.space ∉ T.characters name)
    (hlength : (T.characters searchText).length = (T.characters name).length)
    (hne : T.characters name ≠ []) :
    T.beginsWord searchText name = true ↔ T.characters searchText = T.characters name := by
  rw [beginsWord_iff, List.splitOn_eq_singleton hspace]
  simp only [List.mem_singleton, exists_eq_left]
  constructor
  · rintro ⟨-, hpre⟩
    exact hpre.eq_of_length hlength
  · intro heq
    exact ⟨hne, heq ▸ List.prefix_rfl⟩

/-- Of two short texts that differ in case, one finds a game the other does not, unless both have
    a space. -/
theorem own_name_found (hspace : T.space ∉ T.characters a)
    (hshort : ¬ 4 ≤ (T.characters a).length) (h : T.lowercased a = T.lowercased b)
    (hne : T.characters a ≠ T.characters b) :
    T.searchGames [{ chess with name := a }] a ≠ T.searchGames [{ chess with name := a }] b := by
  have hlength : (T.characters b).length = (T.characters a).length := by
    simpa [lowercased] using congrArg List.length h.symm
  have hnonempty : T.characters a ≠ [] := by
    intro hempty
    rw [hempty, List.length_nil, List.length_eq_zero_iff] at hlength
    exact hne (hempty.trans hlength.symm)
  have hown : T.beginsWord a a = true := (beginsWord_own hspace rfl hnonempty).mpr rfl
  have hother : T.beginsWord b a = false := Bool.eq_false_iff.mpr fun hbegins =>
    hne ((beginsWord_own hspace hlength hnonempty).mp hbegins).symm
  have hpart : T.isPart b a = false := by
    simp [isPart, hlength, hshort]
  simp [searchGames, matchesSearch, hown, hother, hpart]

/-- **Two texts that are equal when lowercased find the same games** in every catalogue exactly if
    they have four characters or more, or are equal, or both have a space. -/
theorem searchGames_same_iff (h : T.lowercased a = T.lowercased b) :
    (∀ games, T.searchGames games a = T.searchGames games b) ↔
      4 ≤ (T.characters a).length ∨ T.characters a = T.characters b ∨
        (T.space ∈ T.characters a ∧ T.space ∈ T.characters b) := by
  have hlength : (T.characters b).length = (T.characters a).length := by
    simpa [lowercased] using congrArg List.length h.symm
  constructor
  · intro hall
    by_contra hnone
    obtain ⟨hshort, hne, hspaces⟩ : _ ∧ _ ∧ _ := by simpa only [not_or] using hnone
    by_cases hspace : T.space ∈ T.characters a
    · have hspace' : T.space ∉ T.characters b := fun hb => hspaces ⟨hspace, hb⟩
      exact own_name_found hspace' (hlength ▸ hshort) h.symm (Ne.symm hne) (hall _).symm
    · exact own_name_found hspace hshort h hne (hall _)
  · intro hsame games
    refine List.filter_congr fun game _ => ?_
    unfold matchesSearch
    rcases hsame with hlong | heq | ⟨hspace, hspace'⟩
    · rw [found_eq_isPart hlong, found_eq_isPart (hlength ▸ hlong), isPart_congr h]
    · rw [beginsWord, beginsWord, heq, isPart_congr h]
    · rw [beginsWord_of_space hspace, beginsWord_of_space hspace', isPart_congr h]

theorem searchGames_same_iff_chess :
    ((∀ games, plain.searchGames games "Chess" = plain.searchGames games "chess") ↔
      4 ≤ (plain.characters "Chess").length ∨ plain.characters "Chess" = plain.characters "chess" ∨
        (plain.space ∈ plain.characters "Chess" ∧ plain.space ∈ plain.characters "chess")) ∧
      plain.lowercased "Chess" = plain.lowercased "chess" :=
  ⟨searchGames_same_iff (by decide), by decide⟩

end Texts

theorem not_always_same :
    ¬ ∀ (games : List Game) (a b : String), Texts.plain.lowercased a = Texts.plain.lowercased b →
      Texts.plain.searchGames games a = Texts.plain.searchGames games b := by
  intro hall
  have hsame := hall [{ chess with name := "Chess" }] "Che" "che" (by decide)
  revert hsame
  decide +kernel

end TeamUp
