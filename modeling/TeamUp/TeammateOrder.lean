import TeamUp.Mirrors

/-!
# The order of the teammates

`sortTeammates` sorts by name and then walks a reversed copy, moving each teammate who
plays something to the front of the live array.  Whoever the walk has passed is in place:
the players among them first, the others last, and the rest between them untouched.
-/

namespace TeamUp

open Mirrors (userNames)

/-- The teammate plays something. -/
abbrev User.plays (user : User) : Bool := user.currentlyPlaying.isSome

/-- Those who play, then the others, each in the order they were in. -/
def playersFirst (users : List User) : List User :=
  users.filter User.plays ++ users.filter fun user => !user.plays

theorem playersFirst_perm (users : List User) : (playersFirst users).Perm users :=
  List.filter_append_perm User.plays users

variable {before after users : List User} {teammate : User}

/-- Names that differ make the search by equality find the teammate itself. -/
theorem moveToFront_plays (hdistinct : (userNames (before ++ teammate :: after)).Nodup)
    (hplays : teammate.plays = true) :
    moveToFront (before ++ teammate :: after) teammate = teammate :: (before ++ after) := by
  have hnone : (before.findIdx? fun u => u.isEqual teammate) = none := by
    refine List.findIdx?_eq_none_iff.mpr fun u hu => Bool.eq_false_iff.mpr fun hequal => ?_
    have hname : u.username = teammate.username := (User.isEqual_iff.mp hequal).1
    rw [userNames, List.map_append, List.nodup_append] at hdistinct
    exact hdistinct.2.2 _ (List.mem_map.mpr ⟨u, hu, rfl⟩) teammate.username (by simp) hname
  have hself : teammate.isEqual teammate = true := User.isEqual_iff.mpr ⟨rfl, rfl, rfl⟩
  have hindex : ((before ++ teammate :: after).findIdx? fun u => u.isEqual teammate) =
      some before.length := by
    rw [List.findIdx?_append, hnone, List.findIdx?_cons, hself]
    simp
  rw [moveToFront, if_pos hplays, hindex]
  simp only [eraseIdx_split]

/-- The live array holds the same teammates throughout the walk. -/
theorem live_perm (ahead passed : List User) (teammate : User) :
    ((passed.filter User.plays ++ ahead) ++ teammate :: passed.filter fun user => !user.plays).Perm
      (ahead ++ teammate :: passed) := by
  refine (List.perm_append_comm.append_right _).trans ?_
  rw [List.append_assoc]
  refine List.Perm.append_left ahead ?_
  exact List.perm_middle.trans ((playersFirst_perm passed).cons teammate)

/-- **The walk**: what it has passed is ordered around what it has not. -/
theorem foldl_moveToFront (ahead passed : List User)
    (hdistinct : (userNames (ahead ++ passed)).Nodup) :
    ahead.reverse.foldl moveToFront
        (passed.filter User.plays ++ ahead ++ passed.filter fun user => !user.plays) =
      playersFirst (ahead ++ passed) := by
  -- from the end of the sorted array, the last of those ahead passes first
  induction ahead using List.reverseRecOn generalizing passed with
  | nil => simp [playersFirst]
  | append_singleton ahead teammate ih =>
    rw [List.reverse_append, List.reverse_singleton, List.singleton_append, List.foldl_cons]
    have hnames : (userNames (ahead ++ teammate :: passed)).Nodup := by
      simpa [userNames] using hdistinct
    have hnext := ih (teammate :: passed) hnames
    have hstep : moveToFront (passed.filter User.plays ++ (ahead ++ [teammate]) ++
          passed.filter fun user => !user.plays) teammate =
        (teammate :: passed).filter User.plays ++ ahead ++
          (teammate :: passed).filter fun user => !user.plays := by
      cases hplays : teammate.plays with
      | true =>
        have hlive : (userNames ((passed.filter User.plays ++ ahead) ++ teammate ::
            passed.filter fun user => !user.plays)).Nodup := by
          have hperm := live_perm ahead passed teammate
          exact (hperm.map User.username).nodup_iff.mpr hnames
        have hmove := moveToFront_plays hlive hplays
        rw [List.filter_cons_of_pos hplays, List.filter_cons_of_neg (by simp [hplays])]
        simpa using hmove
      | false =>
        rw [moveToFront, if_neg (by simp [hplays]), List.filter_cons_of_neg (by simp [hplays]),
          List.filter_cons_of_pos (by simp [hplays])]
        simp
    rw [hstep, hnext]
    simp

/-- What `sortTeammates` sorts by. -/
abbrev inNameOrder (a b : User) : Bool := !decide (lowercased b.username < lowercased a.username)

theorem inNameOrder_iff {a b : User} :
    inNameOrder a b = true ↔ lowercased a.username ≤ lowercased b.username := by
  rw [inNameOrder, Bool.not_eq_true', decide_eq_false_iff_not, String.not_lt]

theorem pairwise_sorted (users : List User) : (users.mergeSort inNameOrder).Pairwise fun a b =>
    lowercased a.username ≤ lowercased b.username := by
  refine (List.pairwise_mergeSort ?_ ?_ users).imp inNameOrder_iff.mp
  · intro a b c hab hbc
    exact inNameOrder_iff.mpr (String.le_trans (inNameOrder_iff.mp hab) (inNameOrder_iff.mp hbc))
  · intro a b
    rw [Bool.or_eq_true]
    have htotal := String.le_total (lowercased a.username) (lowercased b.username)
    exact htotal.imp inNameOrder_iff.mpr inNameOrder_iff.mpr

theorem sortTeammates_eq (hdistinct : (userNames users).Nodup) :
    sortTeammates users = playersFirst (users.mergeSort inNameOrder) := by
  unfold sortTeammates
  split
  · rename_i hshort
    match users, hshort with
    | [], _ => simp [playersFirst]
    | [teammate], _ =>
      cases hplays : teammate.plays with
      | true =>
        rw [List.mergeSort_singleton, playersFirst, List.filter_cons_of_pos hplays,
          List.filter_cons_of_neg (by simp [hplays])]
        rfl
      | false =>
        rw [List.mergeSort_singleton, playersFirst, List.filter_cons_of_neg (by simp [hplays]),
          List.filter_cons_of_pos (by simp [hplays])]
        rfl
  · have hsorted : (userNames (users.mergeSort inNameOrder)).Nodup :=
      ((List.mergeSort_perm users _).map User.username).nodup_iff.mpr hdistinct
    have hwalk := foldl_moveToFront _ [] (by rwa [List.append_nil])
    simp only [List.filter_nil, List.nil_append, List.append_nil] at hwalk
    exact hwalk

/-- **Teammates are sorted**: nobody is lost or listed twice, those who play something come
    first, and each of the two groups is in the order of the names. -/
theorem teammates_sorted (hdistinct : (userNames users).Nodup) :
    (sortTeammates users).Perm users ∧
      (sortTeammates users).Pairwise (fun a b => b.currentlyPlaying ≠ none →
        a.currentlyPlaying ≠ none) ∧
      (sortTeammates users).Pairwise fun a b =>
        (a.currentlyPlaying ≠ none ↔ b.currentlyPlaying ≠ none) →
          lowercased a.username ≤ lowercased b.username := by
  rw [sortTeammates_eq hdistinct]
  have hordered := pairwise_sorted users
  refine ⟨(playersFirst_perm _).trans (List.mergeSort_perm users _), ?_, ?_⟩
  · refine List.pairwise_append.mpr ⟨?_, ?_, fun a ha b _ _ => ?_⟩
    · refine List.pairwise_of_forall_mem_list fun a ha b _ _ => ?_
      exact Option.isSome_iff_ne_none.mp (List.mem_filter.mp ha).2
    · refine List.pairwise_of_forall_mem_list fun a _ b hb hplays => ?_
      have hnot := (List.mem_filter.mp hb).2
      simp [hplays] at hnot
    · exact Option.isSome_iff_ne_none.mp (List.mem_filter.mp ha).2
  · refine List.pairwise_append.mpr ⟨?_, ?_, fun a ha b hb hsame => ?_⟩
    · refine (hordered.sublist List.filter_sublist).imp ?_
      intro a b hab _
      exact hab
    · refine (hordered.sublist List.filter_sublist).imp ?_
      intro a b hab _
      exact hab
    · have hplays := Option.isSome_iff_ne_none.mp (List.mem_filter.mp ha).2
      have hnot := (List.mem_filter.mp hb).2
      simp [hsame.mp hplays] at hnot

/-- A teammate with a name and perhaps a game. -/
def teammateNamed (username : String) (currentlyPlaying : Option String) : User where
  username := username
  profilePicUrl := "https://pics/" ++ username
  mic := .noMic
  bio := ""
  region := .europe
  games := []
  platform := none
  currentlyPlaying := currentlyPlaying

/-- Three teammates, of whom the last in the order of the names plays. -/
def threeTeammates : List User :=
  [teammateNamed "Cara" (some "Halo"), teammateNamed "bob" none, teammateNamed "Ann" none]

theorem teammates_sorted_three : (sortTeammates threeTeammates).Perm threeTeammates ∧
    (sortTeammates threeTeammates).Pairwise (fun a b => b.currentlyPlaying ≠ none →
      a.currentlyPlaying ≠ none) ∧
    (sortTeammates threeTeammates).Pairwise fun a b =>
      (a.currentlyPlaying ≠ none ↔ b.currentlyPlaying ≠ none) →
        lowercased a.username ≤ lowercased b.username :=
  teammates_sorted (by decide)

end TeamUp
