import CxxSymbols.Search.Index
/-! Strictly ascending lists of numbers: how one comes about from any list, and what two of them
have in common. -/
namespace CxxSymbols.Search

abbrev Ascending (xs : List Nat) : Prop := xs.Pairwise (· < ·)

/-! ### Sorting without repetitions -/

theorem memDropRepeats {α : Type} [DecidableEq α] {a : α} {xs : List α} :
    a ∈ dropRepeats xs ↔ a ∈ xs := by
  induction xs using dropRepeats.induct with
  | case1 a rest ih =>
    rw [dropRepeats, if_pos rfl, ih]
    simp
  | case2 a b rest different ih =>
    rw [dropRepeats, if_neg different, List.mem_cons, ih, ← List.mem_cons]
  | case3 xs short =>
    rw [dropRepeats]
    exact short

theorem dropRepeatsAscends {xs : List Nat} (sorted : xs.Pairwise (· ≤ ·)) :
    Ascending (dropRepeats xs) := by
  induction xs using dropRepeats.induct with
  | case1 a rest ih =>
    rw [dropRepeats, if_pos rfl]
    exact ih sorted.of_cons
  | case2 a b rest different ih =>
    rw [dropRepeats, if_neg different]
    refine List.pairwise_cons.mpr ⟨fun n mem => ?_, ih sorted.of_cons⟩
    have first : a ≤ b := List.rel_of_pairwise_cons sorted List.mem_cons_self
    have later : b ≤ n := by
      rcases List.mem_cons.mp (memDropRepeats.mp mem) with rfl | behind
      · exact Nat.le_refl _
      · exact List.rel_of_pairwise_cons sorted.of_cons behind
    omega
  | case3 xs short =>
    rw [dropRepeats]
    · match xs with
      | [] => exact .nil
      | [a] => exact List.pairwise_singleton _ a
      | a :: b :: rest => exact (short a b rest rfl).elim
    · exact short

theorem dropRepeatsOfAscending {xs : List Nat} (ascends : Ascending xs) : dropRepeats xs = xs := by
  induction xs using dropRepeats.induct with
  | case1 a rest ih =>
    have less : a < a := List.rel_of_pairwise_cons ascends List.mem_cons_self
    omega
  | case2 a b rest different ih => rw [dropRepeats, if_neg different, ih ascends.of_cons]
  | case3 xs short =>
    rw [dropRepeats]
    exact short

theorem memSortUnique {n : Nat} {xs : List Nat} : n ∈ sortUnique xs ↔ n ∈ xs :=
  memDropRepeats.trans List.mem_mergeSort

theorem sortUniqueAscends (xs : List Nat) : Ascending (sortUnique xs) := by
  have trans (a b c : Nat) (first : decide (a ≤ b) = true) (second : decide (b ≤ c) = true) :
      decide (a ≤ c) = true :=
    decide_eq_true (Nat.le_trans (of_decide_eq_true first) (of_decide_eq_true second))
  have total (a b : Nat) : (decide (a ≤ b) || decide (b ≤ a)) = true := by
    rw [Bool.or_eq_true, decide_eq_true_iff, decide_eq_true_iff]
    exact Nat.le_total a b
  exact dropRepeatsAscends ((List.pairwise_mergeSort trans total xs).imp of_decide_eq_true)

theorem sortUniqueOfAscending {xs : List Nat} (ascends : Ascending xs) : sortUnique xs = xs := by
  have sorted : xs.Pairwise fun a b => decide (a ≤ b) = true := by
    refine ascends.imp fun less => ?_
    exact decide_eq_true (Nat.le_of_lt less)
  rw [sortUnique, List.mergeSort_of_pairwise sorted, dropRepeatsOfAscending ascends]

/-! ### What two lists have in common -/

theorem memIntersect {n : Nat} {as bs : List Nat} (left : Ascending as) (right : Ascending bs) :
    n ∈ intersect as bs ↔ n ∈ as ∧ n ∈ bs := by
  induction as, bs using intersect.induct with
  | case1 bs => simp [intersect]
  | case2 as => simp [intersect]
  | case3 a as b bs less ih =>
    have above (m : Nat) (mem : m ∈ bs) : b < m := List.rel_of_pairwise_cons right mem
    rw [intersect, if_pos less, ih left.of_cons right, List.mem_cons, List.mem_cons]
    constructor
    · rintro ⟨mem, both⟩
      exact ⟨.inr mem, both⟩
    · rintro ⟨rfl | mem, both⟩
      · rcases both with rfl | behind
        · omega
        · have far := above n behind
          omega
      · exact ⟨mem, both⟩
  | case4 a as b bs notLess less ih =>
    have above (m : Nat) (mem : m ∈ as) : a < m := List.rel_of_pairwise_cons left mem
    rw [intersect, if_neg notLess, if_pos less, ih left right.of_cons, List.mem_cons, List.mem_cons]
    constructor
    · rintro ⟨both, mem⟩
      exact ⟨both, .inr mem⟩
    · rintro ⟨both, rfl | mem⟩
      · rcases both with rfl | behind
        · omega
        · have far := above n behind
          omega
      · exact ⟨both, mem⟩
  | case5 a as b bs notLess notMore ih =>
    obtain rfl : a = b := by omega
    have aboveLeft (m : Nat) (mem : m ∈ as) : a < m := List.rel_of_pairwise_cons left mem
    have aboveRight (m : Nat) (mem : m ∈ bs) : a < m := List.rel_of_pairwise_cons right mem
    rw [intersect, if_neg notLess, if_neg notMore, List.mem_cons, ih left.of_cons right.of_cons,
      List.mem_cons, List.mem_cons]
    constructor
    · rintro (rfl | ⟨there, here⟩)
      · exact ⟨.inl rfl, .inl rfl⟩
      · exact ⟨.inr there, .inr here⟩
    · rintro ⟨rfl | there, both⟩
      · exact .inl rfl
      · rcases both with rfl | here
        · exact .inl rfl
        · exact .inr ⟨there, here⟩

theorem intersectAscends {as bs : List Nat} (left : Ascending as) (right : Ascending bs) :
    Ascending (intersect as bs) := by
  induction as, bs using intersect.induct with
  | case1 bs => simp [intersect]
  | case2 as => simp [intersect]
  | case3 a as b bs less ih =>
    rw [intersect, if_pos less]
    exact ih left.of_cons right
  | case4 a as b bs notLess less ih =>
    rw [intersect, if_neg notLess, if_pos less]
    exact ih left right.of_cons
  | case5 a as b bs notLess notMore ih =>
    rw [intersect, if_neg notLess, if_neg notMore]
    refine List.pairwise_cons.mpr ⟨fun n mem => ?_, ih left.of_cons right.of_cons⟩
    have inside := ((memIntersect left.of_cons right.of_cons).mp mem).1
    exact List.rel_of_pairwise_cons left inside

end CxxSymbols.Search
