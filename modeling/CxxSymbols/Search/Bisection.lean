/-!
Finding by halving where an array passes from what meets a test to what does not. All that meets it
has to stand in front.
-/
namespace CxxSymbols.Search
variable {α : Type}

def bisect (test : α → Bool) (xs : Array α) (low high : Nat) (within : high ≤ xs.size) : Nat :=
  if less : low < high then
    let middle := low + (high - low) / 2
    have below : middle < high := by omega
    if test xs[middle] then bisect test xs (middle + 1) high within
    else bisect test xs low middle (Nat.le_trans (Nat.le_of_lt below) within)
  else low
termination_by high - low

def countMet (test : α → Bool) (xs : Array α) : Nat := bisect test xs 0 xs.size (Nat.le_refl _)

theorem bisectFinds {test : α → Bool} {xs : Array α} {low high place : Nat}
    (within : high ≤ xs.size) (above : low ≤ place) (below : place ≤ high)
    (met : ∀ i (_ : i < xs.size), i < place → test xs[i] = true)
    (unmet : ∀ i (_ : i < xs.size), place ≤ i → test xs[i] = false) :
    bisect test xs low high within = place := by
  -- the place that is looked for stays between `low` and `high`, which come together on it
  induction low, high, within using bisect.induct test xs with
  | case1 low high within less middle inside passes ih =>
    have front : middle < place := by
      refine Nat.lt_of_not_le fun behind => ?_
      rw [unmet middle _ behind] at passes
      cases passes
    rw [bisect, dif_pos less]
    simp only [middle] at passes ih
    simp only [passes, if_true]
    exact ih front below
  | case2 low high within less middle inside fails ih =>
    have behind : place ≤ middle := Nat.le_of_not_lt fun front => fails (met middle _ front)
    rw [bisect, dif_pos less]
    simp only [middle] at fails ih
    simp only [fails]
    exact ih above behind
  | case3 low high within done =>
    rw [bisect, dif_neg done]
    omega

theorem countMetFront {test : α → Bool} {xs : Array α} {front back : List α}
    (shape : xs.toList = front ++ back) (met : ∀ a ∈ front, test a = true)
    (unmet : ∀ a ∈ back, test a = false) : countMet test xs = front.length := by
  have size : xs.size = front.length + back.length := by
    rw [← Array.length_toList, shape, List.length_append]
  have here (i : Nat) (inside : i < xs.size) : (front ++ back)[i]? = some xs[i] := by
    rw [← shape, Array.getElem?_toList, Array.getElem?_eq_getElem inside]
  refine bisectFinds _ (Nat.zero_le _) (by omega) (fun i inside before => ?_)
    fun i inside behind => ?_
  · have found := here i inside
    rw [List.getElem?_append_left before] at found
    exact met _ (List.mem_of_getElem? found)
  · have found := here i inside
    rw [List.getElem?_append_right behind] at found
    exact unmet _ (List.mem_of_getElem? found)

end CxxSymbols.Search
