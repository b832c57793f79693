import CxxSymbols.Itanium.Grammar.Lexical
import CxxSymbols.Proofs.Itanium.Node
import CxxSymbols.Proofs.Stateful
import Mathlib.Data.Set.Card
import Mathlib.Data.Set.Finite.Lemmas
/-! What the guards of a tree measure. Each of its nodes stands at a place of its own, which tells
the child that is taken at every step from the root. The cost of a tree is the number of its places,
and its depth is the number of nodes on the longest way from the root to a leaf. -/
namespace CxxSymbols.Itanium

namespace Node

def at? (n : Node) : List Nat → Option Node
  | [] => some n
  | i :: place => n.children[i]?.bind fun x => x.at? place

def places (n : Node) : Set (List Nat) := {place | (n.at? place).isSome}

def leaves (n : Node) : Set (List Nat) :=
  {place | ∃ leaf, n.at? place = some leaf ∧ leaf.children = []}

variable {n x : Node} {xs : List Node} {i : Nat} {below : List Nat}

theorem placeBelow :
    i :: below ∈ n.places ↔ ∃ x, n.children[i]? = some x ∧ below ∈ x.places := by
  simp only [places, at?, Set.mem_ofPred_eq, Option.isSome_bind, Option.any_eq_true]

theorem leafBelow :
    i :: below ∈ n.leaves ↔ ∃ x, n.children[i]? = some x ∧ below ∈ x.leaves := by
  constructor
  · rintro ⟨leaf, found, ends⟩
    obtain ⟨x, child, found⟩ := Option.bind_eq_some_iff.mp found
    exact ⟨x, child, leaf, found, ends⟩
  · rintro ⟨x, child, leaf, found, ends⟩
    exact ⟨leaf, Option.bind_eq_some_iff.mpr ⟨x, child, found⟩, ends⟩

/-! ### The number of places -/

def placesFrom (first : Nat) (xs : List Node) : Set (List Nat) :=
  {place | ∃ i x below, xs[i]? = some x ∧ below ∈ x.places ∧ place = (first + i) :: below}

theorem placesOfChildren (n : Node) : n.places = insert [] (placesFrom 0 n.children) := by
  ext place
  cases place with
  | nil => exact iff_of_true rfl (Set.mem_insert _ _)
  | cons i below =>
    rw [placeBelow, Set.mem_insert_iff]
    constructor
    · rintro ⟨x, child, inside⟩
      exact .inr ⟨i, x, below, child, inside, by rw [Nat.zero_add]⟩
    · rintro (root | ⟨j, x, rest, child, inside, same⟩)
      · cases root
      · rw [Nat.zero_add] at same
        cases same
        exact ⟨x, child, inside⟩

theorem placesFromCons (first : Nat) (x : Node) (xs : List Node) : placesFrom first (x :: xs) =
    (List.cons first) '' x.places ∪ placesFrom (first + 1) xs := by
  ext place
  constructor
  · rintro ⟨i, y, below, found, inside, rfl⟩
    cases i with
    | zero =>
      cases Option.some.inj found
      exact .inl ⟨below, inside, rfl⟩
    | succ i => exact .inr ⟨i, y, below, found, inside, by rw [Nat.add_assoc, Nat.add_comm 1]⟩
  · rintro (⟨below, inside, rfl⟩ | ⟨i, y, below, found, inside, rfl⟩)
    · exact ⟨0, x, below, rfl, inside, rfl⟩
    · exact ⟨i + 1, y, below, found, inside, by rw [Nat.add_assoc, Nat.add_comm 1]⟩

theorem placesFromApart (first : Nat) (x : Node) (xs : List Node) :
    ∀ place ∈ (List.cons first) '' x.places, place ∉ placesFrom (first + 1) xs := by
  rintro place ⟨below, _, rfl⟩ ⟨i, y, rest, _, _, same⟩
  have number : first = first + 1 + i := (List.cons.inj same).1
  omega

theorem countFrom (each : ∀ x ∈ xs, x.places.encard = x.size) (first : Nat) :
    (placesFrom first xs).encard = sizes xs := by
  induction xs generalizing first with
  | nil =>
    rw [sizes, Nat.cast_zero, Set.encard_eq_zero]
    exact Set.eq_empty_of_forall_notMem fun _ ⟨_, _, _, found, _⟩ => nomatch found
  | cons x xs ih =>
    have behind := ih (fun y mem => each y (List.mem_cons_of_mem _ mem)) (first + 1)
    have here : ((List.cons first) '' x.places).encard = x.size := by
      rw [List.cons_injective.encard_image, each x List.mem_cons_self]
    have apart := Set.disjoint_left.mpr fun place => placesFromApart first x xs place
    rw [placesFromCons, Set.encard_union_eq apart, here, behind, sizes, Nat.cast_add]

theorem placesCounted (n : Node) : n.places.encard = n.size := by
  induction n using ofChildren with
  | step n ih =>
    have root : [] ∉ placesFrom 0 n.children := fun ⟨_, _, _, _, _, same⟩ => nomatch same
    rw [placesOfChildren, Set.encard_insert_of_notMem root, countFrom ih, sizeChildren,
      Nat.cast_add, Nat.cast_one, add_comm]

/-! ### The longest way -/

theorem leavesInPlaces (n : Node) : n.leaves ⊆ n.places := by
  rintro place ⟨leaf, found, _⟩
  exact Option.isSome_iff_exists.mpr ⟨leaf, found⟩

theorem someLeaf (n : Node) : n.leaves.Nonempty := by
  induction n using ofChildren with
  | step n ih =>
    cases parts : n.children with
    | nil => exact ⟨[], n, rfl, parts⟩
    | cons x xs =>
      obtain ⟨below, ends⟩ := ih x (parts ▸ List.mem_cons_self)
      exact ⟨0 :: below, leafBelow.mpr ⟨x, by rw [parts]; rfl, ends⟩⟩

theorem depthOfLeaves (n : Node) (limit : Nat) :
    n.depthWithin limit = true ↔ ∀ leaf ∈ n.leaves, leaf.length < limit := by
  induction n using ofChildren generalizing limit with
  | step n ih =>
    cases limit with
    | zero =>
      obtain ⟨leaf, ends⟩ := someLeaf n
      exact iff_of_false (depthNever n) fun short => Nat.not_lt_zero _ (short leaf ends)
    | succ limit =>
      rw [depthChildren]
      constructor
      · intro within leaf ends
        cases leaf with
        | nil => exact Nat.succ_pos _
        | cons i below =>
          obtain ⟨x, child, ends⟩ := leafBelow.mp ends
          have mem := List.mem_of_getElem? child
          exact Nat.succ_lt_succ ((ih x mem limit).mp (within x mem) below ends)
      · intro short x mem
        obtain ⟨i, child⟩ := List.mem_iff_getElem?.mp mem
        refine (ih x mem limit).mpr fun below ends => ?_
        exact Nat.lt_of_succ_lt_succ (short (i :: below) (leafBelow.mpr ⟨x, child, ends⟩))

theorem longestWay (n : Node) :
    ∃ longest ∈ n.leaves, ∀ leaf ∈ n.leaves, leaf.length ≤ longest.length := by
  have finite : n.places.Finite := by
    rw [← Set.encard_lt_top_iff, placesCounted]
    exact ENat.natCast_lt_top _
  exact Set.exists_max_image n.leaves List.length (finite.subset (leavesInPlaces n)) (someLeaf n)

/-! ### The guards -/

theorem chargeExact (n : Node) (budget : Nat) :
    n.charge budget = if n.size ≤ budget then (true, budget - n.size) else (false, 0) := by
  split
  · rename_i enough
    obtain ⟨left, rfl⟩ := Nat.exists_eq_add_of_le enough
    rw [chargePays, Nat.add_sub_cancel_left]
  · rename_i small
    exact chargeFails n budget (Nat.lt_of_not_le small)

/- A budget is enough if it is no less than the number of nodes, which is what it is charged, and
what is too little is used up. The depth is within a limit if no way from the root to a leaf has
more nodes. -/
theorem guardsExact (n : Node) :
    (∃ count : Nat, n.places.encard = count ∧ ∀ budget, n.charge budget =
      if count ≤ budget then (true, budget - count) else (false, 0)) ∧
    ∃ longest ∈ n.leaves, (∀ leaf ∈ n.leaves, leaf.length ≤ longest.length) ∧
      ∀ limit, n.depthWithin limit = true ↔ longest.length + 1 ≤ limit := by
  refine ⟨⟨n.size, placesCounted n, chargeExact n⟩, ?_⟩
  obtain ⟨longest, ends, most⟩ := longestWay n
  refine ⟨longest, ends, most, fun limit => ?_⟩
  rw [depthOfLeaves]
  exact ⟨fun short => short longest ends,
    fun enough leaf way => Nat.lt_of_le_of_lt (most leaf way) enough⟩

end Node

/-! ### References -/

namespace Grammar
open Stateful (bindOk)
variable {node : Node} {s : Cursor Memory}

theorem referDeep (deep : ∃ leaf ∈ node.leaves, maxTreeDepth ≤ leaf.length) :
    refer node s = .error .mismatch s := by
  obtain ⟨leaf, ends, long⟩ := deep
  have beyond : ¬node.depthWithin maxTreeDepth = true := fun within =>
    Nat.not_lt_of_le long ((node.depthOfLeaves maxTreeDepth).mp within leaf ends)
  rw [refer, if_neg beyond]
  rfl

theorem referCharged (shallow : ∀ leaf ∈ node.leaves, leaf.length < maxTreeDepth) :
    refer node s = if node.size ≤ s.memory.budget
      then .ok node { s with memory.budget := s.memory.budget - node.size }
      else .error .mismatch { s with memory.budget := 0 } := by
  rw [refer, if_pos ((node.depthOfLeaves maxTreeDepth).mpr shallow)]
  refine (bindOk rfl).trans ?_
  simp only [node.chargeExact s.memory.budget]
  by_cases enough : node.size ≤ s.memory.budget
  · rw [if_pos enough, if_pos enough]
    rfl
  · rw [if_neg enough, if_neg enough]
    rfl

end Grammar
end CxxSymbols.Itanium
