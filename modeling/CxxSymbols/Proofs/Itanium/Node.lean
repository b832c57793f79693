import CxxSymbols.Itanium.Node
/-! The guards of the tree. All walks go through the same children, so what a tree costs is its
number of nodes, and a tree that is within a depth is within every greater one. -/
namespace CxxSymbols.Itanium

/-! ### Children -/

/- What a tree is made of, in order. What is kept for the spelling alone is no part of it: the
operands of an expression, a computed extent, the namesake of a constructor and the specifiers of a
type. -/
def Node.children : Node → List Node
  | .name _ | .abbreviation _ | .unnamedType _ | .templateParam _ | .expr .. => []
  | .std x | .conversion x | .pointer x | .expansion x | .decltype x | .abiTag x _
  | .structor x _ _ | .special _ x | .qualified x _ | .vendorQualified x _ | .reference x _
  | .array _ x | .vector _ x | .literal x _ | .clone x _ => [x]
  | .nested a b | .inBody a b | .constructionVTable a b | .memberPointer a b => [a, b]
  | .template x xs | .functionType x xs _ _ _ => x :: xs
  | .closure xs _ | .binding xs | .pack xs => xs
  | .function ret x xs _ _ => x :: (ret.toList ++ xs)

theorem sizesAppend (xs ys : List Node) :
    Node.sizes (xs ++ ys) = Node.sizes xs + Node.sizes ys := by
  induction xs with
  | nil => rw [List.nil_append, Node.sizes, Nat.zero_add]
  | cons x xs ih => rw [List.cons_append, Node.sizes, Node.sizes, ih, Nat.add_assoc]

theorem sizeOption (x : Option Node) : Node.sizeOf? x = Node.sizes x.toList := by
  cases x with
  | none => rfl
  | some x => rfl

theorem sizeChildren (n : Node) : n.size = 1 + Node.sizes n.children := by
  cases n <;>
    simp only [Node.size, Node.children, Node.sizes, sizesAppend, sizeOption, Nat.add_zero,
      Nat.add_assoc]

theorem sizeWithin {x : Node} {xs : List Node} (mem : x ∈ xs) : x.size ≤ Node.sizes xs := by
  induction xs with
  | nil => cases mem
  | cons y xs ih =>
    rw [Node.sizes]
    rcases List.mem_cons.mp mem with rfl | behind
    · exact Nat.le_add_right _ _
    · exact Nat.le_add_left_of_le (ih behind)

@[elab_as_elim]
theorem Node.ofChildren {P : Node → Prop} (step : ∀ n : Node, (∀ x ∈ n.children, P x) → P n)
    (n : Node) : P n :=
  step n fun x _ => ofChildren step x
termination_by n.size
decreasing_by
  rename_i mem
  have within := sizeWithin mem
  rw [sizeChildren n]
  omega

/-! ### Cost -/

theorem chargeAllAppend (xs ys : List Node) (budget : Nat) : Node.chargeAll (xs ++ ys) budget =
    match Node.chargeAll xs budget with
    | (true, rest) => Node.chargeAll ys rest
    | (false, rest) => (false, rest) := by
  induction xs generalizing budget with
  | nil => rfl
  | cons x xs ih =>
    rw [List.cons_append, Node.chargeAll, Node.chargeAll]
    rcases x.charge budget with ⟨_ | _, rest⟩
    · rfl
    · exact ih rest

theorem chargeOne (x : Node) (budget : Nat) : Node.chargeAll [x] budget = x.charge budget := by
  rw [Node.chargeAll]
  rcases x.charge budget with ⟨_ | _, rest⟩
  · rfl
  · rfl

theorem chargeTwo (a b : Node) (budget : Nat) : Node.chargeAll [a, b] budget =
    match a.charge budget with
    | (true, rest) => b.charge rest
    | (false, rest) => (false, rest) := by
  rw [Node.chargeAll]
  rcases a.charge budget with ⟨_ | _, rest⟩
  · rfl
  · exact chargeOne b rest

theorem chargeOption (x : Option Node) (budget : Nat) :
    Node.charge? x budget = Node.chargeAll x.toList budget := by
  cases x with
  | none => rfl
  | some x => exact (chargeOne x budget).symm

theorem chargeChildren (n : Node) (budget : Nat) :
    n.charge (budget + 1) = Node.chargeAll n.children budget :=
  match n with
  | .name _ | .abbreviation _ | .unnamedType _ | .templateParam _ | .expr .. => rfl
  | .std x | .conversion x | .pointer x | .expansion x | .decltype x | .abiTag x _
  | .structor x _ _ | .special _ x | .qualified x _ | .vendorQualified x _ | .reference x _
  | .array _ x | .vector _ x | .literal x _ | .clone x _ => (chargeOne x budget).symm
  | .nested a b | .inBody a b | .constructionVTable a b | .memberPointer a b =>
    (chargeTwo a b budget).symm
  | .template _ _ | .functionType .. | .closure .. | .binding _ | .pack _ => rfl
  | .function ret x xs _ _ => by
    rw [Node.charge, Node.children, Node.chargeAll]
    rcases x.charge budget with ⟨_ | _, rest⟩
    · rfl
    · have others : Node.chargeAll (ret.toList ++ xs) rest =
          match Node.charge? ret rest with
          | (true, rest) => Node.chargeAll xs rest
          | (false, rest) => (false, rest) := by rw [chargeAllAppend, chargeOption]
      exact others.symm

theorem chargeNothing (n : Node) : n.charge 0 = (false, 0) := by
  cases n <;> rfl

theorem chargeAllPays {xs : List Node}
    (each : ∀ x ∈ xs, ∀ left, x.charge (x.size + left) = (true, left)) (left : Nat) :
    Node.chargeAll xs (Node.sizes xs + left) = (true, left) := by
  induction xs with
  | nil => rw [Node.sizes, Nat.zero_add, Node.chargeAll]
  | cons x xs ih =>
    rw [Node.sizes, Nat.add_assoc, Node.chargeAll, each x List.mem_cons_self]
    exact ih fun y mem => each y (List.mem_cons_of_mem _ mem)

theorem chargePays (n : Node) (left : Nat) : n.charge (n.size + left) = (true, left) := by
  induction n using Node.ofChildren generalizing left with
  | step n ih =>
    have sum : n.size + left = Node.sizes n.children + left + 1 := by
      rw [sizeChildren]
      omega
    rw [sum, chargeChildren, chargeAllPays ih]

theorem chargeAllFails {xs : List Node}
    (each : ∀ x ∈ xs, ∀ budget, budget < x.size → x.charge budget = (false, 0)) {budget : Nat}
    (small : budget < Node.sizes xs) : Node.chargeAll xs budget = (false, 0) := by
  induction xs generalizing budget with
  | nil => cases small
  | cons x xs ih =>
    rw [Node.sizes] at small
    rw [Node.chargeAll]
    by_cases here : budget < x.size
    · rw [each x List.mem_cons_self budget here]
    · obtain ⟨left, rfl⟩ := Nat.exists_eq_add_of_le (Nat.le_of_not_lt here)
      rw [chargePays]
      exact ih (fun y mem => each y (List.mem_cons_of_mem _ mem)) (by omega)

theorem chargeFails (n : Node) (budget : Nat) (small : budget < n.size) :
    n.charge budget = (false, 0) := by
  induction n using Node.ofChildren generalizing budget with
  | step n ih =>
    cases budget with
    | zero => exact chargeNothing n
    | succ budget =>
      rw [chargeChildren]
      rw [sizeChildren] at small
      exact chargeAllFails ih (by omega)

theorem chargeTakes (n : Node) (budget left : Nat) (paid : n.charge budget = (true, left)) :
    budget = n.size + left := by
  by_cases small : budget < n.size
  · rw [chargeFails n budget small] at paid
    cases paid
  · obtain ⟨rest, rfl⟩ := Nat.exists_eq_add_of_le (Nat.le_of_not_lt small)
    rw [chargePays] at paid
    cases paid
    rfl

/-! ### Depth -/

theorem depthsEach {xs : List Node} {limit : Nat} :
    Node.depthsWithin xs limit = true ↔ ∀ x ∈ xs, x.depthWithin limit = true := by
  induction xs with
  | nil => exact iff_of_true (by rw [Node.depthsWithin]) nofun
  | cons x xs ih => rw [Node.depthsWithin, Bool.and_eq_true, ih, List.forall_mem_cons]

theorem depthOption (x : Option Node) (limit : Nat) :
    Node.depthWithin? x limit = true ↔ ∀ y ∈ x.toList, y.depthWithin limit = true := by
  cases x with
  | none => exact iff_of_true (by rw [Node.depthWithin?]) nofun
  | some x => rw [Node.depthWithin?, Option.toList_some, List.forall_mem_singleton]

theorem depthChildren (n : Node) (limit : Nat) :
    n.depthWithin (limit + 1) = true ↔ ∀ x ∈ n.children, x.depthWithin limit = true := by
  cases n <;>
    simp [Node.depthWithin, Node.children, depthsEach, depthOption, or_imp, forall_and, and_assoc]

theorem depthNever (n : Node) : n.depthWithin 0 ≠ true := by
  cases n <;> simp [Node.depthWithin]

theorem depthDeeper (n : Node) (limit : Nat) (within : n.depthWithin limit = true) :
    n.depthWithin (limit + 1) = true := by
  induction n using Node.ofChildren generalizing limit with
  | step n ih =>
    cases limit with
    | zero => exact absurd within (depthNever n)
    | succ limit =>
      rw [depthChildren] at within ⊢
      exact fun x mem => ih x mem limit (within x mem)

theorem depthOfPart {whole part : Node} {limit : Nat}
    (down : ∀ limit, whole.depthWithin (limit + 1) = true → part.depthWithin limit = true)
    (depth : whole.depthWithin limit = true) : part.depthWithin limit = true := by
  cases limit with
  | zero => exact absurd depth (depthNever whole)
  | succ limit => exact depthDeeper part limit (down limit depth)

theorem depthOfParts {whole : Node} {parts : List Node} {limit : Nat}
    (down : ∀ limit, whole.depthWithin (limit + 1) = true → Node.depthsWithin parts limit = true)
    (depth : whole.depthWithin limit = true) : Node.depthsWithin parts limit = true := by
  cases limit with
  | zero => exact absurd depth (depthNever whole)
  | succ limit =>
    exact depthsEach.mpr fun x mem => depthDeeper x limit (depthsEach.mp (down limit depth) x mem)

end CxxSymbols.Itanium
