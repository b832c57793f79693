import CxxSymbols.Proofs.Itanium.Node
/-! What of a tree is spelled and what is copied. References are copied at the expense of the
budget. A constructor or destructor holds a copy of its class that nothing is charged for. -/
namespace CxxSymbols.Itanium

mutual

/- The nodes outside the classes of constructors and destructors. -/
def Node.spelled : Node → Nat
  | .name _ | .abbreviation _ | .unnamedType _ | .templateParam _ | .structor ..
  | .expr .. => 1
  | .std x | .conversion x | .pointer x | .expansion x | .decltype x | .abiTag x _
  | .special _ x | .qualified x _ | .vendorQualified x _ | .reference x _
  | .array _ x | .vector _ x | .literal x _ | .clone x _ => 1 + x.spelled
  | .nested a b | .inBody a b | .constructionVTable a b | .memberPointer a b =>
    1 + a.spelled + b.spelled
  | .template x xs => 1 + x.spelled + Node.allSpelled xs
  | .closure xs _ | .binding xs | .pack xs => 1 + Node.allSpelled xs
  | .function ret x xs _ _ => 1 + x.spelled + Node.optionSpelled ret + Node.allSpelled xs
  | .functionType x xs _ _ _ => 1 + x.spelled + Node.allSpelled xs

def Node.allSpelled : List Node → Nat
  | [] => 0
  | x :: xs => x.spelled + Node.allSpelled xs

def Node.optionSpelled : Option Node → Nat
  | none => 0
  | some x => x.spelled

end

attribute [grind =] Node.spelled Node.allSpelled Node.optionSpelled

mutual

/- The nodes in the classes of constructors and destructors. -/
def Node.copied : Node → Nat
  | .structor x _ _ => x.size
  | .name _ | .abbreviation _ | .unnamedType _ | .templateParam _ | .expr .. => 0
  | .std x | .conversion x | .pointer x | .expansion x | .decltype x | .abiTag x _
  | .special _ x | .qualified x _ | .vendorQualified x _ | .reference x _
  | .array _ x | .vector _ x | .literal x _ | .clone x _ => x.copied
  | .nested a b | .inBody a b | .constructionVTable a b | .memberPointer a b =>
    a.copied + b.copied
  | .template x xs => x.copied + Node.allCopied xs
  | .closure xs _ | .binding xs | .pack xs => Node.allCopied xs
  | .function ret x xs _ _ => x.copied + Node.optionCopied ret + Node.allCopied xs
  | .functionType x xs _ _ _ => x.copied + Node.allCopied xs

def Node.allCopied : List Node → Nat
  | [] => 0
  | x :: xs => x.copied + Node.allCopied xs

def Node.optionCopied : Option Node → Nat
  | none => 0
  | some x => x.copied

end

mutual

theorem sizeOfParts : (n : Node) → n.size = n.spelled + n.copied
  | .name _ | .abbreviation _ | .unnamedType _ | .templateParam _ | .expr .. => by
    rw [Node.size, Node.spelled, Node.copied]
  | .structor x _ _ => by
    rw [Node.size, Node.spelled, Node.copied]
  | .std x | .conversion x | .pointer x | .expansion x | .decltype x | .abiTag x _
  | .special _ x | .qualified x _ | .vendorQualified x _ | .reference x _
  | .array _ x | .vector _ x | .literal x _ | .clone x _ => by
    rw [Node.size, Node.spelled, Node.copied, sizeOfParts x]
    omega
  | .nested a b | .inBody a b | .constructionVTable a b | .memberPointer a b => by
    rw [Node.size, Node.spelled, Node.copied, sizeOfParts a, sizeOfParts b]
    omega
  | .template x xs | .functionType x xs _ _ _ => by
    rw [Node.size, Node.spelled, Node.copied, sizeOfParts x, sizesOfParts xs]
    omega
  | .closure xs _ | .binding xs | .pack xs => by
    rw [Node.size, Node.spelled, Node.copied, sizesOfParts xs]
    omega
  | .function ret x xs _ _ => by
    rw [Node.size, Node.spelled, Node.copied, sizeOfParts x, sizeOfOption ret, sizesOfParts xs]
    omega

theorem sizesOfParts : (xs : List Node) →
    Node.sizes xs = Node.allSpelled xs + Node.allCopied xs
  | [] => rfl
  | x :: xs => by
    rw [Node.sizes, Node.allSpelled, Node.allCopied, sizeOfParts x, sizesOfParts xs]
    omega

theorem sizeOfOption : (x : Option Node) →
    Node.sizeOf? x = Node.optionSpelled x + Node.optionCopied x
  | none => rfl
  | some x => by
    rw [Node.sizeOf?, Node.optionSpelled, Node.optionCopied, sizeOfParts x]

end

theorem spelledWithin (n : Node) : n.spelled ≤ n.size := by
  have := sizeOfParts n
  omega

end CxxSymbols.Itanium
