import CxxSymbols.Itanium.Node
/-!
Instances of trees: the parameters of a template are replaced by its arguments, and an expansion by
one instance of its pattern for each element of the pack in it. The parameters of closures stay,
since they are those of the closure. Each node that is made is taken from a budget.
-/
namespace CxxSymbols.Itanium.Node

abbrev Spending := StateT Nat Option

def spend (cost : Nat) : Spending Unit := fun budget =>
  if cost ≤ budget then some ((), budget - cost) else none

/- What a parameter stands for. In the pattern of an expansion a pack stands for the element at
the place in question. -/
def argument (args : List Node) (place : Option Nat) (index : Nat) : Node :=
  match args[index]?, place with
  | some (.pack items), some place => items[place]?.getD (.pack [])
  | some arg, _ => arg
  | none, _ => .templateParam index

mutual

def packSize? (args : List Node) : Node → Option Nat
  | .templateParam index =>
    match args[index]? with
    | some (.pack items) => some items.length
    | _ => none
  | .nested a b | .inBody a b | .constructionVTable a b | .memberPointer a b =>
    (packSize? args a).or (packSize? args b)
  | .std x | .conversion x | .pointer x | .decltype x | .abiTag x _ | .structor x _ _
  | .special _ x | .qualified x _ | .vendorQualified x _ | .reference x _ | .array _ x
  | .vector _ x | .literal x _ | .clone x _ => packSize? args x
  | .template x xs | .functionType x xs _ _ _ | .function _ x xs _ _ =>
    (packSize? args x).or (packSizeAmong? args xs)
  | .binding xs | .expr _ _ xs | .pack xs => packSizeAmong? args xs
  | .name _ | .abbreviation _ | .unnamedType _ | .closure _ _ | .expansion _ => none

def packSizeAmong? (args : List Node) : List Node → Option Nat
  | [] => none
  | x :: xs => (packSize? args x).or (packSizeAmong? args xs)

end

mutual

def instantiate (args : List Node) (place : Option Nat) (node : Node) : Spending Node := do
  spend 1
  match node with
  | .templateParam index =>
    let arg := argument args place index
    spend arg.size
    return arg
  | .expansion pattern => expand args pattern
  | .expr .spread _ [pattern] => expand args pattern
  | .nested a b => return .nested (← instantiate args place a) (← instantiate args place b)
  | .inBody a b => return .inBody (← instantiate args place a) (← instantiate args place b)
  | .constructionVTable a b =>
    return .constructionVTable (← instantiate args place a) (← instantiate args place b)
  | .memberPointer a b =>
    return .memberPointer (← instantiate args place a) (← instantiate args place b)
  | .std x => return .std (← instantiate args place x)
  | .conversion x => return .conversion (← instantiate args place x)
  | .pointer x => return .pointer (← instantiate args place x)
  | .decltype x => return .decltype (← instantiate args place x)
  | .abiTag x tag => return .abiTag (← instantiate args place x) tag
  | .structor x isDestructor namesake =>
    return .structor (← instantiate args place x) isDestructor namesake
  | .special kind x => return .special kind (← instantiate args place x)
  | .qualified x quals => return .qualified (← instantiate args place x) quals
  | .vendorQualified x vendor => return .vendorQualified (← instantiate args place x) vendor
  | .reference x isRvalue => return .reference (← instantiate args place x) isRvalue
  | .array extent x =>
    return .array (← instantiateExtent args place extent) (← instantiate args place x)
  | .vector extent x =>
    return .vector (← instantiateExtent args place extent) (← instantiate args place x)
  | .literal x value => return .literal (← instantiate args place x) value
  | .clone x suffix => return .clone (← instantiate args place x) suffix
  | .template x xs =>
    return .template (← instantiate args place x) (← instantiateAll args place xs)
  | .functionType x xs quals refQual specifiers =>
    return .functionType (← instantiate args place x) (← instantiateAll args place xs) quals refQual
      (← instantiateAll args place specifiers)
  | .function ret x xs quals refQual =>
    return .function (← instantiateOption args place ret) (← instantiate args place x)
      (← instantiateAll args place xs) quals refQual
  | .binding xs => return .binding (← instantiateAll args place xs)
  | .pack xs => return .pack (← instantiateAll args place xs)
  | .expr form spelling xs => return .expr form spelling (← instantiateAll args place xs)
  | .name _ | .abbreviation _ | .unnamedType _ | .closure _ _ => return node
termination_by (sizeOf node, 0)
decreasing_by all_goals (simp_wf; omega)

def expand (args : List Node) (pattern : Node) : Spending Node := do
  match packSize? args pattern with
  | some size => return .pack (← (List.range size).mapM fun i => instantiate args (some i) pattern)
  | none => return .expansion (← instantiate args none pattern)
termination_by (sizeOf pattern, 1)
decreasing_by all_goals omega

def instantiateAll (args : List Node) (place : Option Nat) : List Node → Spending (List Node)
  | [] => return []
  | x :: xs => return (← instantiate args place x) :: (← instantiateAll args place xs)
termination_by xs => (sizeOf xs, 0)
decreasing_by all_goals (simp_wf; omega)

def instantiateOption (args : List Node) (place : Option Nat) :
    Option Node → Spending (Option Node)
  | none => return none
  | some x => return some (← instantiate args place x)
termination_by x => (sizeOf x, 0)
decreasing_by all_goals (simp_wf; omega)

def instantiateExtent (args : List Node) (place : Option Nat) :
    Extent Node → Spending (Extent Node)
  | .computed x => return .computed (← instantiate args place x)
  | extent => return extent
termination_by extent => (sizeOf extent, 0)
decreasing_by all_goals (simp_wf; omega)

end

def maxInstanceSize : Nat := 65536

def instance? (args : List Node) (node : Node) : Option Node :=
  (instantiate args none node maxInstanceSize).map (·.1)

end CxxSymbols.Itanium.Node
