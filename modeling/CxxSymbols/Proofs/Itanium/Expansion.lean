import CxxSymbols.Proofs.Itanium.AbiTags
/-!
Packs in lists. An expansion whose pattern is a pack under pointers, references and qualifiers
stands for the elements of the pack under the same, one after the other, and so does a pack by
itself. So the instance of a variadic template has the root of the function that is written out.
-/
namespace CxxSymbols.Itanium
open Canonical

inductive Wrapper where
  | pointer
  | reference (isRvalue : Bool)
  | qualified (quals : Qualifiers)
  deriving DecidableEq, Repr

namespace Wrapper

def around : Wrapper → Node → Node
  | pointer, x => .pointer x
  | reference isRvalue, x => .reference x isRvalue
  | qualified quals, x => .qualified x quals

def aroundType : Wrapper → Ty → Ty
  | pointer, t => .indirect t .pointer
  | reference isRvalue, t => .indirect t (if isRvalue then .rvalueReference else .reference)
  | qualified quals, t => t.withQualifiers quals

end Wrapper

namespace Node

def wrapped (chain : List Wrapper) (x : Node) : Node := chain.foldr Wrapper.around x

def isItem : Node → Bool
  | .pack _ | .expansion _ => false
  | _ => true

/-! ### Lists -/

attribute [local simp] toType toTypes eachType expand?

theorem toTypesAppend (xs ys : List Node) : toTypes (xs ++ ys) = toTypes xs ++ toTypes ys := by
  induction xs with
  | nil => simp
  | cons x xs ih => rw [List.cons_append, toTypesCons, toTypesCons x xs, ih, List.append_assoc]

theorem eachTypeMap (xs : List Node) : eachType xs = xs.map toType := by
  induction xs with
  | nil => simp
  | cons x xs ih => rw [eachType, ih, List.map_cons]

theorem itemsListed {xs : List Node} (items : ∀ x ∈ xs, x.isItem = true) :
    toTypes xs = xs.map toType := by
  induction xs with
  | nil => simp
  | cons x xs ih =>
    obtain ⟨item, others⟩ := List.forall_mem_cons.mp items
    have alone : toTypes [x] = [x.toType] := by cases x <;> simp_all [isItem]
    rw [toTypesCons, alone, ih others, List.map_cons, List.singleton_append]

/-! ### Patterns -/

theorem wrappedType (chain : List Wrapper) (x : Node) :
    (wrapped chain x).toType = chain.foldr Wrapper.aroundType x.toType := by
  induction chain with
  | nil => rfl
  | cons w chain ih =>
    rw [List.foldr_cons, ← ih]
    cases w <;> rw [wrapped, List.foldr_cons, Wrapper.around, toType] <;> rfl

theorem expandAround (w : Wrapper) (x : Node) :
    expand? (w.around x) = (expand? x).map (·.map w.aroundType) := by
  cases w <;> rw [Wrapper.around, expand?] <;> rfl

theorem expandWrapped (chain : List Wrapper) (xs : List Node) :
    expand? (wrapped chain (.pack xs)) = some (xs.map fun x => (wrapped chain x).toType) := by
  induction chain with
  | nil => simp [wrapped, eachTypeMap]
  | cons w chain ih =>
    have outermost : wrapped (w :: chain) (.pack xs) = w.around (wrapped chain (.pack xs)) := rfl
    rw [outermost, expandAround, ih, Option.map_some, List.map_map]
    simp only [wrappedType, List.foldr_cons, Function.comp_def]

/- There are no other patterns that are expanded. -/
theorem wrappedOfExpanded : {pattern : Node} → (expand? pattern).isSome = true →
    ∃ chain xs, pattern = wrapped chain (.pack xs)
  | .pack xs, _ => ⟨[], xs, rfl⟩
  | .pointer child, expanded => by
    rw [expand?, Option.isSome_map] at expanded
    obtain ⟨chain, xs, rfl⟩ := wrappedOfExpanded expanded
    exact ⟨.pointer :: chain, xs, rfl⟩
  | .reference child isRvalue, expanded => by
    rw [expand?, Option.isSome_map] at expanded
    obtain ⟨chain, xs, rfl⟩ := wrappedOfExpanded expanded
    exact ⟨.reference isRvalue :: chain, xs, rfl⟩
  | .qualified child quals, expanded => by
    rw [expand?, Option.isSome_map] at expanded
    obtain ⟨chain, xs, rfl⟩ := wrappedOfExpanded expanded
    exact ⟨.qualified quals :: chain, xs, rfl⟩
  | .name _, expanded | .nested .., expanded | .std _, expanded | .template .., expanded
  | .abbreviation _, expanded | .abiTag .., expanded | .structor .., expanded
  | .conversion _, expanded | .unnamedType _, expanded | .closure .., expanded
  | .binding _, expanded | .inBody .., expanded | .function .., expanded | .special .., expanded
  | .constructionVTable .., expanded | .vendorQualified .., expanded
  | .memberPointer .., expanded | .array .., expanded | .vector .., expanded
  | .functionType .., expanded | .templateParam _, expanded | .expansion _, expanded
  | .literal .., expanded | .expr .., expanded | .decltype _, expanded
  | .clone .., expanded => by simp at expanded

/-! ### Packs written out -/

theorem expansionListed {chain : List Wrapper} {xs : List Node}
    (items : ∀ x ∈ xs, (wrapped chain x).isItem = true) :
    toTypes [.expansion (wrapped chain (.pack xs))] = toTypes (xs.map (wrapped chain)) := by
  have each : ∀ x ∈ xs.map (wrapped chain), x.isItem = true := List.forall_mem_map.mpr items
  rw [itemsListed each, List.map_map]
  simp [expandWrapped]

theorem packListed {xs : List Node} (items : ∀ x ∈ xs, x.isItem = true) :
    toTypes [.pack xs] = toTypes xs := by
  rw [itemsListed items]
  simp [eachTypeMap]

theorem otherListed {pattern : Node}
    (other : ∀ chain xs, pattern ≠ wrapped chain (.pack xs)) :
    toTypes [.expansion pattern] = [.skipped] := by
  have unexpanded : expand? pattern = none := by
    cases expanded : expand? pattern with
    | none => rfl
    | some types =>
      obtain ⟨chain, xs, same⟩ := wrappedOfExpanded (by rw [expanded]; rfl)
      exact absurd same (other chain xs)
  simp [unexpanded]

theorem Alike.abiTag {x y : Node} (base : Alike y x) (tag : String) :
    Alike (.abiTag y tag) (.abiTag x tag) :=
  .alone rfl rfl (by rw [toRoot, toRoot, base.root]) (by rw [toType, toType, base.type])
    (by rw [Node.pieces, Node.pieces, base.pieces])

mutual

/- The second tree is the first with packs written out, in any list of parameters or arguments that
the canonical form shows, at any depth. -/
inductive WrittenOut : Node → Node → Prop where
  | same (x : Node) : WrittenOut x x
  | further {x y z : Node} (first : WrittenOut x y) (second : WrittenOut y z) : WrittenOut x z
  | nested {a b x y : Node} (scope : WrittenOut a b) (entity : WrittenOut x y) :
      WrittenOut (.nested a x) (.nested b y)
  | std {x y : Node} (child : WrittenOut x y) : WrittenOut (.std x) (.std y)
  | template {x y : Node} {xs ys : List Node} (base : WrittenOut x y)
      (args : AllWrittenOut xs ys) : WrittenOut (.template x xs) (.template y ys)
  | abiTag {x y : Node} (base : WrittenOut x y) (tag : String) :
      WrittenOut (.abiTag x tag) (.abiTag y tag)
  | clone {x y : Node} (base : WrittenOut x y) (suffix : String) :
      WrittenOut (.clone x suffix) (.clone y suffix)
  | inBody {a b x y : Node} (encoding : WrittenOut a b) (entity : WrittenOut x y) :
      WrittenOut (.inBody a x) (.inBody b y)
  | function {ret ret' : Option Node} {x y : Node} {xs ys : List Node}
      (result : MaybeWrittenOut ret ret') (entity : WrittenOut x y) (params : AllWrittenOut xs ys)
      (quals : Qualifiers) (refQual : RefQualifier) :
      WrittenOut (.function ret x xs quals refQual) (.function ret' y ys quals refQual)
  | functionType {x y : Node} {xs ys : List Node} (ret : WrittenOut x y)
      (params : AllWrittenOut xs ys) (quals : Qualifiers) (refQual : RefQualifier)
      (specifiers : List Node) : WrittenOut (.functionType x xs quals refQual specifiers)
        (.functionType y ys quals refQual specifiers)
  | special {x y : Node} (kind : SpecialKind) (child : WrittenOut x y) :
      WrittenOut (.special kind x) (.special kind y)
  | around {x y : Node} (w : Wrapper) (child : WrittenOut x y) :
      WrittenOut (w.around x) (w.around y)
  | vendorQualified {x y : Node} (child : WrittenOut x y) (vendor : String) :
      WrittenOut (.vendorQualified x vendor) (.vendorQualified y vendor)

inductive AllWrittenOut : List Node → List Node → Prop where
  | nil : AllWrittenOut [] []
  | further {xs ys zs : List Node} (first : AllWrittenOut xs ys) (second : AllWrittenOut ys zs) :
      AllWrittenOut xs zs
  | item {x y : Node} {xs ys : List Node} (head : WrittenOut x y) (tail : AllWrittenOut xs ys) :
      AllWrittenOut (x :: xs) (y :: ys)
  | expansion {chain : List Wrapper} {xs ys zs : List Node}
      (items : ∀ x ∈ xs, (wrapped chain x).isItem = true) (tail : AllWrittenOut ys zs) :
      AllWrittenOut (.expansion (wrapped chain (.pack xs)) :: ys) (xs.map (wrapped chain) ++ zs)
  | pack {xs ys zs : List Node} (items : ∀ x ∈ xs, x.isItem = true)
      (tail : AllWrittenOut ys zs) : AllWrittenOut (.pack xs :: ys) (xs ++ zs)

inductive MaybeWrittenOut : Option Node → Option Node → Prop where
  | none : MaybeWrittenOut none none
  | some {x y : Node} (one : WrittenOut x y) : MaybeWrittenOut (some x) (some y)

end

-- Packs are written out in lists only. Around a list, trees that are alike stay so.
mutual

theorem WrittenOut.alike {x y : Node} : WrittenOut x y → Alike x y
  | .same x => .refl x
  | .further first second => first.alike.trans second.alike
  | .nested scope entity => .nested scope.alike entity.alike
  | .std child => .std child.alike
  | .template base args => .template base.alike args.listed
  | .abiTag base tag => .abiTag base.alike tag
  | .clone base suffix => .clone base.alike suffix
  | .inBody encoding entity => .inBody encoding.alike entity.alike
  | .function result entity params quals refQual =>
    .function result.related entity.alike params.listed quals refQual
  | .functionType ret params quals refQual specifiers =>
    .functionType ret.alike params.listed quals refQual specifiers specifiers
  | .special kind child => .special kind child.alike
  | .around .pointer child => .pointer child.alike
  | .around (.reference isRvalue) child => .reference child.alike isRvalue
  | .around (.qualified quals) child => .qualified child.alike quals
  | .vendorQualified child vendor => .vendorQualified child.alike vendor

theorem AllWrittenOut.listed {xs ys : List Node} : AllWrittenOut xs ys → toTypes xs = toTypes ys
  | .nil => rfl
  | .further first second => first.listed.trans second.listed
  | .item head tail => by rw [toTypesCons, head.alike.listed, tail.listed, ← toTypesCons]
  | .expansion items tail => by
    rw [toTypesCons, expansionListed items, tail.listed, toTypesAppend]
  | .pack items tail => by rw [toTypesCons, packListed items, tail.listed, toTypesAppend]

theorem MaybeWrittenOut.related {x? y? : Option Node} :
    MaybeWrittenOut x? y? → Option.Rel Alike x? y?
  | .none => .none
  | .some one => .some one.alike

end

/- An expansion of a pack under a chain of wrappers means the elements under this chain in its place,
and a pack its elements, as long as none of these is a pack or an expansion itself. Any other
expansion is one skipped type. So a symbol keeps its root and its key when its packs are written
out. -/
theorem packsWrittenOut :
    (∀ (chain : List Wrapper) (xs before after : List Node),
      (∀ x ∈ xs, (wrapped chain x).isItem = true) →
        toTypes (before ++ .expansion (wrapped chain (.pack xs)) :: after) =
          toTypes (before ++ xs.map (wrapped chain) ++ after)) ∧
    (∀ xs before after : List Node, (∀ x ∈ xs, x.isItem = true) →
      toTypes (before ++ .pack xs :: after) = toTypes (before ++ xs ++ after)) ∧
    (∀ (pattern : Node) (before after : List Node),
      (∀ chain xs, pattern ≠ wrapped chain (.pack xs)) →
        toTypes (before ++ .expansion pattern :: after) =
          toTypes before ++ .skipped :: toTypes after) ∧
    ∀ x y : Node, WrittenOut x y → x.toRoot = y.toRoot ∧ x.toRoot.key = y.toRoot.key := by
  have inPlace (x : Node) (xs before after : List Node) (listed : toTypes [x] = toTypes xs) :
      toTypes (before ++ x :: after) = toTypes (before ++ xs ++ after) := by
    rw [toTypesAppend, toTypesCons, listed, ← toTypesAppend, ← toTypesAppend, List.append_assoc]
  refine ⟨fun chain xs before after items => inPlace _ _ before after (expansionListed items),
    fun xs before after items => inPlace _ _ before after (packListed items),
    fun pattern before after other => ?_, fun x y written => ?_⟩
  · rw [toTypesAppend, toTypesCons, otherListed other, List.singleton_append]
  · have root := written.alike.root
    exact ⟨root, congrArg Root.key root⟩

theorem variadicWrittenOut :
    let const : Node → Node := wrapped [.reference false, .qualified ⟨true, false, false⟩]
    let args : List Node := [.name "int", .name "long"]
    let variadic := Node.function (some (.name "void")) (.template (.name "f") [.pack args])
      [.expansion (const (.pack args))] {} .none
    let plain := Node.function (some (.name "void")) (.template (.name "f") args)
      (args.map const) {} .none
    WrittenOut variadic plain ∧ variadic.toRoot.key = plain.toRoot.key ∧
      plain.toRoot.key = "f<int, long>(& const int, & const long) -> void" := by
  intro const args variadic plain
  have params : AllWrittenOut [.expansion (const (.pack args))] (args.map const ++ []) :=
    .expansion (by decide) .nil
  have list : AllWrittenOut [.pack args] (args ++ []) := .pack (by decide) .nil
  have written : WrittenOut variadic plain :=
    .function (.some (.same _)) (.template (.same _) list) params _ _
  exact ⟨written, (packsWrittenOut.2.2.2 _ _ written).2, by decide +kernel⟩

end Node
end CxxSymbols.Itanium
