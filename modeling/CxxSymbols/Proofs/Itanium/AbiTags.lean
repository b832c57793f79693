import CxxSymbols.Itanium.Canonical
import Mathlib.Data.List.Forall2
/-!
ABI tags in Itanium trees. A tag tells versions of an entity apart that the source does not, so it
is no part of the entity's key. `untagged` replaces each tagged name by what is tagged, at any
depth, and `untaggedAlike` says that nothing in the canonical form changes by that, provided that
tags stand only where a name can take one.
-/
namespace CxxSymbols.Itanium
open Canonical

namespace Node

/-! ### Trees without tags -/

def takesTag : Node → Bool
  | .name _ | .unnamedType _ | .closure .. | .binding _ | .structor .. | .conversion _ => true
  | .abiTag base _ => base.takesTag
  | _ => false

mutual

/- Whether every tag, at any depth, is on something that takes one. -/
def tagsInPlace : Node → Bool
  | .name _ | .abbreviation _ | .unnamedType _ | .templateParam _ => true
  | .abiTag x _ => x.takesTag && x.tagsInPlace
  | .std x | .conversion x | .pointer x | .expansion x | .decltype x | .special _ x
  | .qualified x _ | .vendorQualified x _ | .reference x _ | .literal x _ | .clone x _ =>
    x.tagsInPlace
  | .nested a b | .inBody a b | .constructionVTable a b | .memberPointer a b =>
    a.tagsInPlace && b.tagsInPlace
  | .structor cls _ namesake => cls.tagsInPlace && tagsInPlace? namesake
  | .array extent x | .vector extent x => tagsInExtent extent && x.tagsInPlace
  | .template x xs => x.tagsInPlace && allTagsInPlace xs
  | .closure xs _ | .binding xs | .pack xs | .expr _ _ xs => allTagsInPlace xs
  | .function ret x xs _ _ => tagsInPlace? ret && x.tagsInPlace && allTagsInPlace xs
  | .functionType ret xs _ _ specifiers =>
    ret.tagsInPlace && allTagsInPlace xs && allTagsInPlace specifiers

def allTagsInPlace : List Node → Bool
  | [] => true
  | x :: xs => x.tagsInPlace && allTagsInPlace xs

def tagsInPlace? : Option Node → Bool
  | none => true
  | some x => x.tagsInPlace

def tagsInExtent : Extent Node → Bool
  | .unstated | .number _ => true
  | .computed x => x.tagsInPlace

end

mutual

def untagged : Node → Node
  | .name spelling => .name spelling
  | .nested scope entity => .nested scope.untagged entity.untagged
  | .std child => .std child.untagged
  | .template base args => .template base.untagged (allUntagged args)
  | .abbreviation abbr => .abbreviation abbr
  | .abiTag base _ => base.untagged
  | .structor cls isDestructor namesake =>
    .structor cls.untagged isDestructor (untagged? namesake)
  | .conversion target => .conversion target.untagged
  | .unnamedType index => .unnamedType index
  | .closure params index => .closure (allUntagged params) index
  | .binding items => .binding (allUntagged items)
  | .inBody encoding entity => .inBody encoding.untagged entity.untagged
  | .function ret entity params quals refQual =>
    .function (untagged? ret) entity.untagged (allUntagged params) quals refQual
  | .special kind child => .special kind child.untagged
  | .constructionVTable first second => .constructionVTable first.untagged second.untagged
  | .qualified child quals => .qualified child.untagged quals
  | .vendorQualified child vendor => .vendorQualified child.untagged vendor
  | .pointer child => .pointer child.untagged
  | .reference child isRvalue => .reference child.untagged isRvalue
  | .memberPointer cls member => .memberPointer cls.untagged member.untagged
  | .array extent element => .array (untaggedExtent extent) element.untagged
  | .vector extent element => .vector (untaggedExtent extent) element.untagged
  | .functionType ret params quals refQual specifiers =>
    .functionType ret.untagged (allUntagged params) quals refQual (allUntagged specifiers)
  | .templateParam index => .templateParam index
  | .pack items => .pack (allUntagged items)
  | .expansion pattern => .expansion pattern.untagged
  | .literal type value => .literal type.untagged value
  | .expr form spelling operands => .expr form spelling (allUntagged operands)
  | .decltype expression => .decltype expression.untagged
  | .clone base suffix => .clone base.untagged suffix

def allUntagged : List Node → List Node
  | [] => []
  | x :: xs => x.untagged :: allUntagged xs

def untagged? : Option Node → Option Node
  | none => none
  | some x => some x.untagged

def untaggedExtent : Extent Node → Extent Node
  | .unstated => .unstated
  | .number digits => .number digits
  | .computed x => .computed x.untagged

end

/-! ### Trees that nothing tells apart -/

attribute [local simp] toRoot toType pieces toTypes toType? eachType expand?

/- Two trees that are converted alike wherever one of them stands: as a symbol, as a type, as a
name, in a list, as the name of a function, and as a pattern that is expanded. -/
structure Alike (y x : Node) : Prop where
  root : y.toRoot = x.toRoot
  type : y.toType = x.toType
  pieces : y.pieces = x.pieces
  listed : toTypes [y] = toTypes [x]
  declared : ∀ ret params quals refQual,
    toRoot (.function ret y params quals refQual) = toRoot (.function ret x params quals refQual)
  expanded : expand? y = expand? x

theorem Alike.refl (x : Node) : Alike x x := ⟨rfl, rfl, rfl, rfl, fun _ _ _ _ => rfl, rfl⟩

theorem Alike.trans {x y z : Node} (first : Alike x y) (second : Alike y z) : Alike x z where
  root := first.root.trans second.root
  type := first.type.trans second.type
  pieces := first.pieces.trans second.pieces
  listed := first.listed.trans second.listed
  declared ret params quals refQual :=
    (first.declared ret params quals refQual).trans (second.declared ret params quals refQual)
  expanded := first.expanded.trans second.expanded

theorem toTypesCons (x : Node) (xs : List Node) : toTypes (x :: xs) = toTypes [x] ++ toTypes xs := by
  cases x <;> simp

theorem toTypesAlike {ys xs : List Node} (each : List.Forall₂ Alike ys xs) :
    toTypes ys = toTypes xs := by
  induction each with
  | nil => rfl
  | @cons y x ys xs head _ ih => rw [toTypesCons y, toTypesCons x, head.listed, ih]

theorem eachTypeAlike {ys xs : List Node} (each : List.Forall₂ Alike ys xs) :
    eachType ys = eachType xs := by
  induction each with
  | nil => rfl
  | cons head _ ih => rw [eachType, eachType, head.type, ih]

theorem toTypeAlike? {y? x? : Option Node} (each : Option.Rel Alike y? x?) :
    toType? y? = toType? x? := by
  cases each with
  | none => rfl
  | some one => rw [toType?, toType?, one.type]

def standsAlone : Node → Bool
  | .pack _ | .expansion _ | .inBody .. | .pointer _ | .reference .. | .qualified .. => false
  | _ => true

theorem aloneListed {x : Node} (alone : x.standsAlone = true) : toTypes [x] = [x.toType] := by
  cases x <;> simp_all [standsAlone]

theorem aloneDeclared {x : Node} (alone : x.standsAlone = true) (ret : Option Node)
    (params : List Node) (quals : Qualifiers) (refQual : RefQualifier) :
    toRoot (.function ret x params quals refQual) =
      .function (nameOf x.pieces) ⟨toTypes params, toType? ret, quals, refQual⟩ := by
  cases x <;> simp_all [standsAlone]

theorem aloneExpanded {x : Node} (alone : x.standsAlone = true) : expand? x = none := by
  cases x <;> simp_all [standsAlone]

theorem Alike.alone {y x : Node} (first : y.standsAlone = true) (second : x.standsAlone = true)
    (root : y.toRoot = x.toRoot) (type : y.toType = x.toType) (pieces : y.pieces = x.pieces) :
    Alike y x where
  root
  type
  pieces
  listed := by rw [aloneListed first, aloneListed second, type]
  declared ret params quals refQual := by
    rw [aloneDeclared first, aloneDeclared second, pieces]
  expanded := by rw [aloneExpanded first, aloneExpanded second]

/-! ### The same around trees that are alike -/

def formless : Node → Bool
  | .unnamedType _ | .closure .. | .binding _ | .constructionVTable .. | .memberPointer ..
  | .array .. | .vector .. | .templateParam _ | .literal .. | .expr .. | .decltype _ => true
  | _ => false

theorem formlessForms {x : Node} (formless : x.formless = true) :
    x.standsAlone = true ∧ x.toRoot = .unknown ∧ x.toType = .skipped ∧
      x.pieces = [.plain skippedName] := by
  cases x <;> simp_all [Node.formless, standsAlone]

namespace Alike

theorem ofFormless {y x : Node} (first : y.formless = true) (second : x.formless = true) :
    Alike y x := by
  obtain ⟨alone, root, type, pieces⟩ := formlessForms first
  obtain ⟨alone', root', type', pieces'⟩ := formlessForms second
  exact .alone alone alone' (root.trans root'.symm) (type.trans type'.symm)
    (pieces.trans pieces'.symm)

section

variable {a b x y : Node} {xs ys : List Node}

theorem nested (scope : Alike a b) (entity : Alike y x) : Alike (.nested a y) (.nested b x) :=
  .alone rfl rfl (by rw [toRoot, toRoot, scope.pieces, entity.pieces])
    (by rw [toType, toType, scope.pieces, entity.pieces])
    (by rw [Node.pieces, Node.pieces, scope.pieces, entity.pieces])

theorem std (child : Alike y x) : Alike (.std y) (.std x) :=
  .alone rfl rfl (by rw [toRoot, toRoot, child.pieces]) (by rw [toType, toType, child.pieces])
    (by rw [Node.pieces, Node.pieces, child.pieces])

theorem template (base : Alike y x) (args : toTypes ys = toTypes xs) :
    Alike (.template y ys) (.template x xs) :=
  .alone rfl rfl (by rw [toRoot, toRoot, base.pieces, args])
    (by rw [toType, toType, base.pieces, args])
    (by rw [Node.pieces, Node.pieces, base.pieces, args])

theorem structor (cls cls' : Node) (isDestructor : Bool) (namesake namesake' : Option Node) :
    Alike (.structor cls isDestructor namesake) (.structor cls' isDestructor namesake') :=
  .alone rfl rfl rfl rfl rfl

theorem conversion (target target' : Node) : Alike (.conversion target) (.conversion target') :=
  .alone rfl rfl rfl rfl rfl

theorem special (kind : SpecialKind) (child : Alike y x) :
    Alike (.special kind y) (.special kind x) :=
  .alone rfl rfl (by rw [toRoot, toRoot, child.type]) rfl rfl

theorem vendorQualified (child : Alike y x) (vendor : String) :
    Alike (.vendorQualified y vendor) (.vendorQualified x vendor) :=
  .alone rfl rfl rfl (by rw [toType, toType, child.type]) rfl

theorem clone (base : Alike y x) (suffix : String) : Alike (.clone y suffix) (.clone x suffix) :=
  .alone rfl rfl (by rw [toRoot, toRoot, base.root]) rfl
    (by rw [Node.pieces, Node.pieces, base.pieces])

theorem functionType (ret : Alike y x) (params : toTypes ys = toTypes xs) (quals : Qualifiers)
    (refQual : RefQualifier) (specifiers specifiers' : List Node) :
    Alike (.functionType y ys quals refQual specifiers)
      (.functionType x xs quals refQual specifiers') :=
  .alone rfl rfl rfl (by rw [toType, toType, ret.type, params]) rfl

theorem function {ret ret' : Option Node} (result : Option.Rel Alike ret ret')
    (entity : Alike y x) (params : toTypes ys = toTypes xs) (quals : Qualifiers)
    (refQual : RefQualifier) :
    Alike (.function ret y ys quals refQual) (.function ret' x xs quals refQual) := by
  have signature : toRoot (.function ret x ys quals refQual) =
      toRoot (.function ret' x xs quals refQual) := by
    cases x <;> simp [params, toTypeAlike? result]
  exact .alone rfl rfl ((entity.declared ret ys quals refQual).trans signature) rfl rfl

theorem inBody (encoding : Alike a b) (entity : Alike y x) :
    Alike (.inBody a y) (.inBody b x) where
  root := by rw [toRoot, toRoot, encoding.root, entity.type]
  type := by rw [toType, toType, encoding.root, entity.type]
  pieces := by rw [Node.pieces, Node.pieces, entity.pieces]
  listed := by simp [encoding.root, entity.type]
  declared ret params quals refQual := by
    rw [toRoot, toRoot, encoding.root, entity.pieces]
  expanded := rfl

theorem pointer (child : Alike y x) : Alike (.pointer y) (.pointer x) where
  root := rfl
  type := by rw [toType, toType, child.type]
  pieces := rfl
  listed := by simp [child.type]
  declared _ _ _ _ := rfl
  expanded := by rw [expand?, expand?, child.expanded]

theorem reference (child : Alike y x) (isRvalue : Bool) :
    Alike (.reference y isRvalue) (.reference x isRvalue) where
  root := rfl
  type := by rw [toType, toType, child.type]
  pieces := rfl
  listed := by simp [child.type]
  declared _ _ _ _ := rfl
  expanded := by rw [expand?, expand?, child.expanded]

theorem qualified (child : Alike y x) (quals : Qualifiers) :
    Alike (.qualified y quals) (.qualified x quals) where
  root := rfl
  type := by rw [toType, toType, child.type]
  pieces := rfl
  listed := by simp [child.type]
  declared _ _ _ _ := rfl
  expanded := by rw [expand?, expand?, child.expanded]

theorem pack (items : List.Forall₂ Alike ys xs) : Alike (.pack ys) (.pack xs) where
  root := rfl
  type := rfl
  pieces := rfl
  listed := by simp only [toTypes, eachTypeAlike items]
  declared _ _ _ _ := rfl
  expanded := by rw [expand?, expand?, eachTypeAlike items]

theorem expansion (pattern : Alike y x) : Alike (.expansion y) (.expansion x) where
  root := rfl
  type := rfl
  pieces := rfl
  listed := by simp only [toTypes, pattern.expanded]
  declared _ _ _ _ := rfl
  expanded := rfl

end

theorem tagged {base : Node} (takes : base.takesTag = true) (tag : String) :
    Alike base (.abiTag base tag) := by
  have alone : base.standsAlone = true := by
    cases base <;> first | rfl | cases takes
  exact .alone alone rfl (by rw [toRoot]) (by rw [toType]) (by rw [Node.pieces])

end Alike

/-! ### What becomes of a tree without its tags -/

-- The induction is over the tree. A tag is the only place where the two trees differ; around it,
-- trees that are alike stay so.
mutual

theorem untaggedAlike : (x : Node) → x.tagsInPlace = true → Alike x.untagged x
  | .abiTag base tag, inPlace => by
    rw [tagsInPlace, Bool.and_eq_true] at inPlace
    rw [untagged]
    exact (untaggedAlike base inPlace.2).trans (.tagged inPlace.1 tag)
  | .name _, _ | .abbreviation _, _ | .templateParam _, _ | .unnamedType _, _ => by
    rw [untagged]
    exact .refl _
  | .nested scope entity, inPlace => by
    rw [tagsInPlace, Bool.and_eq_true] at inPlace
    rw [untagged]
    exact .nested (untaggedAlike scope inPlace.1) (untaggedAlike entity inPlace.2)
  | .std child, inPlace => by
    rw [tagsInPlace] at inPlace
    rw [untagged]
    exact .std (untaggedAlike child inPlace)
  | .template base args, inPlace => by
    rw [tagsInPlace, Bool.and_eq_true] at inPlace
    rw [untagged]
    exact .template (untaggedAlike base inPlace.1) (toTypesAlike (allUntaggedAlike args inPlace.2))
  | .structor .., _ => by
    rw [untagged]
    exact .structor ..
  | .conversion _, _ => by
    rw [untagged]
    exact .conversion ..
  | .inBody encoding entity, inPlace => by
    rw [tagsInPlace, Bool.and_eq_true] at inPlace
    rw [untagged]
    exact .inBody (untaggedAlike encoding inPlace.1) (untaggedAlike entity inPlace.2)
  | .function ret entity params quals refQual, inPlace => by
    rw [tagsInPlace, Bool.and_eq_true, Bool.and_eq_true] at inPlace
    rw [untagged]
    exact .function (untaggedAlike? ret inPlace.1.1) (untaggedAlike entity inPlace.1.2)
      (toTypesAlike (allUntaggedAlike params inPlace.2)) quals refQual
  | .special kind child, inPlace => by
    rw [tagsInPlace] at inPlace
    rw [untagged]
    exact .special kind (untaggedAlike child inPlace)
  | .qualified child quals, inPlace => by
    rw [tagsInPlace] at inPlace
    rw [untagged]
    exact .qualified (untaggedAlike child inPlace) quals
  | .vendorQualified child vendor, inPlace => by
    rw [tagsInPlace] at inPlace
    rw [untagged]
    exact .vendorQualified (untaggedAlike child inPlace) vendor
  | .pointer child, inPlace => by
    rw [tagsInPlace] at inPlace
    rw [untagged]
    exact .pointer (untaggedAlike child inPlace)
  | .reference child isRvalue, inPlace => by
    rw [tagsInPlace] at inPlace
    rw [untagged]
    exact .reference (untaggedAlike child inPlace) isRvalue
  | .functionType ret params quals refQual specifiers, inPlace => by
    rw [tagsInPlace, Bool.and_eq_true, Bool.and_eq_true] at inPlace
    rw [untagged]
    exact .functionType (untaggedAlike ret inPlace.1.1)
      (toTypesAlike (allUntaggedAlike params inPlace.1.2)) ..
  | .pack items, inPlace => by
    rw [tagsInPlace] at inPlace
    rw [untagged]
    exact .pack (allUntaggedAlike items inPlace)
  | .expansion pattern, inPlace => by
    rw [tagsInPlace] at inPlace
    rw [untagged]
    exact .expansion (untaggedAlike pattern inPlace)
  | .clone base suffix, inPlace => by
    rw [tagsInPlace] at inPlace
    rw [untagged]
    exact .clone (untaggedAlike base inPlace) suffix
  | .closure .., _ | .binding _, _ | .constructionVTable .., _ | .memberPointer .., _
  | .array .., _ | .vector .., _ | .literal .., _ | .expr .., _ | .decltype _, _ => by
    rw [untagged]
    exact .ofFormless rfl rfl

theorem allUntaggedAlike : (xs : List Node) → allTagsInPlace xs = true →
    List.Forall₂ Alike (allUntagged xs) xs
  | [], _ => by
    rw [allUntagged]
    exact .nil
  | x :: xs, inPlace => by
    rw [allTagsInPlace, Bool.and_eq_true] at inPlace
    rw [allUntagged]
    exact .cons (untaggedAlike x inPlace.1) (allUntaggedAlike xs inPlace.2)

theorem untaggedAlike? : (x? : Option Node) → tagsInPlace? x? = true →
    Option.Rel Alike (untagged? x?) x?
  | none, _ => by
    rw [untagged?]
    exact .none
  | some x, inPlace => by
    rw [tagsInPlace?] at inPlace
    rw [untagged?]
    exact .some (untaggedAlike x inPlace)

end

end Node

end CxxSymbols.Itanium
