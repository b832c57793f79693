import CxxSymbols.Canonical.StdAlias
import CxxSymbols.Itanium.Node
/-!
The canonical form of Itanium trees. It is total: a tree that the model has no form for becomes an
unknown root or a skipped type. A parameter pack, and an expansion whose pattern is a pack under
pointers, references and qualifiers, stands for its elements in the list that holds it.
-/
namespace CxxSymbols.Itanium
open Canonical

def nameOf (pieces : List Piece) : Name := (Name.ofPieces pieces).stdAlias

/- Gives arguments to the last piece. If it has some already, they go to a piece of their own. -/
def withArgs (pieces : List Piece) (args : List Ty) : List Piece :=
  match pieces.getLast? with
  | some ⟨spelling, none⟩ => pieces.dropLast ++ [.template spelling args]
  | _ => pieces ++ [.template skippedName args]

def StdAbbreviation.pieces (abbr : StdAbbreviation) : List Piece :=
  [.plain "std", .plain abbr.identifier]

def SpecialKind.canonical? : SpecialKind → Option Canonical.SpecialKind
  | virtualTable => some .vtable
  | typeInfo => some .typeInfo
  | typeInfoName => some .typeInfoName
  | _ => none

namespace Node

mutual

def toRoot : Node → Root
  | .abiTag base _ | .clone base _ => base.toRoot
  | .name spelling => .data (nameOf [.plain spelling]) none
  | .nested scope entity => .data (nameOf (scope.pieces ++ entity.pieces)) none
  | .std child => .data (nameOf (.plain "std" :: child.pieces)) none
  | .template base args => .data (nameOf (withArgs base.pieces (toTypes args))) none
  | .abbreviation abbr => .data (nameOf abbr.pieces) none
  | .inBody encoding entity => .nested ⟨encoding.toRoot, entity.toType, none⟩
  | .special kind child =>
    match kind.canonical? with
    | some kind => .special kind child.toType
    | none => .unknown
  | .function ret (.inBody encoding entity) params quals refQual =>
    .nested ⟨encoding.toRoot, .named (nameOf entity.pieces),
      some (.function ⟨toTypes params, toType? ret, quals, refQual⟩)⟩
  | .function ret entity params quals refQual =>
    .function (nameOf entity.pieces) ⟨toTypes params, toType? ret, quals, refQual⟩
  | _ => .unknown

def toType : Node → Ty
  | .name spelling => .named (nameOf [.plain spelling])
  | .nested scope entity => .named (nameOf (scope.pieces ++ entity.pieces))
  | .std child => .named (nameOf (.plain "std" :: child.pieces))
  | .template base args => .named (nameOf (withArgs base.pieces (toTypes args)))
  | .abbreviation abbr => .named (nameOf abbr.pieces)
  | .inBody encoding entity => .nested ⟨encoding.toRoot, entity.toType, none⟩
  | .functionType ret params quals refQual _ =>
    .function ⟨toTypes params, some ret.toType, quals, refQual⟩
  | .pointer child => .indirect child.toType .pointer
  | .reference child isRvalue =>
    .indirect child.toType (if isRvalue then .rvalueReference else .reference)
  | .qualified child quals => child.toType.withQualifiers quals
  | .vendorQualified child _ | .abiTag child _ => child.toType
  | _ => .skipped

def toType? : Option Node → Option Ty
  | none => none
  | some x => some x.toType

def toTypes : List Node → List Ty
  | [] => []
  | .pack items :: rest => eachType items ++ toTypes rest
  | .expansion pattern :: rest => (expand? pattern).getD [.skipped] ++ toTypes rest
  | x :: rest => x.toType :: toTypes rest

def eachType : List Node → List Ty
  | [] => []
  | x :: rest => x.toType :: eachType rest

def expand? : Node → Option (List Ty)
  | .pack items => some (eachType items)
  | .pointer child => (expand? child).map (·.map (.indirect · .pointer))
  | .reference child isRvalue =>
    (expand? child).map (·.map (.indirect · (if isRvalue then .rvalueReference else .reference)))
  | .qualified child quals => (expand? child).map (·.map (·.withQualifiers quals))
  | _ => none

def pieces : Node → List Piece
  | .name spelling => [.plain spelling]
  | .nested scope entity => scope.pieces ++ entity.pieces
  | .std child => .plain "std" :: child.pieces
  | .abbreviation abbr => abbr.pieces
  | .template base args => withArgs base.pieces (toTypes args)
  | .abiTag base _ | .clone base _ => base.pieces
  | .structor _ isDestructor _ => [.plain (if isDestructor then "$destructor" else "$constructor")]
  | .conversion _ => [.template "$cast" [.skipped]]
  | .inBody _ entity => entity.pieces
  | _ => [.plain skippedName]

end

end Node

end CxxSymbols.Itanium
