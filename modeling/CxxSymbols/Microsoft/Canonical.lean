import CxxSymbols.Canonical.StdAlias
import CxxSymbols.Microsoft.Symbol
import CxxSymbols.Text.Utf8
/-!
The canonical form of Microsoft symbols. Scopes are turned outermost first, the storage class of
a type becomes its qualifiers, and a list of one `void` becomes an empty list. It is total: what
the model has no form for becomes an unknown root or a skipped type.
-/
namespace CxxSymbols.Microsoft
open Canonical (Root Kind Piece Qualifiers RefQualifier Signature skippedName)

def Storage.qualifiers (s : Storage) : Qualifiers := ⟨s.isConst, s.isVolatile, s.isRestrict⟩

def Storage.refQualifier (s : Storage) : RefQualifier :=
  if s.isLvalue then .lvalue else if s.isRvalue then .rvalue else .none

def Intrinsic.identifier : Intrinsic → String
  | ctor => "$constructor"
  | dtor => "$destructor"
  | new => "operator new"
  | delete => "operator delete"
  | equal => "operator="
  | rshift => "operator>>"
  | lshift => "operator<<"
  | bang => "operator!"
  | equalEqual => "operator=="
  | bangEqual => "operator!="
  | subscript => "operator[]"
  | arrow => "operator->"
  | star => "operator*"
  | plusPlus => "operator++"
  | minusMinus => "operator--"
  | minus => "operator-"
  | plus => "operator+"
  | amp => "operator&"
  | arrowStar => "operator->*"
  | slash => "operator/"
  | percent => "operator%"
  | less => "operator<"
  | lessEqual => "operator<="
  | greater => "operator>"
  | greaterEqual => "operator>="
  | comma => "operator,"
  | call => "operator()"
  | tilde => "operator~"
  | caret => "operator^"
  | pipe => "operator|"
  | ampAmp => "operator&&"
  | pipePipe => "operator||"
  | starEqual => "operator*="
  | plusEqual => "operator+="
  | minusEqual => "operator-="
  | slashEqual => "operator/="
  | percentEqual => "operator%="
  | rshiftEqual => "operator>>="
  | lshiftEqual => "operator<<="
  | ampEqual => "operator&="
  | pipeEqual => "operator|="
  | caretEqual => "operator^="
  | vbaseDtor => "`vbase dtor'"
  | vectorDeletingDtor => "`vector deleting dtor'"
  | defaultCtorClosure => "`default ctor closure'"
  | scalarDeletingDtor => "`scalar deleting dtor'"
  | vectorCtorIterator => "`vector ctor iterator'"
  | vectorDtorIterator => "`vector dtor iterator'"
  | vectorVBaseCtorIterator => "`vector vbase ctor iterator'"
  | virtualDisplacementMap => "`virtual displacement map'"
  | ehVectorCtorIterator => "`eh vector ctor iterator'"
  | ehVectorDtorIterator => "`eh vector dtor iterator'"
  | ehVectorVBaseCtorIterator => "`eh vector vbase ctor iterator'"
  | copyCtorClosure => "`copy ctor closure'"
  | localVFTableCtorClosure => "`local vftable ctor closure'"
  | arrayNew => "operator new[]"
  | arrayDelete => "operator delete[]"
  | coroutineAwait => "operator co_await"
  | _ => skippedName

def Primitive.canonical? : Primitive → Option String
  | void => some "void"
  | bool => some "bool"
  | char => some "char"
  | schar => some "signed char"
  | uchar => some "unsigned char"
  | char16 => some "char16"
  | char32 => some "char32"
  | short => some "short"
  | ushort => some "unsigned short"
  | int => some "int"
  | uint => some "unsigned"
  | long => some "long"
  | ulong => some "unsigned long"
  | int64 => some "int64"
  | uint64 => some "uint64"
  | wchar => some "wchar"
  | float => some "float"
  | double => some "double"
  | ldouble => some "double double"
  | int128 | uint128 | char8 => none

def Ty.ifEncoded {α : Type} (ret : Ty) (converted : α) : Option α :=
  match ret with
  | .absent => none
  | _ => some converted

def Indirection.canonical : Indirection → Canonical.Indirection
  | pointer => .pointer
  | reference => .reference
  | rvalueReference => .rvalueReference

def nameOf (pieces : List Piece) : Canonical.Name := (Canonical.Name.ofPieces pieces).stdAlias

mutual

def Name.toPiece? : Name → Option Piece
  | .plain spelling | .interface spelling | .hashed spelling =>
    some (.plain (Text.decodeLossy spelling))
  | .template base args =>
    let spelling := match base.toPiece? with
      | some p => p.spelling
      | none => skippedName
    some (.template spelling (Ty.eachToType args))
  | .anonymousNamespace _ => some (.plain "`anonymous namespace'")
  | .discriminator _ => none
  | .symbol _ => some (.plain skippedName)
  | .intrinsic .conversion => some (.template "$cast" [.skipped])
  | .intrinsic which => some (.plain which.identifier)
  | .typeDescriptor .. | .baseClassDescriptor _ | .localStaticGuard _
  | .localStaticThreadGuard _ => some (.plain skippedName)

def Name.toPieces : List Name → List Piece
  | [] => []
  | n :: outer => Name.toPieces outer ++ n.toPiece?.toList

def ScopedName.toName : ScopedName → Canonical.Name
  | ⟨name, scope⟩ => nameOf (Name.toPieces scope ++ name.toPiece?.toList)

def Ty.toType : Ty → Canonical.Ty
  | .primitive which storage =>
    match which.canonical? with
    | some spelling => (Canonical.Ty.simple spelling).withQualifiers storage.qualifiers
    | none => .skipped
  | .nullptr => .simple "nullptr"
  | .varArgs => .simple "..."
  | .indirect kind child storage =>
    (Canonical.Ty.indirect child.toType kind.canonical).withQualifiers storage.qualifiers
  | .tagged _ path storage =>
    (Canonical.Ty.named path.toName).withQualifiers storage.qualifiers
  | .memberFunction _ _ params storage ret | .function _ params storage ret =>
    .function ⟨Ty.toParams params, ret.ifEncoded ret.toType, storage.qualifiers, storage.refQualifier⟩
  | .templateParam index => .special ("T" ++ toString index)
  | .rttiType => .special "rtti"
  | .absent | .memberFunctionPointer .. | .vbtable .. | .vftable .. | .vcallThunk ..
  | .threadSafeStaticGuard _ | .constant _ | .constantString _ | .array .. | .variableOf ..
  | .emptyPack => .skipped

def Ty.eachToType : List Ty → List Canonical.Ty
  | [] => []
  | t :: ts => t.toType :: Ty.eachToType ts

def Ty.toParams : List Ty → List Canonical.Ty
  | [.primitive .void _] => []
  | [] => []
  | t :: ts => t.toType :: Ty.eachToType ts

end

def Ty.signature? : Ty → Option Signature
  | .memberFunction _ _ params storage ret | .function _ params storage ret =>
    some ⟨Ty.toParams params, ret.ifEncoded ret.toType, storage.qualifiers, storage.refQualifier⟩
  | _ => none

def Ty.dataType? : Ty → Option Canonical.Ty
  | .variableOf _ type storage => some (type.toType.withQualifiers storage.qualifiers)
  | _ => none

mutual

/- The symbol as a whole. An entity in the body of a function has that function, read as a symbol
of its own, as its outermost scope. -/
def Symbol.toRoot : Symbol → Root
  | ⟨⟨.intrinsic .vftable, scope⟩, _⟩ => .special .vtable (.named (nameOf (Name.toPieces scope)))
  | ⟨⟨.intrinsic .completeObjectLocator, scope⟩, _⟩ =>
    .special .completeObjectLocator (.named (nameOf (Name.toPieces scope)))
  | ⟨⟨.typeDescriptor _ type, _⟩, _⟩ => .special .typeInfo type.toType
  | ⟨⟨name, scope⟩, type⟩ =>
    let inner := nameOf (Name.toPieces scope.dropLast ++ name.toPiece?.toList)
    match type.signature?, type.dataType?, Name.outermostRoot? scope with
    | some signature, _, some root => .nested ⟨root, .named inner, some (.function signature)⟩
    | some signature, _, none => .function (ScopedName.toName ⟨name, scope⟩) signature
    | none, some data, some root => .nested ⟨root, .named inner, some data⟩
    | none, some data, none => .data (ScopedName.toName ⟨name, scope⟩) (some data)
    | none, none, _ => .unknown

def Name.outermostRoot? : List Name → Option Root
  | [] => none
  | [.symbol function] => some function.toRoot
  | _ :: outer => Name.outermostRoot? outer

end

end CxxSymbols.Microsoft
