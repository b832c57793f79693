/-!
Symbols of the Microsoft mangling as they are read: a name with its scopes, innermost first, and
the type of what it names. The grammar remembers names and types that it has not met before, so
both can be compared; `Name.same` and `Ty.same` are that comparison.
-/
namespace CxxSymbols.Microsoft

abbrev Bytes := List UInt8

structure Storage where
  isConst : Bool := false
  isVolatile : Bool := false
  isFar : Bool := false
  isHuge : Bool := false
  isUnaligned : Bool := false
  isRestrict : Bool := false
  isPtr64 : Bool := false
  isLvalue : Bool := false
  isRvalue : Bool := false
  deriving DecidableEq, Repr, Inhabited

inductive Access where
  | none
  | «private»
  | «protected»
  | «public»
  deriving DecidableEq, Repr, Inhabited

structure Membership where
  access : Access := .none
  isStatic : Bool := false
  isVirtual : Bool := false
  isThunk : Bool := false
  isFar : Bool := false
  deriving DecidableEq, Repr, Inhabited

inductive Convention where
  | cdecl
  | pascal
  | thiscall
  | stdcall
  | fastcall
  deriving DecidableEq, Repr, Inhabited

inductive VariableKind where
  | privateStatic
  | protectedStatic
  | publicStatic
  | global
  | functionStatic
  deriving DecidableEq, Repr, Inhabited

inductive Primitive where
  | void
  | bool
  | char
  | schar
  | uchar
  | short
  | ushort
  | int
  | uint
  | long
  | ulong
  | int64
  | uint64
  | int128
  | uint128
  | wchar
  | char8
  | char16
  | char32
  | float
  | double
  | ldouble
  deriving DecidableEq, Repr, Inhabited

inductive Indirection where
  | pointer
  | reference
  | rvalueReference
  deriving DecidableEq, Repr, Inhabited

inductive TagKind where
  | typeAlias
  | «struct»
  | «union»
  | «class»
  | enum
  deriving DecidableEq, Repr, Inhabited

inductive Intrinsic where
  | ctor
  | dtor
  | new
  | delete
  | equal
  | rshift
  | lshift
  | bang
  | equalEqual
  | bangEqual
  | subscript
  | conversion
  | arrow
  | star
  | plusPlus
  | minusMinus
  | minus
  | plus
  | amp
  | arrowStar
  | slash
  | percent
  | less
  | lessEqual
  | greater
  | greaterEqual
  | comma
  | call
  | tilde
  | caret
  | pipe
  | ampAmp
  | pipePipe
  | starEqual
  | plusEqual
  | minusEqual
  | slashEqual
  | percentEqual
  | rshiftEqual
  | lshiftEqual
  | ampEqual
  | pipeEqual
  | caretEqual
  | vftable
  | vbtable
  | vcall
  | typeof
  | string
  | vbaseDtor
  | vectorDeletingDtor
  | defaultCtorClosure
  | scalarDeletingDtor
  | vectorCtorIterator
  | vectorDtorIterator
  | vectorVBaseCtorIterator
  | virtualDisplacementMap
  | ehVectorCtorIterator
  | ehVectorDtorIterator
  | ehVectorVBaseCtorIterator
  | copyCtorClosure
  | baseClassArray
  | classHierarchyDescriptor
  | completeObjectLocator
  | localVFTable
  | localVFTableCtorClosure
  | arrayNew
  | arrayDelete
  | placementDeleteClosure
  | placementArrayDeleteClosure
  | coroutineAwait
  | dynamicInitializer
  | dynamicAtexitDtor
  | literalOperator
  deriving DecidableEq, Repr, Inhabited

mutual

inductive Name where
  /- the hash that stands for a name which is too long -/
  | hashed (digits : Bytes)
  | plain (spelling : Bytes)
  | interface (spelling : Bytes)
  | template (base : Name) (args : List Ty)
  /- tells entities of one name in one function apart -/
  | discriminator (number : Int)
  | symbol (inner : Symbol)
  | anonymousNamespace (id : Option Bytes)
  | intrinsic (which : Intrinsic)
  | typeDescriptor (storage : Storage) (type : Ty)
  | baseClassDescriptor (offsets : List Int)
  | localStaticGuard (number : Option Int)
  | localStaticThreadGuard (number : Option Int)

/- A name with the scopes that it lies in, innermost first. -/
structure ScopedName where
  name : Name
  scope : List Name

structure Symbol where
  path : ScopedName
  type : Ty

inductive Ty where
  | absent
  | memberFunction (membership : Membership) (convention : Convention) (params : List Ty)
      (storage : Storage) (ret : Ty)
  | function (convention : Convention) (params : List Ty) (storage : Storage) (ret : Ty)
  | memberFunctionPointer (cls : ScopedName) (convention : Convention)
      (params : List Ty) (storage : Storage) (ret : Ty)
  | vbtable (scope : List Name) (storage : Storage)
  | vftable (scope : List Name) (storage : Storage)
  | vcallThunk (offset : Int) (convention : Convention)
  | templateParam (index : Int)
  | threadSafeStaticGuard (number : Int)
  | constant (value : Int)
  | constantString (bytes : Bytes)
  | indirect (kind : Indirection) (child : Ty) (storage : Storage)
  | array (length : Int) (element : Ty) (storage : Storage)
  | variableOf (kind : VariableKind) (type : Ty) (storage : Storage)
  | tagged (kind : TagKind) (path : ScopedName) (storage : Storage)
  | primitive (which : Primitive) (storage : Storage)
  | varArgs
  | emptyPack
  | nullptr
  | rttiType

end

instance : Inhabited Name := ⟨.plain []⟩
instance : Inhabited Ty := ⟨.absent⟩
instance : Inhabited ScopedName := ⟨⟨default, []⟩⟩
instance : Inhabited Symbol := ⟨⟨default, default⟩⟩

mutual

def Name.same : Name → Name → Bool
  | .hashed a, .hashed b => a == b
  | .plain a, .plain b => a == b
  | .interface a, .interface b => a == b
  | .template n ts, .template m us => n.same m && Ty.allSame ts us
  | .discriminator a, .discriminator b => a == b
  | .symbol a, .symbol b => a.same b
  | .anonymousNamespace a, .anonymousNamespace b => a == b
  | .intrinsic a, .intrinsic b => a == b
  | .typeDescriptor s t, .typeDescriptor r u => s == r && t.same u
  | .baseClassDescriptor a, .baseClassDescriptor b => a == b
  | .localStaticGuard a, .localStaticGuard b => a == b
  | .localStaticThreadGuard a, .localStaticThreadGuard b => a == b
  | _, _ => false
termination_by structural n => n

def Name.allSame : List Name → List Name → Bool
  | [], [] => true
  | n :: ns, m :: ms => n.same m && Name.allSame ns ms
  | _, _ => false
termination_by structural n => n

def ScopedName.same : ScopedName → ScopedName → Bool
  | ⟨n, ns⟩, ⟨m, ms⟩ => n.same m && Name.allSame ns ms
termination_by structural n => n

def Symbol.same : Symbol → Symbol → Bool
  | ⟨p, t⟩, ⟨q, u⟩ => p.same q && t.same u
termination_by structural n => n

def Ty.same : Ty → Ty → Bool
  | .absent, .absent => true
  | .memberFunction m c ps s r, .memberFunction m' c' ps' s' r' =>
    m == m' && c == c' && Ty.allSame ps ps' && s == s' && r.same r'
  | .function c ps s r, .function c' ps' s' r' =>
    c == c' && Ty.allSame ps ps' && s == s' && r.same r'
  | .memberFunctionPointer n c ps s r, .memberFunctionPointer n' c' ps' s' r' =>
    n.same n' && c == c' && Ty.allSame ps ps' && s == s' && r.same r'
  | .vbtable ns s, .vbtable ns' s' => Name.allSame ns ns' && s == s'
  | .vftable ns s, .vftable ns' s' => Name.allSame ns ns' && s == s'
  | .vcallThunk n c, .vcallThunk n' c' => n == n' && c == c'
  | .templateParam n, .templateParam n' => n == n'
  | .threadSafeStaticGuard n, .threadSafeStaticGuard n' => n == n'
  | .constant n, .constant n' => n == n'
  | .constantString b, .constantString b' => b == b'
  | .indirect k t s, .indirect k' t' s' => k == k' && t.same t' && s == s'
  | .array n t s, .array n' t' s' => n == n' && t.same t' && s == s'
  | .variableOf k t s, .variableOf k' t' s' => k == k' && t.same t' && s == s'
  | .tagged k p s, .tagged k' p' s' => k == k' && p.same p' && s == s'
  | .primitive p s, .primitive p' s' => p == p' && s == s'
  | .varArgs, .varArgs | .emptyPack, .emptyPack | .nullptr, .nullptr | .rttiType, .rttiType => true
  | _, _ => false
termination_by structural n => n

def Ty.allSame : List Ty → List Ty → Bool
  | [], [] => true
  | t :: ts, u :: us => t.same u && Ty.allSame ts us
  | _, _ => false
termination_by structural n => n

end

end CxxSymbols.Microsoft
