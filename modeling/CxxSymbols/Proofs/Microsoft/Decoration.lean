import CxxSymbols.Mangled
import Mathlib
/-!
Decoration in Microsoft symbols. The symbol of an entity changes with the platform: a pointer of
64 bits has a mark of its own, scopes in the body of a function are numbered as the compiler meets
them, and an anonymous namespace has a number that is drawn for each file. `undecorated` is a
symbol without all of that, at any depth, and `decorationInvisible` says that symbols which are
the same without it have one canonical root, so that all spellings of both have one key.
-/
namespace CxxSymbols.Microsoft

/-! ### Symbols without decoration -/

/- Where something is stored, apart from what a platform says about pointers. -/
def Storage.undecorated (s : Storage) : Storage :=
  { s with isFar := false, isHuge := false, isUnaligned := false, isPtr64 := false }

mutual

def Name.undecorated : Name → Name
  | .hashed digits => .hashed digits
  | .plain spelling => .plain spelling
  | .interface spelling => .interface spelling
  | .template base args => .template base.undecorated (Ty.allUndecorated args)
  | .discriminator _ => .discriminator 0
  | .symbol inner => .symbol inner.undecorated
  | .anonymousNamespace _ => .anonymousNamespace none
  | .intrinsic which => .intrinsic which
  | .typeDescriptor storage type => .typeDescriptor storage.undecorated type.undecorated
  | .baseClassDescriptor offsets => .baseClassDescriptor offsets
  | .localStaticGuard number => .localStaticGuard number
  | .localStaticThreadGuard number => .localStaticThreadGuard number

def Name.allUndecorated : List Name → List Name
  | [] => []
  | n :: outer => n.undecorated :: Name.allUndecorated outer

def ScopedName.undecorated : ScopedName → ScopedName
  | ⟨name, scope⟩ => ⟨name.undecorated, Name.allUndecorated scope⟩

def Symbol.undecorated : Symbol → Symbol
  | ⟨path, type⟩ => ⟨path.undecorated, type.undecorated⟩

def Ty.undecorated : Ty → Ty
  | .absent => .absent
  | .memberFunction membership convention params storage ret =>
    .memberFunction membership convention (Ty.allUndecorated params) storage.undecorated
      ret.undecorated
  | .function convention params storage ret =>
    .function convention (Ty.allUndecorated params) storage.undecorated ret.undecorated
  | .memberFunctionPointer cls convention params storage ret =>
    .memberFunctionPointer cls.undecorated convention (Ty.allUndecorated params)
      storage.undecorated ret.undecorated
  | .vbtable scope storage => .vbtable (Name.allUndecorated scope) storage.undecorated
  | .vftable scope storage => .vftable (Name.allUndecorated scope) storage.undecorated
  | .vcallThunk offset convention => .vcallThunk offset convention
  | .templateParam index => .templateParam index
  | .threadSafeStaticGuard number => .threadSafeStaticGuard number
  | .constant value => .constant value
  | .constantString bytes => .constantString bytes
  | .indirect kind child storage => .indirect kind child.undecorated storage.undecorated
  | .array length element storage => .array length element.undecorated storage.undecorated
  | .variableOf kind type storage => .variableOf kind type.undecorated storage.undecorated
  | .tagged kind path storage => .tagged kind path.undecorated storage.undecorated
  | .primitive which storage => .primitive which storage.undecorated
  | .varArgs => .varArgs
  | .emptyPack => .emptyPack
  | .nullptr => .nullptr
  | .rttiType => .rttiType

def Ty.allUndecorated : List Ty → List Ty
  | [] => []
  | t :: ts => t.undecorated :: Ty.allUndecorated ts

end

/-! ### What becomes of the parts -/

@[simp] theorem Storage.undecoratedQualifiers (s : Storage) :
    s.undecorated.qualifiers = s.qualifiers := rfl

@[simp] theorem Storage.undecoratedRefQualifier (s : Storage) :
    s.undecorated.refQualifier = s.refQualifier := rfl

@[simp] theorem Ty.undecoratedIfEncoded {α : Type} (ret : Ty) (converted : α) :
    ret.undecorated.ifEncoded converted = ret.ifEncoded converted := by
  cases ret <;> rfl

/- A list is one `void` also where the `void` is stored otherwise. -/
theorem Ty.toParamsUndecorated {ts : List Ty}
    (each : Ty.eachToType (Ty.allUndecorated ts) = Ty.eachToType ts) :
    Ty.toParams (Ty.allUndecorated ts) = Ty.toParams ts := by
  cases ts with
  | nil => rfl
  | cons t rest =>
    cases t with
    | primitive which _ =>
      cases which with
      | void =>
        cases rest with
        | nil => rfl
        | cons => exact each
      | _ => exact each
    | _ => exact each

theorem Ty.signatureParts {params : List Ty} {ret : Ty} (storage : Storage)
    (each : Ty.eachToType (Ty.allUndecorated params) = Ty.eachToType params)
    (result : ret.undecorated.toType = ret.toType) :
    (⟨Ty.toParams (Ty.allUndecorated params), ret.undecorated.ifEncoded ret.undecorated.toType,
      storage.undecorated.qualifiers, storage.undecorated.refQualifier⟩ : Canonical.Signature) =
    ⟨Ty.toParams params, ret.ifEncoded ret.toType, storage.qualifiers, storage.refQualifier⟩ := by
  rw [toParamsUndecorated each, undecoratedIfEncoded, result, storage.undecoratedQualifiers,
    storage.undecoratedRefQualifier]

-- The induction is over the symbol, with a case for each constructor: all that a conversion asks of
-- a part is its converted form, how it is qualified, and whether it is encoded at all.
mutual

theorem Name.toPieceUndecorated : (n : Name) → n.undecorated.toPiece? = n.toPiece?
  | .template base args => by
    rw [Name.undecorated, Name.toPiece?, Name.toPiece?, base.toPieceUndecorated,
      Ty.eachToTypeUndecorated args]
  | .discriminator _ | .symbol _ | .anonymousNamespace _ | .typeDescriptor .. => by
    rw [Name.undecorated, Name.toPiece?, Name.toPiece?]
  | .hashed _ | .plain _ | .interface _ | .intrinsic _ | .baseClassDescriptor _
  | .localStaticGuard _ | .localStaticThreadGuard _ => by rw [Name.undecorated]

theorem Name.toPiecesUndecorated : (ns : List Name) →
    Name.toPieces (Name.allUndecorated ns) = Name.toPieces ns
  | [] => by rw [Name.allUndecorated]
  | n :: outer => by
    rw [Name.allUndecorated, Name.toPieces, Name.toPieces, n.toPieceUndecorated,
      Name.toPiecesUndecorated outer]

theorem ScopedName.toNameUndecorated : (path : ScopedName) → path.undecorated.toName = path.toName
  | ⟨name, scope⟩ => by
    rw [ScopedName.undecorated, ScopedName.toName, ScopedName.toName, name.toPieceUndecorated,
      Name.toPiecesUndecorated scope]

theorem Ty.toTypeUndecorated : (t : Ty) → t.undecorated.toType = t.toType
  | .primitive which storage => by
    rw [Ty.undecorated, Ty.toType, Ty.toType, storage.undecoratedQualifiers]
  | .indirect kind child storage => by
    rw [Ty.undecorated, Ty.toType, Ty.toType, child.toTypeUndecorated,
      storage.undecoratedQualifiers]
  | .tagged kind path storage => by
    rw [Ty.undecorated, Ty.toType, Ty.toType, path.toNameUndecorated, storage.undecoratedQualifiers]
  | .memberFunction membership convention params storage ret => by
    rw [Ty.undecorated, Ty.toType, Ty.toType,
      Ty.signatureParts storage (Ty.eachToTypeUndecorated params) ret.toTypeUndecorated]
  | .function convention params storage ret => by
    rw [Ty.undecorated, Ty.toType, Ty.toType,
      Ty.signatureParts storage (Ty.eachToTypeUndecorated params) ret.toTypeUndecorated]
  | .memberFunctionPointer .. | .vbtable .. | .vftable .. | .array .. | .variableOf .. => by
    rw [Ty.undecorated, Ty.toType, Ty.toType]
  | .absent | .vcallThunk .. | .templateParam _ | .threadSafeStaticGuard _ | .constant _
  | .constantString _ | .varArgs | .emptyPack | .nullptr | .rttiType => by rw [Ty.undecorated]

theorem Ty.eachToTypeUndecorated : (ts : List Ty) →
    Ty.eachToType (Ty.allUndecorated ts) = Ty.eachToType ts
  | [] => by rw [Ty.allUndecorated]
  | t :: ts => by
    rw [Ty.allUndecorated, Ty.eachToType, Ty.eachToType, t.toTypeUndecorated,
      Ty.eachToTypeUndecorated ts]

end

theorem Ty.signatureUndecorated (t : Ty) : t.undecorated.signature? = t.signature? := by
  cases t with
  | memberFunction membership convention params storage ret =>
    rw [undecorated, signature?, signature?,
      signatureParts storage (eachToTypeUndecorated params) ret.toTypeUndecorated]
  | function convention params storage ret =>
    rw [undecorated, signature?, signature?,
      signatureParts storage (eachToTypeUndecorated params) ret.toTypeUndecorated]
  | _ => rfl

theorem Ty.dataTypeUndecorated (t : Ty) : t.undecorated.dataType? = t.dataType? := by
  cases t with
  | variableOf kind type storage =>
    rw [undecorated, dataType?, dataType?, type.toTypeUndecorated, storage.undecoratedQualifiers]
  | _ => rfl

/-! ### What becomes of the symbol -/

theorem Name.allUndecoratedMap (ns : List Name) :
    Name.allUndecorated ns = ns.map Name.undecorated := by
  induction ns with
  | nil => rfl
  | cons n outer ih => rw [allUndecorated, ih, List.map_cons]

theorem Name.allUndecoratedDropLast (ns : List Name) :
    (Name.allUndecorated ns).dropLast = Name.allUndecorated ns.dropLast := by
  rw [allUndecoratedMap, allUndecoratedMap, List.map_dropLast]

theorem Name.undecoratedOrdinary {n : Name} (noTable : n ≠ .intrinsic .vftable)
    (noLocator : n ≠ .intrinsic .completeObjectLocator)
    (noDescriptor : ∀ storage type, n ≠ .typeDescriptor storage type) :
    n.undecorated ≠ .intrinsic .vftable ∧ n.undecorated ≠ .intrinsic .completeObjectLocator ∧
      ∀ storage type, n.undecorated ≠ .typeDescriptor storage type := by
  cases n with
  | intrinsic which => exact ⟨noTable, noLocator, noDescriptor⟩
  | typeDescriptor storage type => exact absurd rfl (noDescriptor storage type)
  | _ => simp [undecorated]

theorem Symbol.undecoratedWithin {name : Name} {scope : List Name} {type : Ty}
    (body : Name.outermostRoot? (Name.allUndecorated scope) = Name.outermostRoot? scope) :
    (Symbol.undecorated ⟨⟨name, scope⟩, type⟩).toRoot = Symbol.toRoot ⟨⟨name, scope⟩, type⟩ := by
  have path := ScopedName.toNameUndecorated ⟨name, scope⟩
  rw [ScopedName.undecorated] at path
  rw [undecorated, ScopedName.undecorated]
  by_cases noTable : name = .intrinsic .vftable
  · rw [noTable, Name.undecorated, toRoot, toRoot, Name.toPiecesUndecorated]
  by_cases noLocator : name = .intrinsic .completeObjectLocator
  · rw [noLocator, Name.undecorated, toRoot, toRoot, Name.toPiecesUndecorated]
  by_cases descriptor : ∃ storage described, name = .typeDescriptor storage described
  · obtain ⟨storage, described, rfl⟩ := descriptor
    rw [Name.undecorated, toRoot, toRoot, described.toTypeUndecorated]
  have noDescriptor : ∀ storage described, name ≠ .typeDescriptor storage described :=
    fun storage described own => descriptor ⟨storage, described, own⟩
  obtain ⟨noTable', noLocator', noDescriptor'⟩ :=
    Name.undecoratedOrdinary noTable noLocator noDescriptor
  rw [toRoot.eq_4 _ _ _ noTable noLocator noDescriptor,
    toRoot.eq_4 _ _ _ noTable' noLocator' noDescriptor', type.signatureUndecorated,
    type.dataTypeUndecorated, body, path, Name.allUndecoratedDropLast, Name.toPiecesUndecorated,
    name.toPieceUndecorated]

theorem Name.outermostRootOuter (n m : Name) (outer : List Name) :
    Name.outermostRoot? (n :: m :: outer) = Name.outermostRoot? (m :: outer) := by
  rw [outermostRoot?]
  simp

mutual

theorem Symbol.toRootUndecorated : (y : Symbol) → y.undecorated.toRoot = y.toRoot
  | ⟨⟨_, scope⟩, _⟩ => Symbol.undecoratedWithin (Name.outermostRootUndecorated scope)

theorem Name.outermostRootUndecorated : (ns : List Name) →
    Name.outermostRoot? (Name.allUndecorated ns) = Name.outermostRoot? ns
  | [] => by rw [Name.allUndecorated]
  | [.symbol function] => by
    rw [Name.allUndecorated, Name.allUndecorated, Name.undecorated, Name.outermostRoot?,
      Name.outermostRoot?, function.toRootUndecorated]
  | [.hashed _] | [.plain _] | [.interface _] | [.template ..] | [.discriminator _]
  | [.anonymousNamespace _] | [.intrinsic _] | [.typeDescriptor ..] | [.baseClassDescriptor _]
  | [.localStaticGuard _] | [.localStaticThreadGuard _] => by
    simp [Name.allUndecorated, Name.undecorated, Name.outermostRoot?]
  | n :: m :: outer => by
    have rest := Name.outermostRootUndecorated (m :: outer)
    rw [Name.allUndecorated] at rest
    rw [Name.allUndecorated, Name.allUndecorated, Name.outermostRootOuter,
      Name.outermostRootOuter, rest]

end

def Symbol.SpelledBy (y : Symbol) (raw : String) : Prop :=
  Mangled.scheme? (Mangled.withoutCloneSuffixes raw) = some .microsoft ∧
    Symbol.ofMangled? (Text.encode (Mangled.withoutCloneSuffixes raw)) = some y

theorem Symbol.spelledByPlain {y : Symbol} {raw : String}
    (plain : Mangled.withoutCloneSuffixes raw = raw)
    (microsoft : Mangled.scheme? raw = some .microsoft)
    (read : Symbol.ofMangled? (Text.encode raw) = some y) : y.SpelledBy raw := by
  rw [SpelledBy, plain]
  exact ⟨microsoft, read⟩

theorem Symbol.SpelledBy.decoded {y : Symbol} {raw : String} (spelled : y.SpelledBy raw) :
    Mangled.decode raw = .ok y.toRoot := by
  obtain ⟨microsoft, read⟩ := spelled
  unfold Mangled.decode
  dsimp only
  split
  · rename_i unknown
    cases unknown.symm.trans microsoft
  · rename_i other
    cases other.symm.trans microsoft
  · split
    · rename_i y' reads
      cases reads.symm.trans read
      rfl
    · rename_i unread
      cases unread.symm.trans read

/- Decoration reaches neither the root nor the key: two symbols that are the same without it, at
any depth, have one canonical root, and all spellings of the two decode to one key. -/
theorem Symbol.decorationInvisible {a b : Symbol} (alike : a.undecorated = b.undecorated) :
    a.toRoot = b.toRoot ∧ ∀ {raw raw' : String}, a.SpelledBy raw → b.SpelledBy raw' →
      Mangled.decodeKey raw = .ok (a.toRoot.key, a.toRoot.kind) ∧
        Mangled.decodeKey raw = Mangled.decodeKey raw' := by
  have root : a.toRoot = b.toRoot :=
    calc a.toRoot = a.undecorated.toRoot := a.toRootUndecorated.symm
      _ = b.undecorated.toRoot := by rw [alike]
      _ = b.toRoot := b.toRootUndecorated
  refine ⟨root, fun first second => ?_⟩
  rw [Mangled.decodeKey, Mangled.decodeKey, first.decoded, second.decoded, root]
  exact ⟨rfl, rfl⟩

def localIn (id : String) (number : Int) (isPtr64 : Bool) : Symbol :=
  ⟨⟨.plain (Text.encode "x"), [.discriminator number, .symbol
      ⟨⟨.plain (Text.encode "f"), [.anonymousNamespace (some (Text.encode id))]⟩,
        .function .cdecl [.indirect .pointer (.primitive .int { isPtr64 }) {}] {}
          (.primitive .void {})⟩]⟩,
    .variableOf .functionStatic (.primitive .int {}) {}⟩

theorem Symbol.platformsShareKey :
    (localIn "1" 2 false).SpelledBy "?x@?1??f@?A0x1@@YAXPAH@Z@4HA" ∧
      (localIn "2" 3 true).SpelledBy "?x@?2??f@?A0x2@@YAXPEAH@Z@4HA" ∧
      Mangled.decodeKey "?x@?1??f@?A0x1@@YAXPAH@Z@4HA" =
        Mangled.decodeKey "?x@?2??f@?A0x2@@YAXPEAH@Z@4HA" := by
  have first : (localIn "1" 2 false).SpelledBy "?x@?1??f@?A0x1@@YAXPAH@Z@4HA" :=
    spelledByPlain (by decide +kernel) (by decide +kernel) (by cbv)
  have second : (localIn "2" 3 true).SpelledBy "?x@?2??f@?A0x2@@YAXPEAH@Z@4HA" :=
    spelledByPlain (by decide +kernel) (by decide +kernel) (by cbv)
  have alike : (localIn "1" 2 false).undecorated = (localIn "2" 3 true).undecorated := by rfl
  exact ⟨first, second, ((decorationInvisible alike).2 first second).2⟩

end CxxSymbols.Microsoft
