import CxxSymbols.Microsoft.Canonical
import CxxSymbols.Proofs.Source.Entity
import CxxSymbols.Proofs.Text.Utf8
/-!
The Microsoft symbols of an entity. Scopes stand innermost first, and qualifiers are among the
flags of where something is stored; the other flags, the kind of a class and how a function is
called do not tell of the entity. A list of one `void` stands for the empty list whatever is said
of the `void`, so the symbols of an entity have one canonical root only if none of its lists of
parameters is such.
-/
namespace CxxSymbols.Microsoft
open Canonical (Qualifiers)
open Source (Component Shape lone)

def Primitive.ofBuiltin : Source.Builtin → Primitive
  | .void => void
  | .bool => bool
  | .char => char
  | .signedChar => schar
  | .unsignedChar => uchar
  | .short => short
  | .unsignedShort => ushort
  | .int => int
  | .long => long
  | .unsignedLong => ulong
  | .float => float
  | .double => double

mutual

inductive Name.Names : Name → Component → Prop where
  | plain (spelling : String) : Name.Names (.plain (Text.encode spelling)) ⟨spelling, none⟩
  | template {us : List Ty} {args : List Source.Ty} (spelling : String)
      (list : Ty.DenoteAll us args) :
      Name.Names (.template (.plain (Text.encode spelling)) us) ⟨spelling, some args⟩

/- The scopes of a name, innermost first for scopes that are given outermost first. -/
inductive Name.Scopes : List Name → List Component → Prop where
  | nil : Name.Scopes [] []
  | inner {n : Name} {outer : List Name} {c : Component} {cs : List Component}
      (name : n.Names c) (scope : Name.Scopes outer cs) : Name.Scopes (n :: outer) (cs ++ [c])

inductive Ty.HasShape : Ty → Qualifiers → Shape → Prop where
  | builtin (which : Source.Builtin) (storage : Storage) :
      Ty.HasShape (.primitive (.ofBuiltin which) storage) storage.qualifiers (.builtin which)
  | named {n : Name} {outer : List Name} {path : Source.Path} (kind : TagKind) (storage : Storage)
      (name : n.Names path.name) (scope : Name.Scopes outer path.scope) :
      Ty.HasShape (.tagged kind ⟨n, outer⟩ storage) storage.qualifiers (.named path)
  | indirect {u : Ty} {t : Source.Ty} (kind : Indirection) (storage : Storage)
      (target : u.Denotes t) :
      Ty.HasShape (.indirect kind u storage) storage.qualifiers (.indirect kind.canonical t)

inductive Ty.Denotes : Ty → Source.Ty → Prop where
  | object {u : Ty} {q : Qualifiers} {s : Shape} (shape : u.HasShape q s) :
      Ty.Denotes u (.object q s)
  | function {us : List Ty} {r : Ty} {params : List Source.Ty} {ret : Source.Ty}
      (convention : Convention) (storage : Storage) (list : Ty.DenoteParams us params)
      (result : r.Denotes ret) :
      Ty.Denotes (.function convention us storage r)
        (.function params ret storage.qualifiers storage.refQualifier)
  | memberFunction {us : List Ty} {r : Ty} {params : List Source.Ty} {ret : Source.Ty}
      (membership : Membership) (convention : Convention) (storage : Storage)
      (list : Ty.DenoteParams us params) (result : r.Denotes ret) :
      Ty.Denotes (.memberFunction membership convention us storage r)
        (.function params ret storage.qualifiers storage.refQualifier)

inductive Ty.DenoteAll : List Ty → List Source.Ty → Prop where
  | nil : Ty.DenoteAll [] []
  | cons {u : Ty} {us : List Ty} {t : Source.Ty} {ts : List Source.Ty} (head : u.Denotes t)
      (tail : Ty.DenoteAll us ts) : Ty.DenoteAll (u :: us) (t :: ts)

/- A list of parameters, where `void` stands for none. -/
inductive Ty.DenoteParams : List Ty → List Source.Ty → Prop where
  | void (storage : Storage) : Ty.DenoteParams [.primitive .void storage] []
  | listed {us : List Ty} {ts : List Source.Ty} (list : Ty.DenoteAll us ts) : Ty.DenoteParams us ts

end

inductive Ty.Returns : Ty → Option Source.Ty → Prop where
  | absent : Returns .absent none
  | encoded {u : Ty} {t : Source.Ty} (type : u.Denotes t) : Returns u (some t)

inductive Name.NamesFunction : Name → Source.Function → Prop where
  | source {n : Name} {scope : List Component} {spelling : String} {f : Source.Function}
      (own : f.name = .source scope spelling) (name : n.Names ⟨spelling, f.args⟩) :
      NamesFunction n f
  | structor {cls : Source.Path} {f : Source.Function} (isDestructor : Bool)
      (own : f.name = .structor cls isDestructor) (bare : f.args = none) :
      NamesFunction (.intrinsic (if isDestructor then .dtor else .ctor)) f
  | instance {us : List Ty} {cls : Source.Path} {args : List Source.Ty} {f : Source.Function}
      (isDestructor : Bool) (own : f.name = .structor cls isDestructor)
      (given : f.args = some args) (list : Ty.DenoteAll us args) :
      NamesFunction (.template (.intrinsic (if isDestructor then .dtor else .ctor)) us) f

inductive Symbol.Encodes : Symbol → Source.Entity → Prop where
  | function {n : Name} {outer : List Name} {us : List Ty} {r : Ty} {f : Source.Function}
      {storage : Storage} (convention : Convention) (name : n.NamesFunction f)
      (scope : Name.Scopes outer f.name.scope) (params : Ty.DenoteParams us f.params)
      (result : r.Returns f.ret) (quals : storage.qualifiers = f.quals)
      (refQual : storage.refQualifier = f.refQual) :
      Encodes ⟨⟨n, outer⟩, .function convention us storage r⟩ (.function f)
  | memberFunction {n : Name} {outer : List Name} {us : List Ty} {r : Ty} {f : Source.Function}
      {storage : Storage} (membership : Membership) (convention : Convention)
      (name : n.NamesFunction f) (scope : Name.Scopes outer f.name.scope)
      (params : Ty.DenoteParams us f.params) (result : r.Returns f.ret)
      (quals : storage.qualifiers = f.quals) (refQual : storage.refQualifier = f.refQual) :
      Encodes ⟨⟨n, outer⟩, .memberFunction membership convention us storage r⟩ (.function f)
  | vtable {n : Name} {outer owner : List Name} {cls : Source.Path} (storage : Storage)
      (name : n.Names cls.name) (scope : Name.Scopes outer cls.scope) :
      Encodes ⟨⟨.intrinsic .vftable, n :: outer⟩, .vftable owner storage⟩ (.vtable cls)
  | typeDescriptor {u : Ty} {t : Source.Ty} (storage : Storage) (type : u.Denotes t) :
      Encodes ⟨⟨.typeDescriptor storage u, []⟩, .rttiType⟩ (.typeDescriptor t)

/-! ### One of them for each entity -/

def Storage.of (quals : Qualifiers) (refQual : Canonical.RefQualifier) : Storage where
  isConst := quals.isConst
  isVolatile := quals.isVolatile
  isRestrict := quals.isRestrict
  isLvalue := refQual = .lvalue
  isRvalue := refQual = .rvalue

theorem Storage.ofQualifiers (quals : Qualifiers) (refQual : Canonical.RefQualifier) :
    (Storage.of quals refQual).qualifiers = quals := rfl

theorem Storage.ofRefQualifier (quals : Qualifiers) (refQual : Canonical.RefQualifier) :
    (Storage.of quals refQual).refQualifier = refQual := by
  cases refQual <;> rfl

def Indirection.of : Canonical.Indirection → Indirection
  | .pointer => pointer
  | .reference => reference
  | .rvalueReference => rvalueReference

theorem Indirection.ofCanonical (kind : Canonical.Indirection) :
    (Indirection.of kind).canonical = kind := by
  cases kind <;> rfl

mutual

def Ty.ofType : Source.Ty → Ty
  | .object quals shape => Ty.ofShape (.of quals .none) shape
  | .function params ret quals refQual =>
    .function .cdecl (Ty.ofTypes params) (.of quals refQual) (Ty.ofType ret)

def Ty.ofShape (storage : Storage) : Shape → Ty
  | .builtin which => .primitive (.ofBuiltin which) storage
  | .named ⟨scope, last⟩ =>
    .tagged .class ⟨Name.ofComponent last, Name.ofScope scope []⟩ storage
  | .indirect kind target => .indirect (.of kind) (Ty.ofType target) storage

def Name.ofComponent : Component → Name
  | ⟨spelling, none⟩ => .plain (Text.encode spelling)
  | ⟨spelling, some args⟩ => .template (.plain (Text.encode spelling)) (Ty.ofTypes args)

def Name.ofScope : List Component → List Name → List Name
  | [], outer => outer
  | c :: cs, outer => Name.ofScope cs (Name.ofComponent c :: outer)

def Ty.ofTypes : List Source.Ty → List Ty
  | [] => []
  | t :: ts => Ty.ofType t :: Ty.ofTypes ts

end

def Name.ofFunctionName (name : Source.FunctionName) (args : Option (List Source.Ty)) : Name :=
  match name, args with
  | .source _ spelling, args => Name.ofComponent ⟨spelling, args⟩
  | .structor _ isDestructor, none => .intrinsic (if isDestructor then .dtor else .ctor)
  | .structor _ isDestructor, some args =>
    .template (.intrinsic (if isDestructor then .dtor else .ctor)) (Ty.ofTypes args)

def Symbol.ofEntity : Source.Entity → Symbol
  | .function f =>
    ⟨⟨Name.ofFunctionName f.name f.args, Name.ofScope f.name.scope []⟩,
      .function .cdecl (Ty.ofTypes f.params) (.of f.quals f.refQual)
        (f.ret.elim .absent Ty.ofType)⟩
  | .vtable cls =>
    ⟨⟨.intrinsic .vftable, Name.ofComponent cls.name :: Name.ofScope cls.scope []⟩,
      .vftable [] {}⟩
  | .typeDescriptor type => ⟨⟨.typeDescriptor {} (Ty.ofType type), []⟩, .rttiType⟩

mutual

theorem Ty.ofTypeDenotes : (t : Source.Ty) → (Ty.ofType t).Denotes t
  | .object quals shape => by
    rw [Ty.ofType]
    exact .object (Ty.ofShapeHasShape (.of quals .none) shape)
  | .function params ret quals refQual => by
    have denotes := Ty.Denotes.function .cdecl (.of quals refQual)
      (.listed (Ty.ofTypesDenoteAll params)) (Ty.ofTypeDenotes ret)
    rw [Storage.ofQualifiers, Storage.ofRefQualifier] at denotes
    rwa [Ty.ofType]

theorem Ty.ofShapeHasShape (storage : Storage) :
    (s : Shape) → (Ty.ofShape storage s).HasShape storage.qualifiers s
  | .builtin which => by
    rw [Ty.ofShape]
    exact .builtin which storage
  | .named ⟨scope, last⟩ => by
    rw [Ty.ofShape]
    exact .named .class storage (Name.ofComponentNames last) (Name.ofScopeScopes scope .nil)
  | .indirect kind target => by
    have shape := Ty.HasShape.indirect (.of kind) storage (Ty.ofTypeDenotes target)
    rw [Indirection.ofCanonical] at shape
    rwa [Ty.ofShape]

theorem Name.ofComponentNames : (c : Component) → (Name.ofComponent c).Names c
  | ⟨spelling, none⟩ => by
    rw [Name.ofComponent]
    exact .plain spelling
  | ⟨spelling, some args⟩ => by
    rw [Name.ofComponent]
    exact .template spelling (Ty.ofTypesDenoteAll args)

theorem Name.ofScopeScopes {outer : List Name} {ds : List Component} :
    (cs : List Component) → Name.Scopes outer ds → Name.Scopes (Name.ofScope cs outer) (ds ++ cs)
  | [], scopes => by
    rwa [Name.ofScope, List.append_nil]
  | c :: cs, scopes => by
    rw [Name.ofScope, List.append_cons]
    exact Name.ofScopeScopes cs (.inner (Name.ofComponentNames c) scopes)

theorem Ty.ofTypesDenoteAll : (ts : List Source.Ty) → Ty.DenoteAll (Ty.ofTypes ts) ts
  | [] => by
    rw [Ty.ofTypes]
    exact .nil
  | t :: ts => by
    rw [Ty.ofTypes]
    exact .cons (Ty.ofTypeDenotes t) (Ty.ofTypesDenoteAll ts)

end

theorem Name.ofFunctionNames (f : Source.Function) :
    (Name.ofFunctionName f.name f.args).NamesFunction f := by
  obtain ⟨name, args, _⟩ := f
  cases name with
  | source scope spelling => exact .source rfl (ofComponentNames _)
  | structor cls isDestructor =>
    cases args with
    | none => exact .structor isDestructor rfl rfl
    | some args => exact .instance isDestructor rfl rfl (Ty.ofTypesDenoteAll args)

theorem Symbol.ofEntityEncodes (e : Source.Entity) : (Symbol.ofEntity e).Encodes e := by
  cases e with
  | function f =>
    refine .function .cdecl (Name.ofFunctionNames f) (Name.ofScopeScopes _ .nil)
      (.listed (Ty.ofTypesDenoteAll f.params)) ?_ rfl (Storage.ofRefQualifier _ _)
    cases f.ret with
    | none => exact .absent
    | some ret => exact .encoded (Ty.ofTypeDenotes ret)
  | vtable cls => exact .vtable {} (Name.ofComponentNames _) (Name.ofScopeScopes _ .nil)
  | typeDescriptor type => exact .typeDescriptor {} (Ty.ofTypeDenotes type)

/-! ### Their canonical form -/

theorem Primitive.canonicalOfBuiltin (which : Source.Builtin) :
    (Primitive.ofBuiltin which).canonical? = some which.spelling := by
  cases which <;> rfl

theorem Ty.Denotes.encoded {α : Type} {u : Ty} {t : Source.Ty} (types : u.Denotes t)
    (converted : α) : u.ifEncoded converted = some converted := by
  cases types with
  | object shape => cases shape <;> rfl
  | _ => rfl

theorem Ty.Denotes.isVoid {storage : Storage} {t : Source.Ty}
    (types : (Ty.primitive .void storage).Denotes t) : t.isVoid = true := by
  obtain ⟨shape⟩ := types
  generalize which : Primitive.void = p at shape
  cases shape with
  | builtin builtin _ => cases builtin <;> first | rfl | cases which

theorem Ty.DenoteAll.params {us : List Ty} {ts : List Source.Ty} (list : Ty.DenoteAll us ts)
    (several : lone Source.Ty.isVoid ts = false) : Ty.toParams us = Ty.eachToType us := by
  cases list with
  | nil => rw [toParams, eachToType]
  | cons head tail =>
    rw [toParams, eachToType]
    rintro storage rfl rfl
    cases tail
    simp [lone, head.isVoid] at several

theorem scopedName {n : Name} {outer : List Name} {path : Source.Path}
    (scope : Name.toPieces outer = Component.pieces path.scope)
    (name : n.toPiece? = some path.name.piece) :
    ScopedName.toName ⟨n, outer⟩ = path.canonical := by
  rw [ScopedName.toName, scope, name, path.canonicalParts]
  rfl

-- The induction follows the symbols. Every list of parameters on the way has to be clear of a lone
-- `void`, so the condition is handed down with the parts of the entity.
mutual

theorem Name.Names.canonical {n : Name} {c : Component} :
    n.Names c → c.noLone Source.Ty.isVoid = true → n.toPiece? = some c.piece
  | .plain spelling, _ => by
    rw [Name.toPiece?, Text.decodeLossyEncode]
    rfl
  | .template spelling list, clear => by
    rw [Name.toPiece?, list.canonical clear, Name.toPiece?, Text.decodeLossyEncode]
    rfl

theorem Name.Scopes.canonical {ns : List Name} {cs : List Component} :
    Name.Scopes ns cs → Component.allNoLone Source.Ty.isVoid cs = true →
      Name.toPieces ns = Component.pieces cs
  | .nil, _ => by rw [Name.toPieces, Component.pieces]
  | .inner name scope, clear => by
    simp only [Component.allNoLoneAppend, Component.allNoLone, Bool.and_eq_true] at clear
    rw [Name.toPieces, scope.canonical clear.1, name.canonical clear.2.1, Component.piecesAppend]
    rfl

theorem Ty.HasShape.canonical {u : Ty} {q : Qualifiers} {s : Shape} :
    u.HasShape q s → s.noLone Source.Ty.isVoid = true → u.toType = s.canonical.withQualifiers q
  | .builtin which storage, _ => by
    rw [Ty.toType, Primitive.canonicalOfBuiltin, Shape.canonical]
  | .named kind storage name scope, clear => by
    simp only [Shape.noLone, Source.Path.noLoneParts, Bool.and_eq_true] at clear
    rw [Ty.toType, scopedName (scope.canonical clear.1) (name.canonical clear.2), Shape.canonical]
  | .indirect kind storage target, clear => by
    rw [Ty.toType, target.canonical clear, Shape.canonical]

theorem Ty.Denotes.canonical {u : Ty} {t : Source.Ty} :
    u.Denotes t → t.noLone Source.Ty.isVoid = true → u.toType = t.canonical
  | .object shape, clear => by rw [shape.canonical clear, Source.Ty.canonical]
  | .function convention storage list result, clear => by
    simp only [Source.Ty.noLone, Bool.and_eq_true, Bool.not_eq_true'] at clear
    obtain ⟨⟨several, params⟩, ret⟩ := clear
    rw [Ty.toType, list.canonical several params, result.canonical ret, result.encoded,
      Source.Ty.canonical]
  | .memberFunction membership convention storage list result, clear => by
    simp only [Source.Ty.noLone, Bool.and_eq_true, Bool.not_eq_true'] at clear
    obtain ⟨⟨several, params⟩, ret⟩ := clear
    rw [Ty.toType, list.canonical several params, result.canonical ret, result.encoded,
      Source.Ty.canonical]

theorem Ty.DenoteAll.canonical {us : List Ty} {ts : List Source.Ty} :
    Ty.DenoteAll us ts → Source.Ty.allNoLone Source.Ty.isVoid ts = true →
      Ty.eachToType us = Source.Ty.canonicals ts
  | .nil, _ => by rw [Ty.eachToType, Source.Ty.canonicals]
  | .cons head tail, clear => by
    simp only [Source.Ty.allNoLone, Bool.and_eq_true] at clear
    rw [Ty.eachToType, head.canonical clear.1, tail.canonical clear.2, Source.Ty.canonicals]

theorem Ty.DenoteParams.canonical {us : List Ty} {ts : List Source.Ty} :
    Ty.DenoteParams us ts → lone Source.Ty.isVoid ts = false →
      Source.Ty.allNoLone Source.Ty.isVoid ts = true → Ty.toParams us = Source.Ty.canonicals ts
  | .void storage, _, _ => by rw [Ty.toParams, Source.Ty.canonicals]
  | .listed list, several, clear => by rw [list.params several, list.canonical clear]

end

theorem Ty.Returns.canonical {r : Ty} {ret : Option Source.Ty} (returns : r.Returns ret)
    (clear : ret.all (Source.Ty.noLone Source.Ty.isVoid) = true) :
    r.ifEncoded r.toType = ret.map Source.Ty.canonical := by
  cases returns with
  | absent => rfl
  | encoded type => rw [type.encoded, type.canonical clear, Option.map_some]

theorem structorPiece (isDestructor : Bool) :
    (Name.intrinsic (if isDestructor then .dtor else .ctor)).toPiece? =
      some (.plain (if isDestructor then "$destructor" else "$constructor")) := by
  cases isDestructor <;> rfl

theorem Name.NamesFunction.canonical {n : Name} {f : Source.Function} (names : n.NamesFunction f)
    (clear : f.path.name.noLone Source.Ty.isVoid = true) :
    n.toPiece? = some f.path.name.piece := by
  cases names with
  | source own name =>
    rw [Source.Function.path, own] at clear ⊢
    exact name.canonical clear
  | structor isDestructor own bare =>
    rw [Source.Function.path, own, bare, structorPiece]
    rfl
  | «instance» isDestructor own given list =>
    rw [Source.Function.path, own, given] at clear ⊢
    rw [toPiece?, list.canonical clear, structorPiece]
    rfl

theorem Name.NamesFunction.ordinary {n : Name} {f : Source.Function} (names : n.NamesFunction f) :
    n ≠ .intrinsic .vftable ∧ n ≠ .intrinsic .completeObjectLocator ∧
      ∀ storage type, n ≠ .typeDescriptor storage type := by
  cases names with
  | source own name =>
    generalize f.args = args at name
    cases name <;> simp
  | structor isDestructor own bare => split <;> simp
  | «instance» isDestructor own given list => simp

theorem Name.Scopes.notInBody {ns : List Name} {cs : List Component} :
    Name.Scopes ns cs → Name.outermostRoot? ns = none
  | .nil => rfl
  | .inner name scope => by
    rw [outermostRoot?, scope.notInBody]
    rintro function rfl -
    cases name

theorem functionRoot {n : Name} {outer : List Name} {type : Ty} {f : Source.Function}
    {signature : Canonical.Signature} (names : n.NamesFunction f)
    (scope : Name.Scopes outer f.name.scope) (typed : type.signature? = some signature) :
    Symbol.toRoot ⟨⟨n, outer⟩, type⟩ = .function (ScopedName.toName ⟨n, outer⟩) signature := by
  obtain ⟨noTable, noLocator, noDescriptor⟩ := names.ordinary
  rw [Symbol.toRoot.eq_4 _ _ _ noTable noLocator noDescriptor, typed, scope.notInBody]

theorem Symbol.Encodes.functionParts {y : Symbol} {f : Source.Function}
    (encodes : y.Encodes (.function f)) :
    ∃ (n : Name) (outer : List Name) (us : List Ty) (r : Ty), n.NamesFunction f ∧
      Name.Scopes outer f.name.scope ∧ Ty.DenoteParams us f.params ∧ r.Returns f.ret ∧
      y.toRoot = .function (ScopedName.toName ⟨n, outer⟩)
        ⟨Ty.toParams us, r.ifEncoded r.toType, f.quals, f.refQual⟩ := by
  cases encodes with
  | function convention name scope params result quals refQual =>
    refine ⟨_, _, _, _, name, scope, params, result, functionRoot name scope ?_⟩
    rw [Ty.signature?, quals, refQual]
  | memberFunction membership convention name scope params result quals refQual =>
    refine ⟨_, _, _, _, name, scope, params, result, functionRoot name scope ?_⟩
    rw [Ty.signature?, quals, refQual]

theorem Symbol.Encodes.canonical {y : Symbol} {e : Source.Entity} (encodes : y.Encodes e)
    (clear : e.noLone Source.Ty.isVoid = true) : y.toRoot = e.toRoot := by
  cases e with
  | function f =>
    obtain ⟨n, outer, us, r, name, scope, params, result, root⟩ := encodes.functionParts
    simp only [Source.Entity.noLone, Source.Path.noLoneParts, Bool.and_eq_true,
      Bool.not_eq_true'] at clear
    obtain ⟨⟨⟨⟨scopes, own⟩, several⟩, list⟩, ret⟩ := clear
    rw [root, scopedName (scope.canonical scopes) (name.canonical own),
      params.canonical several list, result.canonical ret]
    rfl
  | vtable cls =>
    cases encodes with
    | vtable storage name scope =>
      rw [Source.Entity.noLone, Source.Path.noLoneParts, Bool.and_eq_true] at clear
      rw [Source.Entity.toRoot, ← scopedName (scope.canonical clear.1) (name.canonical clear.2)]
      rfl
  | typeDescriptor type =>
    cases encodes with
    | typeDescriptor storage type =>
      rw [toRoot, type.canonical clear]
      rfl

/- A list of one `void` is read as the empty one, however the `void` is qualified. -/
theorem Ty.DenoteParams.loneVoid {us : List Ty} {quals : Qualifiers}
    (params : Ty.DenoteParams us [.object quals (.builtin .void)]) : Ty.toParams us = [] := by
  obtain _ | ⟨⟨⟩ | ⟨⟨shape⟩, ⟨⟩⟩⟩ := params
  cases shape with
  | builtin which storage => rw [Primitive.ofBuiltin, toParams]

end CxxSymbols.Microsoft
