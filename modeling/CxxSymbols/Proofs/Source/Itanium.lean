import CxxSymbols.Itanium.Canonical
import CxxSymbols.Proofs.Source.Entity
/-!
The Itanium trees of an entity. A tree leaves open what its canonical form does not tell: where a
name is split into a scope and what lies in it, whether the short name of a class is used, and
whether the elements of a list stand in a pack. All trees of one entity have one canonical root.
-/
namespace CxxSymbols.Itanium
open Canonical (Qualifiers)
open Source (Component Shape Respelled)

mutual

inductive Node.Names : Node → List Component → Prop where
  | name (spelling : String) : Names (.name spelling) [⟨spelling, none⟩]
  | std {x : Node} {cs : List Component} (child : x.Names cs) : Names (.std x) (Source.std :: cs)
  | abbreviation (abbr : StdAbbreviation) :
      Names (.abbreviation abbr) [Source.std, ⟨abbr.identifier, none⟩]
  | nested {x y : Node} {cs ds : List Component} (scope : x.Names cs) (entity : y.Names ds) :
      Names (.nested x y) (cs ++ ds)
  | template {x : Node} {xs : List Node} {cs : List Component} {spelling : String}
      {args : List Source.Ty} (base : x.Names (cs ++ [⟨spelling, none⟩]))
      (list : Node.DenoteAll xs args) : Names (.template x xs) (cs ++ [⟨spelling, some args⟩])

inductive Node.HasShape : Node → Shape → Prop where
  | builtin (which : Source.Builtin) : HasShape (.name which.spelling) (.builtin which)
  | named {x : Node} {cs : List Component} {path : Source.Path}
      (respelled : Respelled path.components cs) (names : x.Names cs) :
      HasShape x (.named path)
  | pointer {x : Node} {t : Source.Ty} (target : x.Denotes t) :
      HasShape (.pointer x) (.indirect .pointer t)
  | lvalue {x : Node} {t : Source.Ty} (target : x.Denotes t) :
      HasShape (.reference x false) (.indirect .reference t)
  | rvalue {x : Node} {t : Source.Ty} (target : x.Denotes t) :
      HasShape (.reference x true) (.indirect .rvalueReference t)

inductive Node.Denotes : Node → Source.Ty → Prop where
  | plain {x : Node} {s : Shape} (shape : x.HasShape s) : Denotes x (.object {} s)
  | qualified {x : Node} {s : Shape} {q : Qualifiers} (shape : x.HasShape s) :
      Denotes (.qualified x q) (.object q s)
  | function {r : Node} {xs specifiers : List Node} {ret : Source.Ty} {params : List Source.Ty}
      {q : Qualifiers} {refQual : Canonical.RefQualifier} (result : r.Denotes ret)
      (list : Node.DenoteAll xs params) :
      Denotes (.functionType r xs q refQual specifiers) (.function params ret q refQual)

inductive Node.DenoteAll : List Node → List Source.Ty → Prop where
  | nil : DenoteAll [] []
  | cons {x : Node} {xs : List Node} {t : Source.Ty} {ts : List Source.Ty} (head : x.Denotes t)
      (tail : DenoteAll xs ts) : DenoteAll (x :: xs) (t :: ts)
  | pack {xs ys : List Node} {ts us : List Source.Ty} (items : Node.DenoteEach xs ts)
      (tail : DenoteAll ys us) : DenoteAll (.pack xs :: ys) (ts ++ us)
  | expansion {x : Node} {ys : List Node} {ts us : List Source.Ty} (pattern : x.Spreads ts)
      (tail : DenoteAll ys us) : DenoteAll (.expansion x :: ys) (ts ++ us)

inductive Node.DenoteEach : List Node → List Source.Ty → Prop where
  | nil : DenoteEach [] []
  | cons {x : Node} {xs : List Node} {t : Source.Ty} {ts : List Source.Ty} (head : x.Denotes t)
      (tail : DenoteEach xs ts) : DenoteEach (x :: xs) (t :: ts)

inductive Node.Spreads : Node → List Source.Ty → Prop where
  | pack {xs : List Node} {ts : List Source.Ty} (items : Node.DenoteEach xs ts) :
      Spreads (.pack xs) ts
  | pointer {x : Node} {ts : List Source.Ty} (pattern : x.Spreads ts) :
      Spreads (.pointer x) (ts.map fun t => .object {} (.indirect .pointer t))
  | lvalue {x : Node} {ts : List Source.Ty} (pattern : x.Spreads ts) :
      Spreads (.reference x false) (ts.map fun t => .object {} (.indirect .reference t))
  | rvalue {x : Node} {ts : List Source.Ty} (pattern : x.Spreads ts) :
      Spreads (.reference x true) (ts.map fun t => .object {} (.indirect .rvalueReference t))
  | qualified {x : Node} {shapes : List Shape} {q : Qualifiers}
      (pattern : x.Spreads (shapes.map (.object {}))) :
      Spreads (.qualified x q) (shapes.map (.object q))

end

/- The trees of the name of a function. A constructor lies in its class, and it does not matter
what else is known of that. -/
inductive Node.NamesFunction : Node → Source.Function → Prop where
  | source {x : Node} {scope cs : List Component} {spelling : String} {f : Source.Function}
      (own : f.name = .source scope spelling) (respelled : Respelled f.path.components cs)
      (names : x.Names cs) : NamesFunction x f
  | structor {x y : Node} {namesake : Option Node} {cs : List Component} {cls : Source.Path}
      {isDestructor : Bool} {f : Source.Function} (own : f.name = .structor cls isDestructor)
      (bare : f.args = none) (respelled : Respelled cls.components cs) (scope : x.Names cs) :
      NamesFunction (.nested x (.structor y isDestructor namesake)) f
  | instance {x y : Node} {xs : List Node} {namesake : Option Node} {cs : List Component}
      {cls : Source.Path} {isDestructor : Bool} {args : List Source.Ty} {f : Source.Function}
      (own : f.name = .structor cls isDestructor) (given : f.args = some args)
      (respelled : Respelled cls.components cs) (scope : x.Names cs)
      (list : Node.DenoteAll xs args) :
      NamesFunction (.template (.nested x (.structor y isDestructor namesake)) xs) f
  | member {x y : Node} {xs : List Node} {namesake : Option Node} {cs : List Component}
      {cls : Source.Path} {isDestructor : Bool} {args : List Source.Ty} {f : Source.Function}
      (own : f.name = .structor cls isDestructor) (given : f.args = some args)
      (respelled : Respelled cls.components cs) (scope : x.Names cs)
      (list : Node.DenoteAll xs args) :
      NamesFunction (.nested x (.template (.structor y isDestructor namesake) xs)) f

inductive Node.Returns : Option Node → Option Source.Ty → Prop where
  | absent : Returns none none
  | encoded {x : Node} {t : Source.Ty} (type : x.Denotes t) : Returns (some x) (some t)

inductive Node.Encodes : Node → Source.Entity → Prop where
  | function {x : Node} {xs : List Node} {ret : Option Node} {f : Source.Function}
      (name : x.NamesFunction f) (params : Node.DenoteAll xs f.params)
      (result : Node.Returns ret f.ret) :
      Encodes (.function ret x xs f.quals f.refQual) (.function f)
  | vtable {x : Node} {cls : Source.Path} (shape : x.HasShape (.named cls)) :
      Encodes (.special .virtualTable x) (.vtable cls)
  | typeDescriptor {x : Node} {t : Source.Ty} (type : x.Denotes t) :
      Encodes (.special .typeInfo x) (.typeDescriptor t)

/-! ### One of them for each entity -/

mutual

def Node.ofType : Source.Ty → Node
  | .object quals shape =>
    if quals = {} then Node.ofShape shape else .qualified (Node.ofShape shape) quals
  | .function params ret quals refQual =>
    .functionType (Node.ofType ret) (Node.ofTypes params) quals refQual []

def Node.ofShape : Shape → Node
  | .builtin which => .name which.spelling
  | .named path => Node.ofPath path
  | .indirect .pointer target => .pointer (Node.ofType target)
  | .indirect .reference target => .reference (Node.ofType target) false
  | .indirect .rvalueReference target => .reference (Node.ofType target) true

def Node.ofPath : Source.Path → Node
  | ⟨scope, last⟩ => Node.within scope (Node.ofComponent last)

def Node.ofComponent : Component → Node
  | ⟨spelling, none⟩ => .name spelling
  | ⟨spelling, some args⟩ => .template (.name spelling) (Node.ofTypes args)

def Node.within : List Component → Node → Node
  | [], x => x
  | c :: cs, x => .nested (Node.ofComponent c) (Node.within cs x)

def Node.ofTypes : List Source.Ty → List Node
  | [] => []
  | t :: ts => Node.ofType t :: Node.ofTypes ts

end

def Node.ofFunctionName (name : Source.FunctionName) (args : Option (List Source.Ty)) : Node :=
  match name, args with
  | .source scope spelling, args => Node.ofPath ⟨scope, ⟨spelling, args⟩⟩
  | .structor cls isDestructor, none =>
    .nested (Node.ofPath cls) (.structor (Node.ofPath cls) isDestructor none)
  | .structor cls isDestructor, some args =>
    .template (.nested (Node.ofPath cls) (.structor (Node.ofPath cls) isDestructor none))
      (Node.ofTypes args)

def Node.ofEntity : Source.Entity → Node
  | .function f =>
    .function (f.ret.map Node.ofType) (Node.ofFunctionName f.name f.args) (Node.ofTypes f.params)
      f.quals f.refQual
  | .vtable cls => .special .virtualTable (Node.ofPath cls)
  | .typeDescriptor type => .special .typeInfo (Node.ofType type)

mutual

theorem Node.ofTypeDenotes : (t : Source.Ty) → (Node.ofType t).Denotes t
  | .object quals shape => by
    rw [ofType]
    split
    · next none => exact none ▸ .plain (ofShapeHasShape shape)
    · exact .qualified (ofShapeHasShape shape)
  | .function params ret _ _ => by
    rw [ofType]
    exact .function (ofTypeDenotes ret) (ofTypesDenoteAll params)

theorem Node.ofShapeHasShape : (s : Shape) → (Node.ofShape s).HasShape s
  | .builtin which => by
    rw [ofShape]
    exact .builtin which
  | .named path => by
    rw [ofShape]
    exact .named (.same _) (ofPathNames path)
  | .indirect .pointer target => by
    rw [ofShape]
    exact .pointer (ofTypeDenotes target)
  | .indirect .reference target => by
    rw [ofShape]
    exact .lvalue (ofTypeDenotes target)
  | .indirect .rvalueReference target => by
    rw [ofShape]
    exact .rvalue (ofTypeDenotes target)

theorem Node.ofPathNames : (path : Source.Path) → (Node.ofPath path).Names path.components
  | ⟨scope, last⟩ => by
    rw [ofPath]
    exact withinNames scope (ofComponentNames last)

theorem Node.ofComponentNames : (c : Component) → (Node.ofComponent c).Names [c]
  | ⟨spelling, none⟩ => by
    rw [ofComponent]
    exact .name spelling
  | ⟨spelling, some args⟩ => by
    have base : (Node.name spelling).Names ([] ++ [⟨spelling, none⟩]) := .name spelling
    rw [ofComponent]
    exact (Names.template base (ofTypesDenoteAll args) :)

theorem Node.withinNames {x : Node} {ds : List Component} :
    (cs : List Component) → x.Names ds → (Node.within cs x).Names (cs ++ ds)
  | [], names => by
    rw [within]
    exact names
  | c :: cs, names => by
    rw [within]
    exact (Names.nested (ofComponentNames c) (withinNames cs names) :)

theorem Node.ofTypesDenoteAll : (ts : List Source.Ty) → Node.DenoteAll (Node.ofTypes ts) ts
  | [] => by
    rw [ofTypes]
    exact .nil
  | t :: ts => by
    rw [ofTypes]
    exact .cons (ofTypeDenotes t) (ofTypesDenoteAll ts)

end

theorem Node.ofFunctionNames (f : Source.Function) :
    (Node.ofFunctionName f.name f.args).NamesFunction f := by
  obtain ⟨name, args, _⟩ := f
  cases name with
  | source scope spelling => exact .source rfl (.same _) (ofPathNames _)
  | structor cls isDestructor =>
    cases args with
    | none => exact .structor rfl rfl (.same _) (ofPathNames cls)
    | some args => exact .instance rfl rfl (.same _) (ofPathNames cls) (ofTypesDenoteAll args)

theorem Node.ofEntityEncodes (e : Source.Entity) : (Node.ofEntity e).Encodes e := by
  cases e with
  | function f =>
    refine .function (ofFunctionNames f) (ofTypesDenoteAll f.params) ?_
    cases f.ret with
    | none => exact .absent
    | some ret => exact .encoded (ofTypeDenotes ret)
  | vtable cls => exact .vtable (.named (.same _) (ofPathNames cls))
  | typeDescriptor type => exact .typeDescriptor (ofTypeDenotes type)

/-! ### Their canonical form -/

theorem withArgsLast (ps : List Canonical.Piece) (spelling : String) (args : List Canonical.Ty) :
    withArgs (ps ++ [⟨spelling, none⟩]) args = ps ++ [.template spelling args] := by
  simp [withArgs]

theorem Node.Names.type {x : Node} {cs : List Component} (names : x.Names cs) :
    x.toType = .named (Source.nameOf x.pieces) := by
  cases names <;> simp [toType, pieces] <;> rfl

theorem Node.Denotes.listed {x : Node} {t : Source.Ty} (types : x.Denotes t) (xs : List Node) :
    toTypes (x :: xs) = x.toType :: toTypes xs := by
  cases types with
  | plain shape =>
    cases shape with
    | named respelled name => cases name <;> simp [toTypes]
    | _ => simp [toTypes]
  | _ => simp [toTypes]

-- The induction follows the trees. Nothing is shortened before a name is whole, so the pieces of a
-- name are told apart from the name that they make.
mutual

theorem Node.Names.canonical {x : Node} {cs : List Component} :
    x.Names cs → x.pieces = Component.pieces cs
  | .name spelling => by
    simp [pieces, Component.pieces, Component.piece, Source.Ty.canonicals?, Canonical.Piece.plain]
  | .std child => by
    rw [pieces, child.canonical]
    rfl
  | .abbreviation abbr => by
    simp [pieces, StdAbbreviation.pieces, Component.pieces, Component.piece,
      Source.Ty.canonicals?, Canonical.Piece.plain, Source.std]
  | .nested scope entity => by
    rw [pieces, scope.canonical, entity.canonical, Component.piecesAppend]
  | .template base list => by
    rw [pieces, base.canonical, list.canonical, Component.piecesAppend, Component.piecesAppend]
    exact withArgsLast _ _ _

theorem Node.HasShape.canonical {x : Node} {s : Shape} : x.HasShape s → x.toType = s.canonical
  | .builtin which => by cases which <;> rfl
  | .named respelled names => by
    rw [names.type, names.canonical, respelled.canonical, Shape.canonical]
  | .pointer target => by rw [toType, target.canonical, Shape.canonical]
  | .lvalue target => by
    rw [toType, target.canonical, Shape.canonical]
    rfl
  | .rvalue target => by
    rw [toType, target.canonical, Shape.canonical]
    rfl

theorem Node.Denotes.canonical {x : Node} {t : Source.Ty} : x.Denotes t → x.toType = t.canonical
  | .plain shape => by
    rw [shape.canonical, Source.Ty.canonical, Source.withoutQualifiers]
  | .qualified shape => by rw [toType, shape.canonical, Source.Ty.canonical]
  | .function result list => by
    rw [toType, result.canonical, list.canonical, Source.Ty.canonical]

theorem Node.DenoteAll.canonical {xs : List Node} {ts : List Source.Ty} :
    Node.DenoteAll xs ts → toTypes xs = Source.Ty.canonicals ts
  | .nil => by simp [toTypes, Source.Ty.canonicals]
  | .cons head tail => by
    rw [head.listed, head.canonical, tail.canonical, Source.Ty.canonicals]
  | .pack items tail => by
    rw [toTypes, items.canonical, tail.canonical, Source.Ty.canonicalsAppend]
  | .expansion pattern tail => by
    rw [toTypes, pattern.canonical, tail.canonical, Source.Ty.canonicalsAppend]
    rfl

theorem Node.DenoteEach.canonical {xs : List Node} {ts : List Source.Ty} :
    Node.DenoteEach xs ts → eachType xs = Source.Ty.canonicals ts
  | .nil => by simp [eachType, Source.Ty.canonicals]
  | .cons head tail => by
    rw [eachType, head.canonical, tail.canonical, Source.Ty.canonicals]

theorem Node.Spreads.canonical {x : Node} {ts : List Source.Ty} :
    x.Spreads ts → x.expand? = some (Source.Ty.canonicals ts)
  | .pack items => by rw [expand?, items.canonical]
  | .pointer pattern => by
    rw [expand?, pattern.canonical, Source.Ty.canonicalsIndirect, Option.map_some]
  | .lvalue pattern => by
    rw [expand?, pattern.canonical, Source.Ty.canonicalsIndirect]
    rfl
  | .rvalue pattern => by
    rw [expand?, pattern.canonical, Source.Ty.canonicalsIndirect]
    rfl
  | .qualified pattern => by
    rw [expand?, pattern.canonical]
    exact congrArg some (Source.Ty.canonicalsQualified _ _).symm

end

theorem Node.NamesFunction.canonical {x : Node} {f : Source.Function} (names : x.NamesFunction f) :
    Source.nameOf x.pieces = f.path.canonical := by
  cases names with
  | source own respelled names => rw [names.canonical, respelled.canonical]
  | structor own bare respelled scope =>
    rw [pieces, pieces, scope.canonical, respelled.canonicalBefore, Source.Path.canonicalParts,
      Source.Function.path, own, bare]
    rfl
  | «instance» own given respelled scope list =>
    rw [pieces, pieces, pieces, scope.canonical, list.canonical,
      Source.Path.canonicalParts, Source.Function.path, own, given, Source.FunctionName.scope,
      ← respelled.canonicalBefore]
    exact congrArg _ (withArgsLast _ _ _)
  | member own given respelled scope list =>
    rw [pieces, pieces, pieces, scope.canonical, list.canonical, respelled.canonicalBefore,
      Source.Path.canonicalParts, Source.Function.path, own, given]
    rfl

theorem Node.NamesFunction.notInBody {encoding entity : Node} {f : Source.Function} :
    ¬(Node.inBody encoding entity).NamesFunction f := by
  rintro ⟨own, respelled, ⟨⟩⟩

theorem Node.Returns.canonical {r : Option Node} {ret : Option Source.Ty}
    (returns : Node.Returns r ret) : toType? r = ret.map Source.Ty.canonical := by
  cases returns with
  | absent => rfl
  | encoded type => rw [toType?, type.canonical, Option.map_some]

theorem Node.Encodes.canonical {x : Node} {e : Source.Entity} (encodes : x.Encodes e) :
    x.toRoot = e.toRoot := by
  cases encodes with
  | function names params result =>
    rw [toRoot, params.canonical, result.canonical, Source.Entity.toRoot, ← names.canonical]
    · rfl
    · rintro encoding entity rfl
      exact names.notInBody
  | vtable shape =>
    rw [toRoot, shape.canonical]
    rfl
  | typeDescriptor type =>
    rw [toRoot, type.canonical]
    rfl

end CxxSymbols.Itanium
