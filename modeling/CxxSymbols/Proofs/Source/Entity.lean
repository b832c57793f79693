import CxxSymbols.Canonical.StdAlias
/-!
Entities as C++ has them, before any scheme mangles them, as far as both schemes have a form for
them: functions, the tables of classes and the descriptors of types. Each has one canonical root,
which does not depend on a scheme.
-/
namespace CxxSymbols.Source
open Canonical (Qualifiers RefQualifier Indirection)

inductive Builtin where
  | void
  | bool
  | char
  | signedChar
  | unsignedChar
  | short
  | unsignedShort
  | int
  | long
  | unsignedLong
  | float
  | double
  deriving DecidableEq, Repr

def Builtin.spelling : Builtin → String
  | void => "void"
  | bool => "bool"
  | char => "char"
  | signedChar => "signed char"
  | unsignedChar => "unsigned char"
  | short => "short"
  | unsignedShort => "unsigned short"
  | int => "int"
  | long => "long"
  | unsignedLong => "unsigned long"
  | float => "float"
  | double => "double"

mutual

inductive Ty where
  | object (quals : Qualifiers) (shape : Shape)
  | function (params : List Ty) (ret : Ty) (quals : Qualifiers) (refQual : RefQualifier)

inductive Shape where
  | builtin (which : Builtin)
  | named (path : Path)
  | indirect (kind : Indirection) (target : Ty)

structure Path where
  scope : List Component
  name : Component

structure Component where
  spelling : String
  args : Option (List Ty)

end

/- The name of a function. A constructor or destructor has the name of its class. -/
inductive FunctionName where
  | source (scope : List Component) (spelling : String)
  | structor (cls : Path) (isDestructor : Bool)

structure Function where
  name : FunctionName
  args : Option (List Ty)
  params : List Ty
  ret : Option Ty
  quals : Qualifiers
  refQual : RefQualifier

inductive Entity where
  | function (f : Function)
  | vtable (cls : Path)
  | typeDescriptor (type : Ty)

def Path.components (path : Path) : List Component := path.scope ++ [path.name]

/-! ### The canonical form -/

def nameOf (pieces : List Canonical.Piece) : Canonical.Name :=
  (Canonical.Name.ofPieces pieces).stdAlias

mutual

def Ty.canonical : Ty → Canonical.Ty
  | .object quals shape => shape.canonical.withQualifiers quals
  | .function params ret quals refQual =>
    .function ⟨Ty.canonicals params, some ret.canonical, quals, refQual⟩

def Shape.canonical : Shape → Canonical.Ty
  | .builtin which => .simple which.spelling
  | .named path => .named path.canonical
  | .indirect kind target => .indirect target.canonical kind

def Path.canonical : Path → Canonical.Name
  | ⟨scope, name⟩ => nameOf (Component.pieces scope ++ [name.piece])

def Component.piece : Component → Canonical.Piece
  | ⟨spelling, args⟩ => ⟨spelling, Ty.canonicals? args⟩

def Component.pieces : List Component → List Canonical.Piece
  | [] => []
  | c :: cs => c.piece :: Component.pieces cs

def Ty.canonicals : List Ty → List Canonical.Ty
  | [] => []
  | t :: ts => t.canonical :: Ty.canonicals ts

def Ty.canonicals? : Option (List Ty) → Option (List Canonical.Ty)
  | none => none
  | some ts => some (Ty.canonicals ts)

end

theorem Component.piecesAppend (cs ds : List Component) :
    Component.pieces (cs ++ ds) = Component.pieces cs ++ Component.pieces ds := by
  induction cs with
  | nil => simp [Component.pieces]
  | cons c cs ih => simp [Component.pieces, ih]

theorem Path.canonicalParts (path : Path) :
    path.canonical = nameOf (Component.pieces path.scope ++ [path.name.piece]) := by
  cases path
  rfl

theorem Path.canonicalComponents (path : Path) :
    path.canonical = nameOf (Component.pieces path.components) := by
  rw [canonicalParts, components, Component.piecesAppend]
  rfl

theorem Ty.canonicalsAppend (ts us : List Ty) :
    Ty.canonicals (ts ++ us) = Ty.canonicals ts ++ Ty.canonicals us := by
  induction ts with
  | nil => simp [Ty.canonicals]
  | cons t ts ih => simp [Ty.canonicals, ih]

@[simp]
theorem withoutQualifiers (t : Canonical.Ty) : t.withQualifiers {} = t := rfl

theorem Ty.canonicalsIndirect (kind : Indirection) (ts : List Ty) :
    Ty.canonicals (ts.map fun t => .object {} (.indirect kind t)) =
      (Ty.canonicals ts).map (.indirect · kind) := by
  induction ts with
  | nil => simp [Ty.canonicals]
  | cons t ts ih => simp [Ty.canonicals, Ty.canonical, Shape.canonical, ih]

theorem Ty.canonicalsQualified (quals : Qualifiers) (shapes : List Shape) :
    Ty.canonicals (shapes.map (.object quals)) =
      (Ty.canonicals (shapes.map (.object {}))).map (·.withQualifiers quals) := by
  induction shapes with
  | nil => simp [Ty.canonicals]
  | cons s shapes ih => simp [Ty.canonicals, Ty.canonical, ih]

def FunctionName.scope : FunctionName → List Component
  | source scope _ => scope
  | structor cls _ => cls.components

def FunctionName.spelling : FunctionName → String
  | source _ spelling => spelling
  | structor _ isDestructor => if isDestructor then "$destructor" else "$constructor"

def Function.path (f : Function) : Path := ⟨f.name.scope, f.name.spelling, f.args⟩

def Function.signature (f : Function) : Canonical.Signature :=
  ⟨Ty.canonicals f.params, f.ret.map Ty.canonical, f.quals, f.refQual⟩

def Entity.toRoot : Entity → Canonical.Root
  | function f => .function f.path.canonical f.signature
  | vtable cls => .special .vtable (.named cls.canonical)
  | typeDescriptor type => .special .typeInfo type.canonical

/-! ### Other spellings of one name -/

def std : Component := ⟨"std", none⟩

def overChar (spelling : String) : Ty :=
  .object {} (.named ⟨[std], ⟨spelling, some [.object {} (.builtin .char)]⟩⟩)

def basicString : Component :=
  ⟨"basic_string",
    some [.object {} (.builtin .char), overChar "char_traits", overChar "allocator"]⟩

/- The inline namespace of `std` may stand in a name, and a string goes by its short name. -/
inductive Respelled : List Component → List Component → Prop where
  | same (cs : List Component) : Respelled cs cs
  | inNamespace {c : Component} (cs : List Component) (other : c.spelling ≠ "__cxx11") :
      Respelled (std :: c :: cs) (std :: ⟨"__cxx11", none⟩ :: c :: cs)
  | string (cs : List Component) :
      Respelled (std :: basicString :: cs) (std :: ⟨"string", none⟩ :: cs)

theorem nameOfStd {p : Canonical.Piece} (other : p.spelling ≠ "__cxx11")
    (rest : List Canonical.Piece) :
    nameOf (.plain "std" :: p :: rest) = ⟨.plain "std" :: p.stdAlias :: rest⟩ := by
  obtain ⟨spelling, args⟩ := p
  simp only [ne_eq] at other
  simp [nameOf, Canonical.Name.ofPieces, Canonical.Name.stdAlias, Canonical.Piece.plain, other]

@[simp]
theorem Component.pieceSpelling (c : Component) : c.piece.spelling = c.spelling := by
  cases c
  rfl

theorem basicStringAlias : basicString.piece.stdAlias = .plain "string" := rfl

theorem Respelled.canonicalBefore {cs ds : List Component} (respelled : Respelled cs ds)
    (rest : List Canonical.Piece) :
    nameOf (Component.pieces ds ++ rest) = nameOf (Component.pieces cs ++ rest) := by
  cases respelled with
  | same => rfl
  | inNamespace cs other => exact (nameOfStd (by simpa using other) _).symm
  | string cs =>
    have spelledOut := nameOfStd (p := basicString.piece) (by decide) (Component.pieces cs ++ rest)
    rw [basicStringAlias] at spelledOut
    exact (nameOfStd (by decide) _).trans spelledOut.symm

theorem Respelled.canonical {path : Path} {cs : List Component}
    (respelled : Respelled path.components cs) :
    nameOf (Component.pieces cs) = path.canonical := by
  have same := respelled.canonicalBefore []
  rwa [List.append_nil, List.append_nil, ← path.canonicalComponents] at same

/-! ### Lists of one parameter -/

def lone (such : Ty → Bool) : List Ty → Bool
  | [t] => such t
  | _ => false

def Ty.isVoid : Ty → Bool
  | .object _ (.builtin .void) => true
  | _ => false

/- Whether it is `void` without qualifiers. -/
def Ty.isPlainVoid : Ty → Bool
  | .object quals (.builtin .void) => quals.isEmpty
  | _ => false

section
variable (such : Ty → Bool)

mutual

/- Whether no list of parameters in it is of one type that is such. -/
def Ty.noLone : Ty → Bool
  | .object _ shape => shape.noLone
  | .function params ret _ _ => !lone such params && Ty.allNoLone params && ret.noLone

def Shape.noLone : Shape → Bool
  | .builtin _ => true
  | .named path => path.noLone
  | .indirect _ target => target.noLone

def Path.noLone : Path → Bool
  | ⟨scope, name⟩ => Component.allNoLone scope && name.noLone

def Component.noLone : Component → Bool
  | ⟨_, args⟩ => Ty.allNoLone? args

def Component.allNoLone : List Component → Bool
  | [] => true
  | c :: cs => c.noLone && Component.allNoLone cs

def Ty.allNoLone : List Ty → Bool
  | [] => true
  | t :: ts => t.noLone && Ty.allNoLone ts

def Ty.allNoLone? : Option (List Ty) → Bool
  | none => true
  | some ts => Ty.allNoLone ts

end

def Entity.noLone : Entity → Bool
  | function f =>
    f.path.noLone such && !lone such f.params && Ty.allNoLone such f.params &&
      f.ret.all (Ty.noLone such)
  | vtable cls => cls.noLone such
  | typeDescriptor type => type.noLone such

end

theorem Path.noLoneParts (such : Ty → Bool) (path : Path) :
    path.noLone such = (Component.allNoLone such path.scope && path.name.noLone such) := by
  cases path
  rfl

theorem Component.allNoLoneAppend {such : Ty → Bool} {cs ds : List Component} :
    Component.allNoLone such (cs ++ ds) =
      (Component.allNoLone such cs && Component.allNoLone such ds) := by
  induction cs with
  | nil => simp [Component.allNoLone]
  | cons c cs ih => simp [Component.allNoLone, ih, Bool.and_assoc]

end CxxSymbols.Source
