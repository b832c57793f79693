/-!
The model that symbols of every mangling scheme are mapped to. A `Root` is a whole symbol; two
symbols denote the same entity when the printed keys of their roots are equal. Trees own their
parts: nothing is shared and nothing refers back.
-/
namespace CxxSymbols.Canonical

structure Qualifiers where
  isConst : Bool := false
  isVolatile : Bool := false
  isRestrict : Bool := false
  deriving DecidableEq, Repr, Inhabited

namespace Qualifiers

def none : Qualifiers := {}

def union (a b : Qualifiers) : Qualifiers :=
  ⟨a.isConst || b.isConst, a.isVolatile || b.isVolatile, a.isRestrict || b.isRestrict⟩

def contains (a b : Qualifiers) : Bool :=
  (!b.isConst || a.isConst) && (!b.isVolatile || a.isVolatile) && (!b.isRestrict || a.isRestrict)

def isEmpty (a : Qualifiers) : Bool :=
  !a.isConst && !a.isVolatile && !a.isRestrict

end Qualifiers

inductive Indirection where
  | pointer
  | reference
  | rvalueReference
  deriving DecidableEq, Repr, Inhabited

inductive RefQualifier where
  | none
  | lvalue
  | rvalue
  deriving DecidableEq, Repr, Inhabited

inductive SpecialKind where
  | vtable
  | typeInfo
  | typeInfoName
  | completeObjectLocator
  deriving DecidableEq, Repr, Inhabited

mutual

inductive Ty where
  /- a construct without a canonical form: expressions, arrays, closures -/
  | skipped
  /- a marker for a type that only one scheme has and that C++ cannot spell -/
  | special (tag : String)
  | named (name : Name)
  | qualified (child : Ty) (quals : Qualifiers)
  | indirect (child : Ty) (kind : Indirection)
  | function (signature : Signature)
  | nested (entity : LocalEntity)

structure Name where
  pieces : List Piece

structure Piece where
  spelling : String
  /- present, though possibly empty, when the piece is a template specialization -/
  args : Option (List Ty)

structure Signature where
  params : List Ty
  /- absent when the symbol does not encode it -/
  ret : Option Ty
  quals : Qualifiers
  refQual : RefQualifier

structure LocalEntity where
  root : Root
  name : Ty
  type : Option Ty

inductive Root where
  | unknown
  | data (name : Name) (type : Option Ty)
  | function (name : Name) (signature : Signature)
  | special (kind : SpecialKind) (type : Ty)
  | nested (entity : LocalEntity)

end

instance : Inhabited Ty := ⟨.skipped⟩
instance : Inhabited Root := ⟨.unknown⟩
instance : Inhabited Name := ⟨⟨[]⟩⟩
instance : Inhabited Piece := ⟨⟨"", none⟩⟩
instance : Inhabited Signature := ⟨⟨[], none, .none, .none⟩⟩
instance : Inhabited LocalEntity := ⟨⟨.unknown, .skipped, none⟩⟩

inductive Kind where
  | unknown
  | data
  | function
  | special
  | nested
  deriving DecidableEq, Repr, Inhabited

namespace Kind

def code : Kind → UInt32
  | unknown => 0
  | data => 1
  | function => 2
  | special => 3
  | nested => 4

def ofCode? (code : UInt32) : Option Kind :=
  match code.toNat with
  | 0 => some unknown
  | 1 => some data
  | 2 => some function
  | 3 => some special
  | 4 => some nested
  | _ => none

def label : Kind → String
  | unknown => "unknown"
  | data => "variable"
  | function => "function"
  | special => "special"
  | nested => "local"

theorem ofCode?Code (k : Kind) : ofCode? k.code = some k := by
  cases k <;> rfl

end Kind

def Root.kind : Root → Kind
  | .unknown => .unknown
  | .data .. => .data
  | .function .. => .function
  | .special .. => .special
  | .nested .. => .nested

def skippedName : String := "$SKIP_NAME"

namespace Piece

def plain (spelling : String) : Piece := ⟨spelling, none⟩

def template (spelling : String) (args : List Ty) : Piece := ⟨spelling, some args⟩

end Piece

namespace Name

def ofPiece (first : Piece) : Name := ⟨[first]⟩

def ofPieces : List Piece → Name
  | [] => ofPiece (.plain skippedName)
  | first :: rest => ⟨first :: rest⟩

def last (n : Name) : Piece := n.pieces.getLastD default

def push (n : Name) (p : Piece) : Name := ⟨n.pieces ++ [p]⟩

def pop (n : Name) : Option Piece × Name :=
  if n.pieces.length > 1 then (n.pieces.getLast?, ⟨n.pieces.dropLast⟩) else (none, n)

end Name

namespace Ty

def simple (spelling : String) : Ty := .named (.ofPiece (.plain spelling))

def withQualifiers (t : Ty) (quals : Qualifiers) : Ty :=
  if quals.isEmpty then t else .qualified t quals

end Ty

end CxxSymbols.Canonical
