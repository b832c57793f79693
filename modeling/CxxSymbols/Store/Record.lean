import CxxSymbols.Canonical.Basic
import CxxSymbols.Rtti.TypeInfo
import CxxSymbols.Rtti.VTable
/-!
What a store holds: rows on symbols, the run-time type information of classes, tables of virtual
functions, and the entries of a search index.
-/
namespace CxxSymbols.Store

inductive Origin where
  | pdb
  | elf
  deriving DecidableEq, Repr, Inhabited

namespace Origin

def code : Origin → UInt32
  | pdb => 1
  | elf => 2

def ofCode? (code : UInt32) : Option Origin :=
  match code.toNat with
  | 1 => some pdb
  | 2 => some elf
  | _ => none

def label : Origin → String
  | pdb => "pdb"
  | elf => "elf"

theorem ofCode?Code (o : Origin) : ofCode? o.code = some o := by
  cases o <;> rfl

end Origin

structure SymbolRow where
  key : String
  raw : String
  demangled : String
  kind : Canonical.Kind
  origin : Origin
  address : Address
  deriving DecidableEq, Repr, Inhabited

structure IndexEntry where
  token : String
  ordinals : List UInt32
  deriving DecidableEq, Repr, Inhabited

inductive Record where
  | symbol (row : SymbolRow)
  | typeInfo (info : Rtti.TypeInfo)
  | vtable (table : Rtti.VTable)
  | index (entry : IndexEntry)
  deriving DecidableEq, Repr, Inhabited

end CxxSymbols.Store
