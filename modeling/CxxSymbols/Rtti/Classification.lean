import CxxSymbols.Image.Dynamic
import CxxSymbols.Rtti.TypeInfo
import Std.Data.ExtTreeMap
import Std.Data.ExtTreeSet
/-!
Finding the records. The first word of each points into a table of the language runtime, which a
shared image imports, so the symbol of the relocation there tells the kind of the record. Slots
that are to hold the handler for pure virtual calls are found in the same way.
-/
namespace CxxSymbols.Rtti
open Image (DynamicSymbol Relocation isAbsolute)

namespace Runtime

def classTypeInfo : String := "_ZTVN10__cxxabiv117__class_type_infoE"

def singleTypeInfo : String := "_ZTVN10__cxxabiv120__si_class_type_infoE"

def multipleTypeInfo : String := "_ZTVN10__cxxabiv121__vmi_class_type_infoE"

def pureVirtual : String := "__cxa_pure_virtual"

end Runtime

structure RuntimeSymbols where
  classTypeInfo : Nat
  singleTypeInfo : Nat
  multipleTypeInfo : Nat
  pureVirtual : Nat
  deriving DecidableEq, Repr, Inhabited

namespace RuntimeSymbols

def importOf (symbols : List DynamicSymbol) (name : String) : Except RttiError Nat :=
  match symbols.find? fun s => s.address = 0 && s.name == name.toUTF8 with
  | some s => .ok s.index
  | none => .error (.missingRuntimeSymbol name)

def find (symbols : List DynamicSymbol) : Except RttiError RuntimeSymbols := do
  let classTypeInfo ← importOf symbols Runtime.classTypeInfo
  let singleTypeInfo ← importOf symbols Runtime.singleTypeInfo
  let multipleTypeInfo ← importOf symbols Runtime.multipleTypeInfo
  let pureVirtual ← importOf symbols Runtime.pureVirtual
  return { classTypeInfo, singleTypeInfo, multipleTypeInfo, pureVirtual }

def kind? (r : RuntimeSymbols) (symbol : Nat) : Option TypeInfoKind :=
  if symbol = r.classTypeInfo then some .noInherit
  else if symbol = r.singleTypeInfo then some .singleInherit
  else if symbol = r.multipleTypeInfo then some .virtualMultiInherit
  else none

end RuntimeSymbols

structure Classification where
  kinds : Std.ExtTreeMap Address TypeInfoKind := ∅
  /- the slots that will hold the handler for pure virtual calls -/
  pending : Std.ExtTreeSet Address := ∅

namespace Classification

def note (r : RuntimeSymbols) (count : Nat) (c : Classification) (reloc : Relocation) :
    Except RttiError Classification :=
  match if isAbsolute reloc.type then reloc.symbol else none with
  | none => .ok c
  | some symbol =>
    if symbol < count then
      match r.kind? symbol with
      | some kind => .ok { c with kinds := c.kinds.insert reloc.offset kind }
      | none =>
        if symbol = r.pureVirtual then .ok { c with pending := c.pending.insert reloc.offset }
        else .ok c
    else .error (.badSymbolIndex reloc.offset symbol)

/- Later relocations of one place win. -/
def ofRelocations (symbols : List DynamicSymbol) (relocs : List Relocation) :
    Except RttiError Classification := do
  let runtime ← RuntimeSymbols.find symbols
  relocs.foldlM (note runtime symbols.length) {}

end Classification

end CxxSymbols.Rtti
