import CxxSymbols.Build.Error
import CxxSymbols.Build.Note
import CxxSymbols.Build.Report
import CxxSymbols.Image.ProgramDatabase
import CxxSymbols.Store.Database
/-!
A store in the making. Symbols are added from images and program databases in any number and order.
An image that cannot be used adds nothing. The store itself is in the order of the keys, so the
order of the inputs shows only where keys are equal.
-/
namespace CxxSymbols.Build
open Image (DynamicSymbol Elf ImageError PublicSymbol)
open Rtti (Classification RttiError RuntimeSymbols TypeInfo VTable View)
open Search (Index)
open Store (AddressMap IndexEntry Origin Record StoreError SymbolRow)

structure Draft where
  selection : Selection := {}
  rows : Array SymbolRow := #[]
  typeInfos : AddressMap TypeInfo := ∅
  vtables : AddressMap VTable := ∅
  skipped : Array Skipped := #[]
  processed : Nat := 0
  skippedCount : Nat := 0
  notes : Array Note := #[]

abbrev Drafting := EStateM BuildError Draft

namespace Draft

def noting (d : Draft) (note : Note) : Draft := { d with notes := d.notes.push note }

def notesSince (d earlier : Draft) : List Note := d.notes.toList.drop earlier.notes.size

def addSymbol (d : Draft) (origin : Origin) (raw : String) (address : Address) :
    Option Canonical.Root × Draft :=
  let d := { d with processed := d.processed + 1 }
  match d.selection.select raw address with
  | .ok (root, key) =>
    let demangled := match Mangled.demangle raw with
      | .ok text => text
      | .error _ => ""
    let row : SymbolRow := ⟨key, raw, demangled, root.kind, origin, address⟩
    (some root, { d with rows := d.rows.push row })
  | .error reason =>
    (none, { d with
      skippedCount := d.skippedCount + 1
      skipped := d.skipped.push ⟨raw, origin, address, reason⟩ })

def addPublicSymbol (d : Draft) (symbol : PublicSymbol) : Draft :=
  (d.addSymbol .pdb symbol.name symbol.address).2

def addPublicSymbols (d : Draft) (symbols : List PublicSymbol) : Draft :=
  symbols.foldl addPublicSymbol d

def addVTable (d : Draft) (v : View) (classes : Classification) (raw : String)
    (address : Address) : Draft :=
  match VTable.read v address classes.pending with
  | .ok table =>
    let d := if table.entries.isEmpty then d.noting (.emptyVTable address) else d
    { d with vtables := d.vtables.insert address table }
  | .error cause => d.noting (.unreadableVTable raw cause)

/- Reads the type information that a symbol stands for, if its kind is known. What was at its
address before stays. -/
def addTypeInfo (d : Draft) (v : View) (classes : Classification) (raw : String)
    (address : Address) : Draft :=
  match classes.kinds[address]? with
  | none => d
  | some kind =>
    match TypeInfo.read v address kind with
    | .ok info => { d with typeInfos := d.typeInfos.insertIfNew address info }
    | .error cause => d.noting (.unreadableTypeInfo raw cause)

def addDynamicSymbol (v : View) (classes : Classification) (d : Draft) (symbol : DynamicSymbol) :
    Draft :=
  let raw := Text.decodeLossy symbol.name.data.toList
  match d.addSymbol .elf raw symbol.address with
  | (some (.special .vtable _), d) => d.addVTable v classes raw symbol.address
  | (some (.special .typeInfo _), d) => d.addTypeInfo v classes raw symbol.address
  | (_, d) => d

def orFail {α : Type} : Except BuildError α → Drafting α
  | .ok a => pure a
  | .error e => throw e

def note (note : Note) : Drafting Unit := modify fun d => d.noting note

/- Adds the dynamic symbols of an image with their tables and type information. All that can fail
comes before the first symbol is added. -/
def addImage (elf : Elf) : Drafting Unit := do
  if elf.layout.order ≠ .little then throw .bigEndian
  let name := (← get).selection.dataSection
  match ← orFail ((elf.loadSection name.toUTF8).mapError .image) with
  | none => throw (.missingSection name)
  | some data =>
    note (.loaded name data.address data.stop)
    let symbols ← orFail (elf.dynamicSymbols.mapError .image)
    let relocations := elf.dynamicRelocations
    note (.tables symbols.length relocations.length)
    let runtime ← orFail ((RuntimeSymbols.find symbols).mapError .ofRtti)
    note (.runtime runtime)
    let classes ← orFail ((Classification.ofRelocations symbols relocations).mapError .ofRtti)
    note (.classified classes.kinds.size classes.pending.size)
    let named := symbols.filter fun s => !s.name.isEmpty
    modify fun d => named.foldl (addDynamicSymbol data.view classes) d
    let d ← get
    note (.collected d.vtables.size d.typeInfos.size)

def sortedRows (d : Draft) : List SymbolRow :=
  d.rows.toList.mergeSort fun a b => a.key ≤ b.key

def index (d : Draft) : Index := Index.build (d.sortedRows.map SymbolRow.key)

def indexEntry (token : String) (places : Array Nat) : IndexEntry :=
  ⟨token, places.toList.map .ofNat⟩

def records (d : Draft) : List Record :=
  d.sortedRows.map Record.symbol ++ d.typeInfos.toList.map (fun e => Record.typeInfo e.2) ++
    d.vtables.toList.map (fun e => Record.vtable e.2) ++
    d.index.toList.map (fun e => Record.index (indexEntry e.1 e.2))

def file (d : Draft) : Except StoreError ByteArray := Store.fileOf d.records

def report (d : Draft) : Report :=
  ⟨d.processed, d.rows.size, d.skippedCount, d.skipped.toList, d.typeInfos.size, d.vtables.size⟩

end Draft

end CxxSymbols.Build
