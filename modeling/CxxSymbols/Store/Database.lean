import CxxSymbols.Search.Bisection
import CxxSymbols.Search.Family
import CxxSymbols.Search.Index
import CxxSymbols.Store.Reader
/-!
A store that is loaded for queries. Rows stand in the order of their keys, and a row is known by
its place. A store without index entries gets the index that its keys give.
-/
namespace CxxSymbols.Store
open Rtti (TypeInfo VTable)
open Search (Family Index)

abbrev AddressMap (α : Type) := Std.ExtTreeMap Address α

structure Contents where
  symbols : Array SymbolRow := #[]
  typeInfos : AddressMap TypeInfo := ∅
  vtables : AddressMap VTable := ∅
  derived : AddressMap (Std.ExtTreeSet Address) := ∅
  entries : Array IndexEntry := #[]

namespace Contents

def noteBase (derived : Address) (edges : AddressMap (Std.ExtTreeSet Address)) (base : Rtti.Base) :
    AddressMap (Std.ExtTreeSet Address) :=
  edges.alter base.address fun known => some ((known.getD ∅).insert derived)

/- Later records of one address replace earlier ones, but the bases of both are kept. -/
def add (c : Contents) : Record → Except StoreError Contents
  | .symbol row =>
    if c.symbols.back?.any fun last => row.key < last.key then .error .symbolsNotSorted
    else .ok { c with symbols := c.symbols.push row }
  | .typeInfo info =>
    .ok { c with
      derived := info.bases.foldl (noteBase info.address) c.derived
      typeInfos := c.typeInfos.insert info.address info }
  | .vtable table => .ok { c with vtables := c.vtables.insert table.address table }
  | .index entry => .ok { c with entries := c.entries.push entry }

def ofRecords (records : List Record) : Except StoreError Contents := records.foldlM add {}

def insertEntry (count : Nat) (index : Index) (entry : IndexEntry) : Except StoreError Index :=
  match entry.ordinals.find? fun ordinal => count ≤ ordinal.toNat with
  | some ordinal => .error (.postingOutOfRange ordinal count)
  | none => .ok (index.insert entry.token (entry.ordinals.map UInt32.toNat))

def index (c : Contents) : Except StoreError Index :=
  if c.entries.isEmpty then .ok (Index.build (c.symbols.toList.map SymbolRow.key))
  else c.entries.toList.foldlM (insertEntry c.symbols.size) Index.empty

end Contents

def placesFrom (place : Nat) (places : AddressMap (Array Nat)) :
    List SymbolRow → AddressMap (Array Nat)
  | [] => places
  | row :: rest =>
    placesFrom (place + 1)
      (places.alter row.address fun known => some ((known.getD #[]).push place)) rest

structure Database where
  contents : Contents := {}
  byAddress : AddressMap (Array Nat) := ∅
  index : Index := Index.empty

namespace Database

def ofContents (c : Contents) : Except StoreError Database := do
  return ⟨c, placesFrom 0 ∅ c.symbols.toList, ← c.index⟩

def ofRecords (records : List Record) : Except StoreError Database := do
  ofContents (← Contents.ofRecords records)

/- A fault in the order of the records is met before one behind them in the file. -/
def ofFile (file : ByteArray) : Except StoreError Database := do
  let reader ← Reader.ofFile file
  let (records, stop) := reader.records
  let contents ← Contents.ofRecords records
  match stop with
  | some e => throw e
  | none => ofContents contents

def symbols (db : Database) : List SymbolRow := db.contents.symbols.toList

def rowsAt (db : Database) (places : List Nat) : List SymbolRow :=
  places.filterMap fun place => db.contents.symbols[place]?

def search (db : Database) (text : String) : List SymbolRow := db.rowsAt (db.index.query text)

def searchGrouped (db : Database) (text : String) : List (Family SymbolRow) :=
  Search.groupByFamily SymbolRow.key (db.search text)

/- The rows whose keys begin with a text. They stand together, behind those whose keys are below the
text. -/
def beginningWith (db : Database) (text : String) : List SymbolRow :=
  let rows := db.contents.symbols
  let start := Search.countMet (fun row => row.key < text) rows
  let rest := rows.extract start rows.size
  let count := Search.countMet (fun row => text.toList.isPrefixOf row.key.toList) rest
  (rest.extract 0 count).toList

def symbolsAt (db : Database) (address : Address) : List SymbolRow :=
  db.rowsAt (db.byAddress.getD address #[]).toList

def vtable? (db : Database) (address : Address) : Option VTable := db.contents.vtables[address]?

def vtables (db : Database) : List VTable := db.contents.vtables.toList.map Prod.snd

def typeInfo? (db : Database) (address : Address) : Option TypeInfo :=
  db.contents.typeInfos[address]?

def typeInfos (db : Database) : List TypeInfo := db.contents.typeInfos.toList.map Prod.snd

def derivedFrom (db : Database) (base : Address) : List Address :=
  (db.contents.derived.getD base ∅).toList

end Database

end CxxSymbols.Store
