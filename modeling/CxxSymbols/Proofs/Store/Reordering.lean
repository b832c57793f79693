import CxxSymbols.Proofs.Search.Insertion
import CxxSymbols.Proofs.Store.Contents
/-! Files whose records stand in another order. What is loaded does not show how records of different
kinds are interleaved, nor in which order the entries of the index or the records of different
addresses come, so two such files load to databases that answer all queries alike, or neither
loads. -/
namespace CxxSymbols.Store
open Rtti (TypeInfo VTable)
open Search (Family Index)

namespace Contents

theorem addEntriesPerm {entries others : List IndexEntry} (perm : entries.Perm others)
    (index : Index) : entries.foldl addEntry index = others.foldl addEntry index := by
  rw [addEntriesAll, addEntriesAll, Index.insertAllSame (Search.sameOfPerm (perm.map insertion))]

end Contents

/- Records in another order, which rows keep among themselves, and so do the records of one kind and
address. -/
structure Reordered (records others : List Record) : Prop where
  perm : records.Perm others
  rows : Record.rows records = Record.rows others
  typeInfos : ∀ a, ((Record.typeInfos records).filter fun info => info.address = a) =
    (Record.typeInfos others).filter fun info => info.address = a
  vtables : ∀ a, ((Record.vtables records).filter fun table => table.address = a) =
    (Record.vtables others).filter fun table => table.address = a

section Reordered
variable {records others : List Record}

theorem Reordered.symm (reordered : Reordered records others) : Reordered others records :=
  ⟨reordered.perm.symm, reordered.rows.symm, fun a => (reordered.typeInfos a).symm,
    fun a => (reordered.vtables a).symm⟩

namespace Contents

theorem symbolsReordered (reordered : Reordered records others) :
    (ofKinds records).symbols = (ofKinds others).symbols :=
  congrArg (fun rows : List SymbolRow => #[] ++ rows.toArray) reordered.rows

theorem typeInfosReordered (reordered : Reordered records others) :
    (ofKinds records).typeInfos = (ofKinds others).typeInfos := by
  refine Std.ExtTreeMap.ext_getElem? fun a => ?_
  rw [typeInfoFound, typeInfoFound, reordered.typeInfos]

theorem vtablesReordered (reordered : Reordered records others) :
    (ofKinds records).vtables = (ofKinds others).vtables := by
  refine Std.ExtTreeMap.ext_getElem? fun a => ?_
  rw [vtableFound, vtableFound, reordered.vtables]

theorem derivedReordered (reordered : Reordered records others) (b : Address) :
    (ofKinds records).derived.getD b ∅ = (ofKinds others).derived.getD b ∅ := by
  refine Std.ExtTreeSet.ext_mem fun a => ?_
  have same (info : TypeInfo) : info ∈ Record.typeInfos records ↔ info ∈ Record.typeInfos others :=
    (reordered.perm.filterMap Record.typeInfo?).mem_iff
  rw [derivedFound, derivedFound]
  simp only [same]

theorem indexReordered (reordered : Reordered records others) {index : Index}
    (indexed : (ofKinds records).index = .ok index) : (ofKinds others).index = .ok index := by
  have perm : (Record.entries records).Perm (Record.entries others) :=
    reordered.perm.filterMap Record.entry?
  have symbols := symbolsReordered reordered
  have entries (records : List Record) :
      (ofKinds records).entries = (Record.entries records).toArray := Array.empty_append
  rw [Contents.index, entries, List.isEmpty_toArray] at indexed ⊢
  rw [← symbols, ← perm.isEmpty_eq]
  split
  · rename_i none
    rw [if_pos none] at indexed
    exact indexed
  · rename_i some
    rw [if_neg some] at indexed
    obtain ⟨within, rfl⟩ := entriesLoad.mp indexed
    exact entriesLoad.mpr ⟨fun entry mem => within entry (perm.mem_iff.mpr mem),
      addEntriesPerm perm Index.empty⟩

end Contents

namespace Database

structure Alike (db db' : Database) : Prop where
  symbols : db.symbols = db'.symbols
  index : db.index = db'.index
  search : ∀ text, db.search text = db'.search text
  searchGrouped : ∀ text, db.searchGrouped text = db'.searchGrouped text
  beginningWith : ∀ text, db.beginningWith text = db'.beginningWith text
  symbolsAt : ∀ address, db.symbolsAt address = db'.symbolsAt address
  vtable : ∀ address, db.vtable? address = db'.vtable? address
  vtables : db.vtables = db'.vtables
  typeInfo : ∀ address, db.typeInfo? address = db'.typeInfo? address
  typeInfos : db.typeInfos = db'.typeInfos
  derivedFrom : ∀ base, db.derivedFrom base = db'.derivedFrom base

theorem loadsReordered (reordered : Reordered records others) {db : Database}
    (loaded : ofRecords records = .ok db) : ∃ db', ofRecords others = .ok db' ∧ db.Alike db' := by
  obtain ⟨ordered, index, indexed, rfl⟩ := recordsLoaded.mp loaded
  have symbols := Contents.symbolsReordered reordered
  have typeInfos := Contents.typeInfosReordered reordered
  have vtables := Contents.vtablesReordered reordered
  have search (text : String) : search ⟨Contents.ofKinds records, placesFrom 0 ∅
      (Contents.ofKinds records).symbols.toList, index⟩ text =
      search ⟨Contents.ofKinds others, placesFrom 0 ∅
        (Contents.ofKinds others).symbols.toList, index⟩ text := by
    simp only [Database.search, rowsAt, symbols]
  refine ⟨_, recordsLoaded.mpr ⟨reordered.rows ▸ ordered, index,
    Contents.indexReordered reordered indexed, rfl⟩, ?_⟩
  constructor
  · simp only [Database.symbols, symbols]
  · rfl
  · exact search
  · intro text
    rw [searchGrouped, search]
    rfl
  · simp only [Database.beginningWith, symbols, implies_true]
  · simp only [Database.symbolsAt, rowsAt, symbols, implies_true]
  · simp only [Database.vtable?, vtables, implies_true]
  · simp only [Database.vtables, vtables]
  · simp only [Database.typeInfo?, typeInfos, implies_true]
  · simp only [Database.typeInfos, typeInfos]
  · intro base
    exact congrArg Std.ExtTreeSet.toList (Contents.derivedReordered reordered base)

end Database
end Reordered

/- Two files of the same records, in orders in which rows and records of one kind and address follow
each other in the same way, load to databases that answer all queries alike, or none of them
loads. -/
theorem interleavingInvisible {records others : List Record} {file file' : ByteArray}
    (reordered : Reordered records others) (written : fileOf records = .ok file)
    (written' : fileOf others = .ok file') :
    ((∃ e, Database.ofFile file = .error e) ∧ ∃ e, Database.ofFile file' = .error e) ∨
      ∃ db db', Database.ofFile file = .ok db ∧ Database.ofFile file' = .ok db' ∧ db.Alike db' := by
  rw [Database.writtenLoads written, Database.writtenLoads written']
  cases loaded : Database.ofRecords records with
  | ok db =>
    obtain ⟨db', loaded', alike⟩ := Database.loadsReordered reordered loaded
    exact .inr ⟨db, db', rfl, loaded', alike⟩
  | error e =>
    cases loaded' : Database.ofRecords others with
    | ok db' =>
      obtain ⟨db, other, _⟩ := Database.loadsReordered reordered.symm loaded'
      cases loaded.symm.trans other
    | error e' => exact .inl ⟨⟨e, rfl⟩, e', rfl⟩

def braided : List Record :=
  [.index ⟨"f", [1]⟩, .typeInfo ⟨0x1000, .singleInherit, 0, [⟨0x2000, 0, 2⟩]⟩,
    .symbol ⟨"f()", "_Z1fv", "f()", .function, .elf, 0x4000⟩, .vtable ⟨0x3000, [0x4000, 0]⟩,
    .typeInfo ⟨0x2000, .noInherit, 0, []⟩,
    .symbol ⟨"f() const", "_ZNK1fv", "", .function, .elf, 0x4000⟩, .index ⟨"f", [0]⟩,
    .typeInfo ⟨0x1000, .noInherit, 0, []⟩]

def unbraided : List Record :=
  [.symbol ⟨"f()", "_Z1fv", "f()", .function, .elf, 0x4000⟩,
    .symbol ⟨"f() const", "_ZNK1fv", "", .function, .elf, 0x4000⟩,
    .typeInfo ⟨0x2000, .noInherit, 0, []⟩,
    .typeInfo ⟨0x1000, .singleInherit, 0, [⟨0x2000, 0, 2⟩]⟩,
    .typeInfo ⟨0x1000, .noInherit, 0, []⟩, .vtable ⟨0x3000, [0x4000, 0]⟩, .index ⟨"f", [0]⟩,
    .index ⟨"f", [1]⟩]

theorem braidedReordered : Reordered braided unbraided := by
  refine ⟨by decide, rfl, fun a => ?_, fun a => rfl⟩
  have first : Record.typeInfos braided = [⟨0x1000, .singleInherit, 0, [⟨0x2000, 0, 2⟩]⟩,
    ⟨0x2000, .noInherit, 0, []⟩, ⟨0x1000, .noInherit, 0, []⟩] := rfl
  have second : Record.typeInfos unbraided = [⟨0x2000, .noInherit, 0, []⟩,
    ⟨0x1000, .singleInherit, 0, [⟨0x2000, 0, 2⟩]⟩, ⟨0x1000, .noInherit, 0, []⟩] := rfl
  rw [first, second]
  by_cases one : (0x1000 : Address) = a
  · subst one
    rfl
  · by_cases two : (0x2000 : Address) = a
    · subst two
      rfl
    · simp [one, two]

theorem braidedLight : ∀ r ∈ braided, r.Light := by
  intro r mem
  simp only [braided, List.mem_cons, List.not_mem_nil, or_false] at mem
  rcases mem with rfl | rfl | rfl | rfl | rfl | rfl | rfl | rfl
  · exact @indexLight "f" [1] [1] rfl (by decide)
  · exact typeInfoLight (by decide +kernel)
  · exact symbolLight (by decide)
  · exact vtableLight (by decide +kernel)
  · exact typeInfoLight (by decide +kernel)
  · exact symbolLight (by decide)
  · exact @indexLight "f" [0] [0] rfl (by decide)
  · exact typeInfoLight (by decide +kernel)

theorem braidedAlike : ∃ file file' db db', fileOf braided = .ok file ∧
    fileOf unbraided = .ok file' ∧ Reordered braided unbraided ∧
    Database.ofFile file = .ok db ∧ Database.ofFile file' = .ok db' ∧ db.Alike db' := by
  have light' : ∀ r ∈ unbraided, r.Light := fun r mem =>
    braidedLight r (braidedReordered.perm.mem_iff.mpr mem)
  obtain ⟨file, written⟩ := lightWritten braidedLight
  obtain ⟨file', written'⟩ := lightWritten light'
  have indexed : (Contents.ofKinds braided).index = .ok _ :=
    Contents.entriesLoad.mpr ⟨by decide, rfl⟩
  have loaded := Database.recordsLoaded.mpr
    ⟨show Contents.NotBelow (Record.rows braided) by decide, _, indexed, rfl⟩
  rcases interleavingInvisible braidedReordered written written' with ⟨⟨e, fails⟩, _⟩ | alike
  · rw [Database.writtenLoads written, loaded] at fails
    cases fails
  · obtain ⟨db, db', ran, ran', alike⟩ := alike
    exact ⟨file, file', db, db', written, written', braidedReordered, ran, ran', alike⟩

end CxxSymbols.Store
