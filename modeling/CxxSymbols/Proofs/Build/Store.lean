import CxxSymbols.Proofs.Build.Inputs
import CxxSymbols.Proofs.Store.Capacity
import CxxSymbols.Proofs.Store.Load
import CxxSymbols.Proofs.Store.Omission
/-! A store that was built loads. The writer and the reader agree on the order of the rows, so the
places in the index are those of the rows that are loaded, and the index that is written is the one
that would be made from the keys. -/
namespace CxxSymbols.Build
open Search (Index)
open Store (Contents Database IndexEntry Record Reader SymbolRow)

/-! ### The order of the rows -/

/- In the order of the keys, where rows with equal keys stand as they stood before. -/
structure StablySorted (rows sorted : List SymbolRow) : Prop where
  perm : sorted.Perm rows
  ordered : sorted.Pairwise fun a b => a.key ≤ b.key
  stable : ∀ key, (sorted.filter fun row => row.key = key) = rows.filter fun row => row.key = key

theorem sortStable (rows : List SymbolRow) :
    StablySorted rows (rows.mergeSort fun a b => a.key ≤ b.key) := by
  have trans (a b c : SymbolRow) (first : decide (a.key ≤ b.key) = true)
      (second : decide (b.key ≤ c.key) = true) : decide (a.key ≤ c.key) = true :=
    decide_eq_true (String.le_trans (of_decide_eq_true first) (of_decide_eq_true second))
  have total (a b : SymbolRow) : (decide (a.key ≤ b.key) || decide (b.key ≤ a.key)) = true := by
    rw [Bool.or_eq_true, decide_eq_true_iff, decide_eq_true_iff]
    exact String.le_total a.key b.key
  have perm := List.mergeSort_perm rows fun a b => decide (a.key ≤ b.key)
  refine ⟨perm, (List.pairwise_mergeSort trans total rows).imp fun le => of_decide_eq_true le,
    fun key => ?_⟩
  have same : (rows.filter fun row => row.key = key).Pairwise
      fun a b => decide (a.key ≤ b.key) = true := by
    refine List.pairwise_of_forall_mem_list fun a memA b memB => ?_
    have keyA := of_decide_eq_true (List.mem_filter.mp memA).2
    have keyB := of_decide_eq_true (List.mem_filter.mp memB).2
    rw [keyA, keyB]
    exact decide_eq_true (String.le_refl key)
  have kept := (List.sublist_mergeSort trans total same List.filter_sublist).filter
    fun row => row.key = key
  simp only [List.filter_filter, Bool.and_self] at kept
  exact (kept.eq_of_length (perm.filter _).length_eq.symm).symm

namespace Draft
variable {d : Draft}

/-! ### The records of a store -/

theorem rowsNotBelow (d : Draft) : Contents.NotBelow d.sortedRows :=
  (sortStable d.rows.toList).ordered.imp fun le less => String.not_lt.mpr le less

theorem sortedSize (d : Draft) : d.sortedRows.length = d.rows.size :=
  (sortStable d.rows.toList).perm.length_eq.trans Array.length_toList

def indexEntries (d : Draft) : List IndexEntry :=
  d.index.toList.map fun e => indexEntry e.1 e.2

def recordsWith (d : Draft) (entries : List IndexEntry) : List Record :=
  d.sortedRows.map Record.symbol ++ d.typeInfos.toList.map (fun e => Record.typeInfo e.2) ++
    d.vtables.toList.map (fun e => Record.vtable e.2) ++ entries.map Record.index

theorem recordsWithIndex (d : Draft) : d.records = d.recordsWith d.indexEntries := by
  rw [records, recordsWith, indexEntries, List.map_map]
  rfl

theorem recordsWithoutIndex (d : Draft) :
    (d.records.filter fun r => r.messageType ≠ .index) = d.recordsWith [] := by
  have all {α : Type} {kind : α → Record} (other : ∀ a, (kind a).messageType ≠ .index)
      (as : List α) : (as.map kind).filter (fun r => r.messageType ≠ .index) = as.map kind := by
    refine List.filter_eq_self.mpr fun r mem => ?_
    obtain ⟨a, _, rfl⟩ := List.mem_map.mp mem
    exact decide_eq_true (other a)
  have none (entries : List IndexEntry) :
      (entries.map Record.index).filter (fun r => r.messageType ≠ .index) = [] := by
    refine List.filter_eq_nil_iff.mpr fun r mem => ?_
    obtain ⟨a, _, rfl⟩ := List.mem_map.mp mem
    simp [Record.messageType]
  rw [recordsWithIndex, recordsWith, List.filter_append, List.filter_append, List.filter_append,
    none, recordsWith, List.map_nil]
  congr 2
  · congr 1
    · exact all (by simp [Record.messageType]) d.sortedRows
    · exact all (by simp [Record.messageType]) d.typeInfos.toList
  · exact all (by simp [Record.messageType]) d.vtables.toList

theorem loadsRecords (keyed : d.Keyed) (few : d.rows.size < UInt32.size) {frames : List Store.Framed}
    {entries : List IndexEntry} {table : Array String} {bytes : ByteArray}
    (made : Reader.MadeOf bytes frames)
    (told : Reader.Told #[] frames (d.recordsWith entries) table)
    (index : entries = [] ∨ entries = d.indexEntries) :
    ∃ db, Database.ofFile bytes = .ok db ∧ db.symbols = d.sortedRows ∧
      db.contents.typeInfos = d.typeInfos ∧ db.contents.vtables = d.vtables ∧
      db.index = d.index := by
  obtain ⟨reader, opened, _, all⟩ := Reader.fileTold made told
  obtain ⟨derived, contents⟩ := Contents.ofStoreRecords entries d.rowsNotBelow keyed.typeInfos
    keyed.vtables
  let c : Contents := ⟨d.sortedRows.toArray, d.typeInfos, d.vtables, derived, entries.toArray⟩
  have fewRows : c.symbols.size ≤ UInt32.size := by
    rw [List.size_toArray, sortedSize]
    exact Nat.le_of_lt few
  have indexed : c.index = .ok d.index := Contents.indexOfBuild fewRows index
  refine ⟨⟨c, Store.placesFrom 0 ∅ c.symbols.toList, d.index⟩, ?_, rfl, rfl, rfl, rfl⟩
  have loaded : Contents.ofRecords (d.recordsWith entries) = .ok c := contents
  have database : Database.ofContents c =
      .ok ⟨c, Store.placesFrom 0 ∅ c.symbols.toList, d.index⟩ := by
    rw [Database.ofContents, indexed]
    rfl
  rw [Database.ofFile, opened]
  simp only [bind, Except.bind, all, loaded]
  exact database

/-! ### Stores of ordinary size -/

theorem entryLight {token : String} {places : List Nat} (ascends : Search.Ascending places)
    (few : places.length ≤ 0x1000) (small : ∀ place ∈ places, place < UInt32.size)
    (short : token.utf8ByteSize ≤ 0x1000) :
    Record.Light (.index ⟨token, places.map .ofNat⟩) := by
  have words : (places.map UInt32.ofNat).Pairwise (· < ·) := by
    refine List.pairwise_map.mpr (ascends.imp_of_mem fun memA memB less => ?_)
    rw [UInt32.lt_iff_toNat_lt, UInt32.toNat_ofNat_of_lt' (small _ memA),
      UInt32.toNat_ofNat_of_lt' (small _ memB)]
    exact less
  obtain ⟨deltas, distances, length⟩ := Store.IndexMessage.deltasOfAscending words
  rw [List.length_map] at length
  exact Store.indexLight distances (by omega)

theorem modestWritten (few : d.rows.size ≤ 0x1000)
    (rows : ∀ row ∈ d.rows.toList, Record.Light (.symbol row) ∧
      ∀ token ∈ Search.lowerTokens row.key, token.utf8ByteSize ≤ 0x1000)
    (infos : ∀ e ∈ d.typeInfos.toList, Record.Light (.typeInfo e.2))
    (tables : ∀ e ∈ d.vtables.toList, Record.Light (.vtable e.2)) :
    ∃ bytes, d.file = .ok bytes := by
  have perm := (sortStable d.rows.toList).perm
  refine Store.lightWritten fun r mem => ?_
  rw [recordsWithIndex, recordsWith] at mem
  rcases List.mem_append.mp mem with before | entry
  · rcases List.mem_append.mp before with before | table
    · rcases List.mem_append.mp before with symbol | info
      · obtain ⟨row, inside, rfl⟩ := List.mem_map.mp symbol
        exact (rows row (perm.mem_iff.mp inside)).1
      · obtain ⟨e, inside, rfl⟩ := List.mem_map.mp info
        exact infos e inside
    · obtain ⟨e, inside, rfl⟩ := List.mem_map.mp table
      exact tables e inside
  · obtain ⟨_, inside, rfl⟩ := List.mem_map.mp entry
    obtain ⟨e, listed, rfl⟩ := List.mem_map.mp inside
    have found : (Index.build (d.sortedRows.map SymbolRow.key)).postings[e.1]? = some e.2 :=
      Std.ExtTreeMap.mem_toList_iff_getElem?_eq_some.mp listed
    have places := Index.buildPostings found
    have count : (d.sortedRows.map SymbolRow.key).length = d.rows.size := by
      rw [List.length_map, sortedSize]
    have some : e.2.toList ≠ [] := by
      intro none
      have listed := Index.buildLists (d.sortedRows.map SymbolRow.key) e.1
      rw [found, ← places, none] at listed
      cases listed
    obtain ⟨place, held⟩ := List.exists_mem_of_ne_nil _ some
    rw [places] at held
    obtain ⟨key, at', token⟩ := Search.memHolding.mp held
    obtain ⟨row, sorted, rfl⟩ := List.mem_map.mp (List.mem_of_getElem? at')
    refine entryLight ?_ ?_ ?_ ((rows row (perm.mem_iff.mp sorted)).2 e.1 token)
    · rw [places]
      exact Search.holdingAscends _ _
    · have fewer := Search.holdingFewer (d.sortedRows.map SymbolRow.key) e.1
      rw [places]
      omega
    · intro place mem
      rw [places] at mem
      have below := Search.holdingBelow mem
      have word : 0x1000 < UInt32.size := by decide
      omega

end Draft

/- The file of a store that was built from any inputs loads. It has the rows in the order of the
keys, the maps of the draft, and the index of the keys; and so has the file that is left when the
messages of the index are taken out. -/
theorem builtStoreLoads {selection : Selection} {inputs : List Input} {bytes : ByteArray}
    (few : (Draft.ofInputs selection inputs).rows.size < UInt32.size)
    (written : (Draft.ofInputs selection inputs).file = .ok bytes) :
    ∃ db, Database.ofFile bytes = .ok db ∧
      StablySorted (Draft.ofInputs selection inputs).rows.toList db.symbols ∧
      db.contents.typeInfos = (Draft.ofInputs selection inputs).typeInfos ∧
      db.contents.vtables = (Draft.ofInputs selection inputs).vtables ∧
      db.index = Index.build (db.symbols.map SymbolRow.key) ∧
      ∃ frames, (∀ others, Reader.MadeOf bytes others ↔ others = frames) ∧
        ∃ bare, Database.ofFile (Reader.fileWith (Reader.withoutIndex frames)) = .ok bare ∧
          bare.symbols = db.symbols ∧ bare.index = db.index := by
  have keyed := Draft.ofInputsKeyed selection inputs
  generalize Draft.ofInputs selection inputs = d at few written keyed ⊢
  obtain ⟨frames, table, emitted⟩ := Store.Writer.fileEmitted written
  have made := emitted.toMadeOf
  have told := emitted.tells
  have toldBare := Reader.toldWithoutIndex told
  rw [d.recordsWithIndex] at told
  rw [d.recordsWithoutIndex] at toldBare
  obtain ⟨db, loaded, symbols, typeInfos, vtables, index⟩ :=
    Draft.loadsRecords keyed few made told (.inr rfl)
  obtain ⟨bare, loadedBare, symbolsBare, _, _, indexBare⟩ :=
    Draft.loadsRecords keyed few (Reader.madeWithoutIndex made) toldBare (.inl rfl)
  refine ⟨db, loaded, ?_, typeInfos, vtables, ?_, frames, fun others => ⟨fun other =>
    Reader.madeOfUnique other made, ?_⟩, bare, loadedBare, symbolsBare.trans symbols.symm,
      indexBare.trans index.symm⟩
  · rw [symbols]
    exact sortStable d.rows.toList
  · rw [index, symbols]
    rfl
  · rintro rfl
    exact made

def overloads : List Input :=
  [.publicSymbols [⟨"___Z1gv", 0x2000⟩, ⟨"___Z1fv", 0x1000⟩, ⟨"plain", 0x1800⟩],
    .publicSymbols [⟨"___Z1fv", 0x3000⟩]]

theorem overloadRows : (Draft.ofInputs {} overloads).rows.toList =
    [⟨"g() -> unknown", "___Z1gv", "", .function, .pdb, 0x2000⟩,
      ⟨"f() -> unknown", "___Z1fv", "", .function, .pdb, 0x1000⟩,
      ⟨"f() -> unknown", "___Z1fv", "", .function, .pdb, 0x3000⟩] := by
  decide +kernel

theorem overloadTokens : Search.lowerTokens "f() -> unknown" = ["f", "unknown"] ∧
    Search.lowerTokens "g() -> unknown" = ["g", "unknown"] := by
  decide +kernel

theorem overloadsWritten : ∃ bytes, (Draft.ofInputs {} overloads).file = .ok bytes := by
  have infos : (Draft.ofInputs {} overloads).typeInfos = ∅ :=
    (Draft.addPublicSymbolsMaps _ _).1.trans (Draft.addPublicSymbolsMaps _ _).1
  have tables : (Draft.ofInputs {} overloads).vtables = ∅ :=
    (Draft.addPublicSymbolsMaps _ _).2.trans (Draft.addPublicSymbolsMaps _ _).2
  refine Draft.modestWritten ?_ (fun row mem => ?_) ?_ ?_
  · rw [← Array.length_toList, overloadRows]
    decide
  · have tokens := overloadTokens
    rw [overloadRows] at mem
    simp only [List.mem_cons, List.not_mem_nil, or_false] at mem
    rcases mem with rfl | rfl | rfl
    · exact ⟨Store.symbolLight (by decide), by rw [tokens.2]; decide⟩
    · exact ⟨Store.symbolLight (by decide), by rw [tokens.1]; decide⟩
    · exact ⟨Store.symbolLight (by decide), by rw [tokens.1]; decide⟩
  · rw [infos]
    simp
  · rw [tables]
    simp

theorem overloadsLoad :
    ∃ bytes, (Draft.ofInputs {} overloads).rows.size < UInt32.size ∧
      (Draft.ofInputs {} overloads).file = .ok bytes ∧
      ∃ db, Database.ofFile bytes = .ok db ∧
        StablySorted (Draft.ofInputs {} overloads).rows.toList db.symbols := by
  obtain ⟨bytes, written⟩ := overloadsWritten
  have few : (Draft.ofInputs {} overloads).rows.size < UInt32.size := by
    rw [← Array.length_toList, overloadRows]
    decide
  obtain ⟨db, loaded, sorted, _⟩ := builtStoreLoads few written
  exact ⟨bytes, few, written, db, loaded, sorted⟩

end CxxSymbols.Build
