import CxxSymbols.Proofs.Store.Capacity
import CxxSymbols.Proofs.Search.Query
import CxxSymbols.Proofs.Store.Load
import CxxSymbols.Proofs.Text.Order
/-! Stores that load, whoever wrote them. The records of a file may stand in any order and say
anything; what is loaded of them has its rows in the order of their keys, an index whose places are
all those of rows, and loses nothing where it goes from places to rows. -/
namespace CxxSymbols.Store
open Search (Ascending Index)

def InKeyOrder (rows : List SymbolRow) : Prop :=
  rows.Pairwise fun a b => Text.encode a.key ≤ Text.encode b.key

theorem inKeyOrder {rows : List SymbolRow} (ordered : Contents.NotBelow rows) : InKeyOrder rows :=
  ordered.imp fun notBelow bytes => notBelow (Text.encodeOrdered.mp bytes)

section Steps
variable {ε σ α β : Type}

theorem okSource {x : Except ε α} {f : α → Except ε β} {b : β} (ran : x >>= f = .ok b) :
    ∃ a, x = .ok a ∧ f a = .ok b := by
  cases x with
  | error e => cases ran
  | ok a => exact ⟨a, rfl, ran⟩

theorem foldOkKeeps {P : σ → Prop} {step : σ → α → Except ε σ}
    (each : ∀ {s a s'}, P s → step s a = .ok s' → P s') {as : List α} {s s' : σ} (kept : P s)
    (ran : as.foldlM step s = .ok s') : P s' := by
  induction as generalizing s with
  | nil =>
    cases ran
    exact kept
  | cons a as ih =>
    rw [List.foldlM_cons] at ran
    obtain ⟨between, first, others⟩ := okSource ran
    exact ih (each kept first) others

end Steps

namespace Contents
variable {c c' : Contents}

/-! ### Rows -/

theorem addOrdered {record : Record} (ordered : NotBelow c.symbols.toList)
    (added : c.add record = .ok c') : NotBelow c'.symbols.toList := by
  cases record with
  | symbol row =>
    simp only [add] at added
    split at added
    · cases added
    · rename_i above
      cases added
      rw [Array.toList_push]
      refine List.pairwise_append.mpr
        ⟨ordered, List.pairwise_singleton _ row, fun first mem _ new => ?_⟩
      cases List.mem_singleton.mp new
      obtain ⟨front, last, shape⟩ : ∃ front last, c.symbols.toList = front ++ [last] :=
        ⟨_, _, (List.dropLast_concat_getLast (List.ne_nil_of_mem mem)).symm⟩
      have back : c.symbols.back? = some last := by
        rw [← Array.getLast?_toList, shape, List.getLast?_concat]
      have aboveLast : ¬row.key < last.key := by simpa [back] using above
      rw [shape] at mem ordered
      rcases List.mem_append.mp mem with earlier | same
      · have upTo := (List.pairwise_append.mp ordered).2.2 first earlier last List.mem_cons_self
        exact String.not_lt.mpr
          (String.le_trans (String.not_lt.mp upTo) (String.not_lt.mp aboveLast))
      · cases List.mem_singleton.mp same
        exact aboveLast
  | typeInfo info =>
    cases added
    exact ordered
  | vtable table =>
    cases added
    exact ordered
  | index entry =>
    cases added
    exact ordered

theorem recordsOrdered {records : List Record} (read : ofRecords records = .ok c) :
    NotBelow c.symbols.toList := by
  have none : NotBelow ({} : Contents).symbols.toList := .nil
  exact foldOkKeeps (P := fun c => NotBelow c.symbols.toList) addOrdered none read

/-! ### The index -/

theorem insertEntryOver {count : Nat} {index index' : Index} {entry : IndexEntry}
    (sound : IndexOver count index) (inserted : insertEntry count index entry = .ok index') :
    IndexOver count index' := by
  simp only [insertEntry] at inserted
  split at inserted
  · cases inserted
  · rename_i within
    cases inserted
    intro token places found
    rw [Index.insertAtToken] at found
    split at found
    · rename_i same
      subst same
      cases found
      refine ⟨Search.sortUniqueAscends _, fun place mem => ?_⟩
      rcases List.mem_append.mp (Search.memSortUnique.mp mem) with known | new
      · cases held : index.postings[entry.token]? with
        | none =>
          rw [held] at known
          cases known
        | some old =>
          rw [held] at known
          exact (sound _ _ held).2 place known
      · obtain ⟨ordinal, inside, rfl⟩ := List.mem_map.mp new
        have below := List.find?_eq_none.mp within ordinal inside
        simpa using below
    · exact sound token places found

theorem indexOverRows {index : Index} (indexed : c.index = .ok index) :
    IndexOver c.symbols.size index := by
  rw [Contents.index] at indexed
  split at indexed
  · cases indexed
    have sound := buildIndexOver (c.symbols.toList.map SymbolRow.key)
    rwa [List.length_map, Array.length_toList] at sound
  · have none : IndexOver c.symbols.size Index.empty := fun token _ found => by
      cases Std.ExtTreeMap.getElem?_empty.symm.trans found
    exact foldOkKeeps insertEntryOver none indexed

end Contents

/-! ### Rows by their addresses -/

theorem placesFromFound (rows : List SymbolRow) (place : Nat) (places : AddressMap (Array Nat))
    (address : Address) :
    ((placesFrom place places rows).getD address #[]).toList =
      (places.getD address #[]).toList ++
        ((rows.zipIdx place).filter fun e => e.1.address = address).map Prod.snd := by
  induction rows generalizing place places with
  | nil => rw [placesFrom, List.zipIdx_nil, List.filter_nil, List.map_nil, List.append_nil]
  | cons row rows ih =>
    rw [placesFrom, ih, Std.ExtTreeMap.getD_alter, List.zipIdx_cons]
    by_cases same : row.address = address
    · have here : compare row.address address = .eq := Std.compare_eq_iff_eq.mpr same
      rw [if_pos here, List.filter_cons_of_pos (by simpa using same), same,
        Std.ExtTreeMap.getD_eq_getD_getElem?]
      simp
    · have apart : ¬compare row.address address = .eq := fun equal =>
        same (Std.compare_eq_iff_eq.mp equal)
      rw [if_neg apart, List.filter_cons_of_neg (by simpa using same)]

theorem rowsAtPlaces {α : Type} {rows : List α} {placed : List (α × Nat)}
    (known : ∀ e ∈ placed, rows[e.2]? = some e.1) :
    (placed.map Prod.snd).filterMap (fun place => rows[place]?) = placed.map Prod.fst := by
  induction placed with
  | nil => rfl
  | cons e placed ih =>
    obtain ⟨here, later⟩ := List.forall_mem_cons.mp known
    rw [List.map_cons, List.filterMap_cons, here, List.map_cons, ih later]

namespace Database
variable {db : Database}

theorem rowsAtListed (db : Database) (places : List Nat) :
    db.rowsAt places = places.filterMap fun place => db.symbols[place]? := by
  simp only [rowsAt, symbols, Array.getElem?_toList]

structure Loaded (db : Database) : Prop where
  ordered : Contents.NotBelow db.symbols
  index : Contents.IndexOver db.symbols.length db.index
  places : db.byAddress = placesFrom 0 ∅ db.symbols

theorem loadedOfFile {file : ByteArray} (ran : ofFile file = .ok db) : db.Loaded := by
  rw [ofFile] at ran
  obtain ⟨reader, opened, ran⟩ := okSource ran
  obtain ⟨c, added, ran⟩ := okSource ran
  split at ran
  · cases ran
  · rw [ofContents] at ran
    obtain ⟨index, indexed, made⟩ := okSource ran
    cases made
    refine ⟨Contents.recordsOrdered added, ?_, rfl⟩
    have sound := Contents.indexOverRows indexed
    rwa [← Array.length_toList] at sound

theorem symbolsAtFiltered (loaded : db.Loaded) (address : Address) :
    db.symbolsAt address = db.symbols.filter fun row => row.address = address := by
  have found := placesFromFound db.symbols 0 ∅ address
  rw [Std.ExtTreeMap.getD_empty] at found
  rw [symbolsAt, loaded.places, rowsAtListed, found, List.nil_append, rowsAtPlaces]
  · have all : (db.symbols.zipIdx).map Prod.fst = db.symbols := List.zipIdx_map_fst 0 _
    rw [← all, List.filter_map, all]
    rfl
  · intro e mem
    have placed : (e.1, e.2) ∈ db.symbols.zipIdx := List.mem_of_mem_filter mem
    exact List.mk_mem_zipIdx_iff_getElem?.mp placed

theorem rowsAtKnown {places : List Nat} (within : ∀ place ∈ places, place < db.symbols.length) :
    (db.rowsAt places).map some = places.map fun place => db.symbols[place]? := by
  rw [rowsAtListed]
  induction places with
  | nil => rfl
  | cons place places ih =>
    obtain ⟨here, later⟩ := List.forall_mem_cons.mp within
    rw [List.filterMap_cons, List.getElem?_eq_getElem here, List.map_cons, ih later, List.map_cons,
      List.getElem?_eq_getElem here]

theorem rowsAtOrdered (loaded : db.Loaded) {places : List Nat} (ascends : Ascending places) :
    Contents.NotBelow (db.rowsAt places) := by
  rw [rowsAtListed]
  refine ascends.filterMap _ fun i j less a first b second => ?_
  obtain ⟨_, rfl⟩ := List.getElem?_eq_some_iff.mp first
  obtain ⟨_, rfl⟩ := List.getElem?_eq_some_iff.mp second
  exact List.pairwise_iff_getElem.mp loaded.ordered i j _ _ less

theorem queryWithin (loaded : db.Loaded) {text : String} {place : Nat}
    (found : place ∈ db.index.query text) : place < db.symbols.length := by
  obtain ⟨some, all⟩ := Index.memQuery.mp found
  obtain ⟨token, mem⟩ := List.exists_mem_of_ne_nil _ some
  obtain ⟨_, places, held, _, inside⟩ := Index.memMatching.mp (all token mem)
  exact (loaded.index _ places held).2 place inside

end Database

/- A file that loads, whatever is in it, gives its rows in the order of their keys and an index whose
places ascend, each of them that of a row. The rows at an address are those with that address, each
once and in order, and a search comes to one row for each place that the index finds, in order. -/
theorem loadedStoreCoherent {file : ByteArray} {db : Database}
    (ran : Database.ofFile file = .ok db) :
    InKeyOrder db.symbols ∧ Contents.IndexOver db.symbols.length db.index ∧
      (∀ address, InKeyOrder (db.symbolsAt address) ∧
        db.symbolsAt address = db.symbols.filter fun row => row.address = address) ∧
      ∀ text, InKeyOrder (db.search text) ∧
        (db.search text).length = (db.index.query text).length ∧
        (db.search text).map some = (db.index.query text).map fun place => db.symbols[place]? := by
  have loaded := Database.loadedOfFile ran
  refine ⟨inKeyOrder loaded.ordered, loaded.index, fun address => ?_, fun text => ?_⟩
  · have filtered := Database.symbolsAtFiltered loaded address
    refine ⟨inKeyOrder ?_, filtered⟩
    rw [filtered]
    exact loaded.ordered.filter _
  · have known : (db.search text).map some =
        (db.index.query text).map fun place => db.symbols[place]? :=
      Database.rowsAtKnown fun _ => Database.queryWithin loaded
    refine ⟨inKeyOrder (Database.rowsAtOrdered loaded (db.index.queryAscends text)), ?_, known⟩
    have lengths := congrArg List.length known
    rwa [List.length_map, List.length_map] at lengths

def scattered : List Record :=
  [.index ⟨"f", [1]⟩, .symbol ⟨"f()", "_Z1fv", "f()", .function, .elf, 0x1000⟩,
    .symbol ⟨"f() const", "_ZNK1fv", "", .function, .elf, 0x1000⟩, .index ⟨"f", [0, 1]⟩]

theorem scatteredLight : ∀ r ∈ scattered, r.Light := by
  intro r mem
  simp only [scattered, List.mem_cons, List.not_mem_nil, or_false] at mem
  rcases mem with rfl | rfl | rfl | rfl
  · exact @indexLight "f" [1] [1] rfl (by decide)
  · exact symbolLight (by decide)
  · exact symbolLight (by decide)
  · exact @indexLight "f" [0, 1] [0, 1] rfl (by decide)

theorem scatteredCoherent : ∃ bytes db, Database.ofFile bytes = .ok db ∧
    db.symbols.map SymbolRow.key = ["f()", "f() const"] ∧ (db.symbolsAt 0x1000).length = 2 ∧
    (db.search "f").length = (db.index.query "f").length := by
  obtain ⟨bytes, written⟩ := lightWritten scatteredLight
  obtain ⟨frames, table, emitted⟩ := Writer.fileEmitted written
  obtain ⟨reader, opened, _, all⟩ := Reader.fileTold emitted.toMadeOf emitted.tells
  have loads : ∃ db, Database.ofFile bytes = .ok db ∧
      db.symbols = [⟨"f()", "_Z1fv", "f()", .function, .elf, 0x1000⟩,
        ⟨"f() const", "_ZNK1fv", "", .function, .elf, 0x1000⟩] := by
    rw [Database.ofFile, opened]
    simp only [bind, Except.bind, all]
    exact ⟨_, rfl, rfl⟩
  obtain ⟨db, ran, symbols⟩ := loads
  obtain ⟨_, _, places, searches⟩ := loadedStoreCoherent ran
  refine ⟨bytes, db, ran, by rw [symbols]; rfl, ?_, (searches "f").2.1⟩
  rw [(places 0x1000).2, symbols]
  rfl

end CxxSymbols.Store
