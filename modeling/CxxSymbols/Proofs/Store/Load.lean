import CxxSymbols.Proofs.Search.Insertion
import CxxSymbols.Store.Database
/-! What loading the records of a store comes to: rows in the order in which they stand, maps by
address, and an index, which is put together from its entries or made anew from the keys. -/
namespace CxxSymbols.Store
open Rtti (TypeInfo VTable)
open Search (Ascending Index Insertion Postings)

/-! ### Maps from their entries -/

section Maps
variable {κ α : Type} [Ord κ] [Std.TransOrd κ] [Std.LawfulEqOrd κ] [BEq κ] [LawfulBEq κ]

theorem mapOfEntries (m : Std.ExtTreeMap κ α) :
    (∅ : Std.ExtTreeMap κ α).insertMany m.toList = m := by
  apply Std.ExtTreeMap.ext_getElem?
  intro k
  cases held : m[k]? with
  | none =>
    have apart : (m.toList.map Prod.fst).contains k = false := by
      rw [List.contains_eq_any_beq, List.any_eq_false]
      intro k' mem same
      obtain ⟨e, inside, rfl⟩ := List.mem_map.mp mem
      have found : m[e.1]? = some e.2 := Std.ExtTreeMap.mem_toList_iff_getElem?_eq_some.mp inside
      rw [← eq_of_beq same, held] at found
      cases found
    rw [Std.ExtTreeMap.getElem?_insertMany_list_of_contains_eq_false apart]
    exact Std.ExtTreeMap.getElem?_empty
  | some v =>
    exact Std.ExtTreeMap.getElem?_insertMany_list_of_mem Std.compare_self
      Std.ExtTreeMap.distinct_keys_toList
      (Std.ExtTreeMap.mem_toList_iff_getElem?_eq_some.mpr held)

theorem mapOfValues {key : α → κ} (m : Std.ExtTreeMap κ α)
    (keyed : ∀ k v, m[k]? = some v → key v = k) :
    (m.toList.map Prod.snd).foldl (fun t v => t.insert (key v) v) ∅ = m := by
  have own : ∀ e ∈ m.toList, key e.2 = e.1 := fun e mem =>
    keyed e.1 e.2 (Std.ExtTreeMap.mem_toList_iff_getElem?_eq_some.mp mem)
  have step (t : Std.ExtTreeMap κ α) (entries : List (κ × α))
      (own : ∀ e ∈ entries, key e.2 = e.1) :
      (entries.map Prod.snd).foldl (fun t v => t.insert (key v) v) t = t.insertMany entries := by
    induction entries generalizing t with
    | nil => exact Std.ExtTreeMap.insertMany_nil.symm
    | cons e entries ih =>
      rw [List.map_cons, List.foldl_cons, own e List.mem_cons_self, ih _ fun e mem =>
        own e (List.mem_cons_of_mem _ mem), ← Std.ExtTreeMap.insertMany_cons]
  rw [step ∅ m.toList own, mapOfEntries]

end Maps

/-! ### Contents -/

namespace Contents

theorem pushAppend {α : Type} (xs : Array α) (y : α) (ys : List α) :
    xs.push y ++ ys.toArray = xs ++ (y :: ys).toArray := by
  simp

def NotBelow (rows : List SymbolRow) : Prop := rows.Pairwise fun a b => ¬b.key < a.key

theorem addRows {rows : List SymbolRow} (c : Contents)
    (ordered : NotBelow (c.symbols.toList ++ rows)) :
    (rows.map Record.symbol).foldlM add c =
      .ok { c with symbols := c.symbols ++ rows.toArray } := by
  induction rows generalizing c with
  | nil =>
    rw [Array.append_empty]
    rfl
  | cons row rows ih =>
    have after : (c.symbols.back?.any fun last => row.key < last.key) = false := by
      cases back : c.symbols.back? with
      | none => rfl
      | some last =>
        have mem : last ∈ c.symbols.toList := by
          rw [← Array.getLast?_toList] at back
          exact List.mem_of_getLast? back
        have above := (List.pairwise_append.mp ordered).2.2 last mem row List.mem_cons_self
        exact decide_eq_false above
    have added : add c (.symbol row) = .ok { c with symbols := c.symbols.push row } := by
      rw [add, after]
      rfl
    rw [List.map_cons, List.foldlM_cons, added]
    refine (ih { c with symbols := c.symbols.push row } ?_).trans ?_
    · rw [Array.toList_push, List.append_assoc]
      exact ordered
    · rw [pushAppend]

theorem addTypeInfos (infos : List TypeInfo) (c : Contents) :
    ∃ derived, (infos.map Record.typeInfo).foldlM add c =
      .ok { c with
        derived
        typeInfos := infos.foldl (fun t info => t.insert info.address info) c.typeInfos } := by
  induction infos generalizing c with
  | nil => exact ⟨c.derived, rfl⟩
  | cons info infos ih =>
    obtain ⟨derived, rest⟩ := ih { c with
      derived := info.bases.foldl (noteBase info.address) c.derived
      typeInfos := c.typeInfos.insert info.address info }
    exact ⟨derived, rest⟩

theorem addVTables (tables : List VTable) (c : Contents) :
    (tables.map Record.vtable).foldlM add c = .ok { c with
      vtables := tables.foldl (fun t table => t.insert table.address table) c.vtables } := by
  induction tables generalizing c with
  | nil => rfl
  | cons table tables ih =>
    exact ih { c with vtables := c.vtables.insert table.address table }

theorem addEntries (entries : List IndexEntry) (c : Contents) :
    (entries.map Record.index).foldlM add c =
      .ok { c with entries := c.entries ++ entries.toArray } := by
  induction entries generalizing c with
  | nil =>
    rw [Array.append_empty]
    rfl
  | cons entry entries ih =>
    refine (ih { c with entries := c.entries.push entry }).trans ?_
    rw [pushAppend]

theorem ofStoreRecords {rows : List SymbolRow} {infos : AddressMap TypeInfo}
    {tables : AddressMap VTable} (entries : List IndexEntry) (ordered : NotBelow rows)
    (infosKeyed : ∀ (a : Address) (info : TypeInfo), infos[a]? = some info → info.address = a)
    (tablesKeyed : ∀ (a : Address) (table : VTable), tables[a]? = some table → table.address = a) :
    ∃ derived, ofRecords (rows.map Record.symbol ++
      infos.toList.map (fun e => Record.typeInfo e.2) ++
        tables.toList.map (fun e => Record.vtable e.2) ++ entries.map Record.index) =
          .ok ⟨rows.toArray, infos, tables, derived, entries.toArray⟩ := by
  have first := @addRows rows {} ordered
  obtain ⟨derived, second⟩ := addTypeInfos (infos.toList.map Prod.snd) { symbols := rows.toArray }
  have third := addVTables (tables.toList.map Prod.snd) ⟨rows.toArray, infos, ∅, derived, #[]⟩
  have fourth := addEntries entries ⟨rows.toArray, infos, tables, derived, #[]⟩
  rw [mapOfValues infos infosKeyed] at second
  rw [mapOfValues tables tablesKeyed] at third
  rw [List.map_map] at second third
  refine ⟨derived, ?_⟩
  rw [ofRecords, List.foldlM_append, List.foldlM_append, List.foldlM_append, first]
  simp only [Array.empty_append]
  refine (congrArg (fun r => r >>= _ >>= _) second).trans ?_
  refine (congrArg (fun r => r >>= _) third).trans ?_
  refine fourth.trans ?_
  rw [Array.empty_append]

/-! ### The index -/

def insertion (entry : IndexEntry) : Insertion := (entry.token, entry.ordinals.map UInt32.toNat)

def addEntry (index : Index) (entry : IndexEntry) : Index :=
  index.insert entry.token (entry.ordinals.map UInt32.toNat)

def Within (count : Nat) (entry : IndexEntry) : Prop :=
  ∀ ordinal ∈ entry.ordinals, ordinal.toNat < count

instance {count : Nat} {entry : IndexEntry} : Decidable (Within count entry) :=
  List.decidableBAll (fun ordinal : UInt32 => ordinal.toNat < count) entry.ordinals

theorem entriesLoad {count : Nat} {entries : List IndexEntry} {index index' : Index} :
    entries.foldlM (insertEntry count) index = .ok index' ↔
      (∀ entry ∈ entries, Within count entry) ∧ index' = entries.foldl addEntry index := by
  induction entries generalizing index with
  | nil =>
    exact ⟨fun ran => ⟨by simp, (Except.ok.inj ran).symm⟩, fun made => congrArg _ made.2.symm⟩
  | cons entry entries ih =>
    rw [List.foldlM_cons, List.forall_mem_cons, List.foldl_cons, and_assoc, ← ih, insertEntry]
    split
    · rename_i ordinal found
      have outside : count ≤ ordinal.toNat := by simpa using List.find?_some found
      refine ⟨fun ran => (by cases ran), fun made => ?_⟩
      have inside := made.1 ordinal (List.mem_of_find?_eq_some found)
      omega
    · rename_i none
      have within : Within count entry := fun ordinal mem => by
        simpa using List.find?_eq_none.mp none ordinal mem
      exact ⟨fun ran => ⟨within, ran⟩, fun made => made.2⟩

theorem addEntriesAll (entries : List IndexEntry) (index : Index) :
    entries.foldl addEntry index = index.insertAll (entries.map insertion) := by
  rw [Index.insertAll, List.foldl_map]
  rfl

def IndexOver (count : Nat) (index : Index) : Prop :=
  ∀ (token : String) (places : Postings), index.postings[token]? = some places →
    Ascending places.toList ∧ ∀ place ∈ places.toList, place < count

theorem wordsOfPlaces {places : List Nat} (small : ∀ place ∈ places, place < UInt32.size) :
    (places.map UInt32.ofNat).map UInt32.toNat = places := by
  rw [List.map_map]
  refine (List.map_congr_left fun place mem => ?_).trans (List.map_id _)
  exact UInt32.toNat_ofNat_of_lt' (small place mem)

theorem indexOfEntries {count : Nat} {index : Index} (few : count ≤ UInt32.size)
    (sound : IndexOver count index) :
    (index.toList.map fun e => (⟨e.1, e.2.toList.map .ofNat⟩ : IndexEntry)).foldlM
      (insertEntry count) Index.empty = .ok index := by
  have ascends : index.Ascends := fun token places found => (sound token places found).1
  have below : ∀ e ∈ index.toList, ∀ place ∈ e.2.toList, place < count := fun e mem =>
    (sound e.1 e.2 (Std.ExtTreeMap.mem_toList_iff_getElem?_eq_some.mp mem)).2
  have words : ∀ e ∈ index.toList,
      (e.2.toList.map UInt32.ofNat).map UInt32.toNat = e.2.toList := fun e mem =>
    wordsOfPlaces fun place inside => Nat.lt_of_lt_of_le (below e mem place inside) few
  refine entriesLoad.mpr ⟨fun entry mem => ?_, ?_⟩
  · obtain ⟨e, inside, rfl⟩ := List.mem_map.mp mem
    intro ordinal written
    refine below e inside _ ?_
    rw [← words e inside]
    exact List.mem_map_of_mem written
  · have calls : (index.toList.map fun e => (⟨e.1, e.2.toList.map .ofNat⟩ : IndexEntry)).map
        insertion = index.entries := by
      rw [List.map_map]
      exact List.map_congr_left fun e mem => congrArg (Prod.mk e.1) (words e mem)
    rw [addEntriesAll, calls, Index.entriesInserted ascends]

theorem buildIndexOver (keys : List String) : IndexOver keys.length (Index.build keys) := by
  intro token places found
  rw [Index.buildPostings found]
  exact ⟨Search.holdingAscends keys token, fun place mem => Search.holdingBelow mem⟩

theorem indexOfBuild {c : Contents} (few : c.symbols.size ≤ UInt32.size)
    (entries : c.entries.toList = [] ∨ c.entries.toList =
      (Index.build (c.symbols.toList.map SymbolRow.key)).toList.map fun e =>
        ⟨e.1, e.2.toList.map .ofNat⟩) :
    c.index = .ok (Index.build (c.symbols.toList.map SymbolRow.key)) := by
  rw [index]
  split
  · rfl
  · rename_i some
    rcases entries with none | all
    · exact absurd (by simpa using none) some
    · rw [all]
      have sound := buildIndexOver (c.symbols.toList.map SymbolRow.key)
      rw [List.length_map, Array.length_toList] at sound
      exact indexOfEntries few sound

end Contents
end CxxSymbols.Store
