import CxxSymbols.Proofs.Store.Coherence
/-! What records come to when they are loaded, told for each kind of record by itself. Records of
one kind do not show where those of another kind stand between them: rows have to be in the order of
their keys, the last record of an address is the one that is found there, and bases add up. -/
namespace CxxSymbols

def Rtti.TypeInfo.Lists (info : Rtti.TypeInfo) (address : Address) : Prop :=
  ∃ base ∈ info.bases, base.address = address

namespace Store
open Rtti (Base TypeInfo VTable)
open Search (Index)

/-! ### Records of one kind -/

namespace Record

def row? : Record → Option SymbolRow
  | symbol row => some row
  | _ => none

def typeInfo? : Record → Option TypeInfo
  | typeInfo info => some info
  | _ => none

def vtable? : Record → Option VTable
  | vtable table => some table
  | _ => none

def entry? : Record → Option IndexEntry
  | index entry => some entry
  | _ => none

def rows (records : List Record) : List SymbolRow := records.filterMap row?

def typeInfos (records : List Record) : List TypeInfo := records.filterMap typeInfo?

def vtables (records : List Record) : List VTable := records.filterMap vtable?

def entries (records : List Record) : List IndexEntry := records.filterMap entry?

end Record

namespace Contents
variable {c c' : Contents}

def noteBases (edges : AddressMap (Std.ExtTreeSet Address)) (info : TypeInfo) :
    AddressMap (Std.ExtTreeSet Address) :=
  info.bases.foldl (noteBase info.address) edges

def taking (c : Contents) (records : List Record) : Contents where
  symbols := c.symbols ++ (Record.rows records).toArray
  typeInfos := (Record.typeInfos records).foldl (fun t info => t.insert info.address info) c.typeInfos
  vtables := (Record.vtables records).foldl (fun t table => t.insert table.address table) c.vtables
  derived := (Record.typeInfos records).foldl noteBases c.derived
  entries := c.entries ++ (Record.entries records).toArray

/- Records load where no row is below the one in front of it, whatever stands between them. -/
theorem addsApart {records : List Record} (ordered : NotBelow c.symbols.toList) :
    records.foldlM add c = .ok c' ↔
      NotBelow (c.symbols.toList ++ Record.rows records) ∧ c' = c.taking records := by
  induction records generalizing c with
  | nil =>
    have same : c.taking [] = c := by
      simp [taking, Record.rows, Record.typeInfos, Record.vtables, Record.entries]
    rw [same, Record.rows, List.filterMap_nil, List.append_nil]
    exact ⟨fun ran => ⟨ordered, (Except.ok.inj ran).symm⟩, fun made => congrArg _ made.2.symm⟩
  | cons record records ih =>
    rw [List.foldlM_cons]
    cases record with
    | symbol row =>
      have taken : { c with symbols := c.symbols.push row }.taking records =
          c.taking (.symbol row :: records) := by
        simp only [taking, pushAppend]
        rfl
      have onto : (c.symbols.push row).toList ++ Record.rows records =
          c.symbols.toList ++ Record.rows (.symbol row :: records) := by
        rw [Array.toList_push, List.append_assoc]
        rfl
      rw [← taken, ← onto]
      cases below : c.symbols.back?.any fun last => row.key < last.key with
      | true =>
        have refused : c.add (.symbol row) = .error .symbolsNotSorted := by rw [add, if_pos below]
        rw [refused]
        refine ⟨fun ran => (by cases ran), fun made => ?_⟩
        obtain ⟨last, back, less⟩ := (Option.any_eq_true _ _).mp below
        rw [← Array.getLast?_toList] at back
        rw [Array.toList_push, List.append_assoc] at made
        have above := (List.pairwise_append.mp made.1).2.2 last (List.mem_of_getLast? back) row
          (List.mem_append_left _ List.mem_cons_self)
        exact absurd (of_decide_eq_true less) above
      | false =>
        have added : c.add (.symbol row) = .ok { c with symbols := c.symbols.push row } := by
          rw [add, below]
          rfl
        rw [added]
        exact ih (addOrdered ordered added)
    | typeInfo info => exact ih (c := _) ordered
    | vtable table => exact ih (c := _) ordered
    | index entry =>
      have taken : { c with entries := c.entries.push entry }.taking records =
          c.taking (.index entry :: records) := by
        simp only [taking, pushAppend]
        rfl
      rw [← taken]
      exact ih (c := { c with entries := c.entries.push entry }) ordered

instance {rows : List SymbolRow} : Decidable (NotBelow rows) :=
  inferInstanceAs (Decidable (rows.Pairwise fun a b => ¬b.key < a.key))

def ofKinds (records : List Record) : Contents := ({} : Contents).taking records

theorem recordsLoad {records : List Record} :
    ofRecords records = .ok c ↔ NotBelow (Record.rows records) ∧ c = ofKinds records :=
  addsApart (c := {}) .nil

/-! ### What is found at an address -/

section Maps
variable {α : Type}

theorem lastStays (key : α → Address) (values : List α) (m : AddressMap α) (k : Address) :
    (values.foldl (fun t v => t.insert (key v) v) m)[k]? =
      ((values.filter fun v => key v = k).getLast?).or m[k]? := by
  induction values generalizing m with
  | nil => rfl
  | cons v values ih =>
    rw [List.foldl_cons, ih, Std.ExtTreeMap.getElem?_insert]
    by_cases same : key v = k
    · rw [if_pos (Std.compare_eq_iff_eq.mpr same), List.filter_cons_of_pos (by simpa using same),
        List.getLast?_cons]
      cases (values.filter fun v => key v = k).getLast? <;> rfl
    · rw [if_neg fun equal => same (Std.compare_eq_iff_eq.mp equal),
        List.filter_cons_of_neg (by simpa using same)]

end Maps

theorem typeInfoFound (records : List Record) (address : Address) :
    (ofKinds records).typeInfos[address]? =
      ((Record.typeInfos records).filter fun info => info.address = address).getLast? := by
  refine (lastStays TypeInfo.address _ _ _).trans ?_
  rw [Std.ExtTreeMap.getElem?_empty, Option.or_none]

theorem vtableFound (records : List Record) (address : Address) :
    (ofKinds records).vtables[address]? =
      ((Record.vtables records).filter fun table => table.address = address).getLast? := by
  refine (lastStays VTable.address _ _ _).trans ?_
  rw [Std.ExtTreeMap.getElem?_empty, Option.or_none]

/-! ### Bases -/

section Bases
variable {edges : AddressMap (Std.ExtTreeSet Address)} {a b : Address}

theorem memNoteBase {derived : Address} {base : Base} :
    a ∈ (noteBase derived edges base).getD b ∅ ↔
      a ∈ edges.getD b ∅ ∨ a = derived ∧ base.address = b := by
  rw [noteBase, Std.ExtTreeMap.getD_alter]
  by_cases same : base.address = b
  · subst same
    rw [if_pos Std.compare_self, Option.getD_some, Std.ExtTreeSet.mem_insert,
      Std.compare_eq_iff_eq, Std.ExtTreeMap.getD_eq_getD_getElem?]
    constructor
    · rintro (rfl | known)
      · exact .inr ⟨rfl, rfl⟩
      · exact .inl known
    · rintro (known | ⟨rfl, _⟩)
      · exact .inr known
      · exact .inl rfl
  · rw [if_neg fun equal => same (Std.compare_eq_iff_eq.mp equal)]
    exact ⟨.inl, fun either => either.resolve_right fun new => same new.2⟩

theorem memNoteBases {info : TypeInfo} :
    a ∈ (noteBases edges info).getD b ∅ ↔
      a ∈ edges.getD b ∅ ∨ a = info.address ∧ info.Lists b := by
  rw [noteBases, TypeInfo.Lists]
  induction info.bases generalizing edges with
  | nil => simp
  | cons base bases ih =>
    rw [List.foldl_cons, ih, memNoteBase, List.exists_mem_cons_iff, or_assoc, and_or_left]

theorem memDerived {infos : List TypeInfo} :
    a ∈ (infos.foldl noteBases edges).getD b ∅ ↔
      a ∈ edges.getD b ∅ ∨ ∃ info ∈ infos, info.address = a ∧ info.Lists b := by
  induction infos generalizing edges with
  | nil => simp
  | cons info infos ih =>
    rw [List.foldl_cons, ih, memNoteBases, List.exists_mem_cons_iff, or_assoc,
      eq_comm (a := a)]

end Bases

theorem derivedFound (records : List Record) (a b : Address) :
    a ∈ (ofKinds records).derived.getD b ∅ ↔
      ∃ info ∈ Record.typeInfos records, info.address = a ∧ info.Lists b := by
  refine memDerived.trans ⟨fun either => either.resolve_left fun mem => ?_, .inr⟩
  rw [Std.ExtTreeMap.getD_empty] at mem
  exact Std.ExtTreeSet.not_mem_empty mem

end Contents

/-! ### Databases -/

namespace Database
variable {db : Database}

theorem recordsLoaded {records : List Record} :
    ofRecords records = .ok db ↔ Contents.NotBelow (Record.rows records) ∧
      ∃ index, (Contents.ofKinds records).index = .ok index ∧
        db = ⟨Contents.ofKinds records,
          placesFrom 0 ∅ (Contents.ofKinds records).symbols.toList, index⟩ := by
  constructor
  · intro ran
    obtain ⟨c, read, ran⟩ := okSource ran
    obtain ⟨index, indexed, made⟩ := okSource ran
    obtain ⟨ordered, rfl⟩ := Contents.recordsLoad.mp read
    exact ⟨ordered, index, indexed, (Except.ok.inj made).symm⟩
  · rintro ⟨ordered, index, indexed, rfl⟩
    have read := Contents.recordsLoad.mpr ⟨ordered, rfl⟩
    have made : ofContents (Contents.ofKinds records) = .ok ⟨Contents.ofKinds records,
        placesFrom 0 ∅ (Contents.ofKinds records).symbols.toList, index⟩ := by
      rw [ofContents, indexed]
      rfl
    rw [ofRecords, read]
    exact made

theorem fileRecords {file : ByteArray} (ran : ofFile file = .ok db) :
    ∃ reader records, Reader.ofFile file = .ok reader ∧ reader.records = (records, none) ∧
      ofRecords records = .ok db := by
  obtain ⟨reader, opened, ran⟩ := okSource ran
  cases all : reader.records with
  | mk records stop =>
    rw [all] at ran
    obtain ⟨c, added, ran⟩ := okSource ran
    cases stop with
    | some e => cases ran
    | none =>
      refine ⟨reader, records, opened, all, ?_⟩
      rw [ofRecords, added]
      exact ran

theorem writtenReads {records : List Record} {file : ByteArray}
    (written : fileOf records = .ok file) :
    ∃ reader, Reader.ofFile file = .ok reader ∧ reader.records = (records, none) := by
  obtain ⟨frames, table, emitted⟩ := Writer.fileEmitted written
  obtain ⟨reader, opened, _, all⟩ := Reader.fileTold emitted.toMadeOf emitted.tells
  exact ⟨reader, opened, all⟩

theorem writtenLoads {records : List Record} {file : ByteArray}
    (written : fileOf records = .ok file) : ofFile file = ofRecords records := by
  obtain ⟨reader, opened, all⟩ := writtenReads written
  rw [ofFile, opened]
  simp only [bind, Except.bind, all]
  rfl

end Database
end Store
end CxxSymbols
