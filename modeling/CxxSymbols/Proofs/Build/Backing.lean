import CxxSymbols.Proofs.Build.Rows
/-! Records and the symbols that they stand for. A record is at the address of a row of an image
whose key is that of such a record. The other way round, a row of an image that is to have a record
has one, unless the record could not be read. A symbol that was left out never brings a record, nor
does one of a program database. -/
namespace CxxSymbols.Build
open Image (DynamicSymbol Elf PublicSymbol)
open Rtti (Classification TypeInfo VTable View)
open Store (AddressMap SymbolRow)

/-! ### Addresses of records -/

theorem memFilled {β : Type} {address : β → Address} {put : AddressMap β → β → AddressMap β}
    (each : ∀ map record a, a ∈ put map record ↔ address record = a ∨ a ∈ map)
    (records : List β) (map : AddressMap β) (a : Address) :
    a ∈ records.foldl put map ↔ (∃ record ∈ records, address record = a) ∨ a ∈ map := by
  induction records generalizing map with
  | nil => simp
  | cons record records ih => simp [ih, each, or_assoc, or_left_comm]

theorem memWithTables (map : AddressMap VTable) (tables : List VTable) (a : Address) :
    a ∈ withTables map tables ↔ (∃ table ∈ tables, table.address = a) ∨ a ∈ map :=
  memFilled (fun map table a => by
    rw [Std.ExtTreeMap.mem_insert, Std.compare_eq_iff_eq]) tables map a

theorem memWithInfos (map : AddressMap TypeInfo) (infos : List TypeInfo) (a : Address) :
    a ∈ withInfos map infos ↔ (∃ info ∈ infos, info.address = a) ∨ a ∈ map :=
  memFilled (fun map info a => by
    rw [Std.ExtTreeMap.mem_insertIfNew, Std.compare_eq_iff_eq]) infos map a

theorem memFound {β : Type} {address : β → Address} {find : SymbolRow → Option β}
    {rows : List SymbolRow} {a : Address} :
    (∃ record ∈ rows.filterMap find, address record = a) ↔
      ∃ row ∈ rows, ∃ record, find row = some record ∧ address record = a := by
  constructor
  · rintro ⟨record, mem, here⟩
    obtain ⟨row, inside, found⟩ := List.mem_filterMap.mp mem
    exact ⟨row, inside, record, found, here⟩
  · rintro ⟨row, inside, record, found, here⟩
    exact ⟨record, List.mem_filterMap.mpr ⟨row, inside, found⟩, here⟩

/-! ### Readings -/

theorem vtableRefused {v : View} {address : Address} {pending : Std.ExtTreeSet Address}
    {e : Rtti.RttiError} (refused : VTable.read v address pending = .error e) :
    v.readWord address.toNat = .error e ∨
      v.readWord (address.toNat + v.width.bytes) = .error e := by
  unfold VTable.read at refused
  cases first : v.readWord address.toNat with
  | error e =>
    rw [first] at refused
    cases refused
    exact .inl rfl
  | ok _ =>
    cases second : v.readWord (address.toNat + v.width.bytes) with
    | error e =>
      rw [first, second] at refused
      cases refused
      exact .inr rfl
    | ok _ =>
      rw [first, second] at refused
      cases refused

/- A row of an image that stands for a record at this address. The mark is how the keys of such
rows end. -/
structure Backs (row : SymbolRow) (address : Address) (mark : String) : Prop where
  address : row.address = address
  origin : row.origin = .elf
  kind : row.kind = .special
  marked : mark.toList <:+ row.key.toList

def tableMark : String := "::$vtable"

def infoMark : String := " <- $type_info"

theorem toOptionOk {ε α : Type} {x : Except ε α} {a : α} (found : x.toOption = some a) :
    x = .ok a := by
  cases x with
  | error _ => cases found
  | ok _ =>
    cases found
    rfl

structure Finds.Backed (finds : Finds) (rows : List SymbolRow) : Prop where
  tables : ∀ row ∈ rows, ∀ table, finds.table? row = some table →
    Backs row table.address tableMark
  infos : ∀ row ∈ rows, ∀ info, finds.info? row = some info → Backs row info.address infoMark

theorem inImageBacked (v : View) (classes : Classification) (s : Selection)
    (symbols : List DynamicSymbol) :
    (Finds.inImage v classes).Backed ((symbols.map Met.ofDynamic).filterMap s.row?) := by
  have rowOf {row : SymbolRow} (mem : row ∈ (symbols.map Met.ofDynamic).filterMap s.row?) :
      row.origin = .elf ∧ ∃ root, Mangled.decode row.raw = .ok root ∧ row.key = root.key ∧
        row.kind = root.kind := by
    obtain ⟨m, met, made⟩ := List.mem_filterMap.mp mem
    obtain ⟨symbol, _, rfl⟩ := List.mem_map.mp met
    obtain ⟨same, denotes⟩ := Selection.rowMade made
    exact ⟨congrArg Met.origin same, denotes⟩
  refine ⟨fun row mem table found => ?_, fun row mem info found => ?_⟩
  · obtain ⟨origin, root, decoded, key, kind⟩ := rowOf mem
    simp only [Finds.inImage, decoded] at found
    split at found
    · rename_i type same
      cases same
      refine ⟨(Draft.vtableAddress (toOptionOk found)).symm, origin, kind, ?_⟩
      rw [key]
      exact String.toList_append ▸ List.suffix_append _ _
    · cases found
  · obtain ⟨origin, root, decoded, key, kind⟩ := rowOf mem
    simp only [Finds.inImage, decoded] at found
    split at found
    · rename_i type same
      cases same
      obtain ⟨_, _, found⟩ := Option.bind_eq_some_iff.mp found
      refine ⟨(Draft.typeInfoAddress (toOptionOk found)).symm, origin, kind, ?_⟩
      rw [key]
      exact String.toList_append ▸ List.suffix_append _ _
    · cases found

/- Where an image has a row for a table, there is a table, or one of the two words in front of it
cannot be read; and where it has one for type information, there is some, or the address is not that
of a known kind, or it cannot be read. -/
structure Answered (v : View) (classes : Classification) (rows : List SymbolRow) (d : Draft) :
    Prop where
  tables : ∀ row ∈ rows, ∀ type, Mangled.decode row.raw = .ok (.special .vtable type) →
    row.address ∈ d.vtables ∨ ∃ e, v.readWord row.address.toNat = .error e ∨
      v.readWord (row.address.toNat + v.width.bytes) = .error e
  infos : ∀ row ∈ rows, ∀ type, Mangled.decode row.raw = .ok (.special .typeInfo type) →
    row.address ∈ d.typeInfos ∨ classes.kinds[row.address]? = none ∨
      ∃ kind e, classes.kinds[row.address]? = some kind ∧
        TypeInfo.read v row.address kind = .error e

namespace Draft
variable {finds : Finds} {met : List Met} {d d' : Draft}

/-! ### What a step keeps -/

structure Backed (d : Draft) : Prop where
  vtables : ∀ a ∈ d.vtables, ∃ row ∈ d.rows.toList, Backs row a tableMark
  typeInfos : ∀ a ∈ d.typeInfos, ∃ row ∈ d.rows.toList, Backs row a infoMark

theorem memVTables (took : Took finds met d d') (a : Address) :
    a ∈ d'.vtables ↔ (∃ row ∈ met.filterMap d.selection.row?, ∃ table,
      finds.table? row = some table ∧ table.address = a) ∨ a ∈ d.vtables := by
  rw [took.vtables, memWithTables, memFound]

theorem memTypeInfos (took : Took finds met d d') (a : Address) :
    a ∈ d'.typeInfos ↔ (∃ row ∈ met.filterMap d.selection.row?, ∃ info,
      finds.info? row = some info ∧ info.address = a) ∨ a ∈ d.typeInfos := by
  rw [took.typeInfos, memWithInfos, memFound]

theorem tookBacked (took : Took finds met d d')
    (found : finds.Backed (met.filterMap d.selection.row?)) (backed : d.Backed) : d'.Backed := by
  have rows := took.rows
  refine ⟨fun a mem => ?_, fun a mem => ?_⟩
  · rcases (memVTables took a).mp mem with ⟨row, staged, table, read, rfl⟩ | before
    · exact ⟨row, rows ▸ List.mem_append_right _ staged, found.tables row staged table read⟩
    · obtain ⟨row, staged, backs⟩ := backed.vtables a before
      exact ⟨row, rows ▸ List.mem_append_left _ staged, backs⟩
  · rcases (memTypeInfos took a).mp mem with ⟨row, staged, info, read, rfl⟩ | before
    · exact ⟨row, rows ▸ List.mem_append_right _ staged, found.infos row staged info read⟩
    · obtain ⟨row, staged, backs⟩ := backed.typeInfos a before
      exact ⟨row, rows ▸ List.mem_append_left _ staged, backs⟩

theorem addedTook {input : Input} (added : Added d input d') : ∃ finds met,
    Took finds met d d' ∧ finds.Backed (met.filterMap d.selection.row?) := by
  have nothing (rows : List SymbolRow) : ({} : Finds).Backed rows :=
    ⟨fun _ _ _ found => (nomatch found), fun _ _ _ found => (nomatch found)⟩
  cases added with
  | refused _ took => exact ⟨_, _, took, nothing _⟩
  | image _ _ took => exact ⟨_, _, took, inImageBacked _ _ _ _⟩
  | publicSymbols took => exact ⟨_, _, took, nothing _⟩

theorem addingBacked (d : Draft) (input : Input) (backed : d.Backed) :
    (d.adding input).Backed := by
  obtain ⟨_, _, took, found⟩ := addedTook (addingAdded d input)
  exact tookBacked took found backed

theorem addingKeeps (inputs : List Input) (d : Draft) (a : Address) :
    (a ∈ d.vtables → a ∈ (inputs.foldl adding d).vtables) ∧
      (a ∈ d.typeInfos → a ∈ (inputs.foldl adding d).typeInfos) := by
  refine ⟨fun mem => foldKeeps (P := fun d => a ∈ d.vtables) (fun d input mem => ?_) inputs mem,
    fun mem => foldKeeps (P := fun d => a ∈ d.typeInfos) (fun d input mem => ?_) inputs mem⟩
  · obtain ⟨_, _, took, _⟩ := addedTook (addingAdded d input)
    exact (memVTables took a).mpr (.inr mem)
  · obtain ⟨_, _, took, _⟩ := addedTook (addingAdded d input)
    exact (memTypeInfos took a).mpr (.inr mem)

theorem tookAnswered {v : View} {classes : Classification}
    (took : Took (Finds.inImage v classes) met d d') :
    Answered v classes (met.filterMap d.selection.row?) d' := by
  refine ⟨fun row staged type decoded => ?_, fun row staged type decoded => ?_⟩
  · cases read : VTable.read v row.address classes.pending with
    | error e => exact .inr ⟨e, vtableRefused read⟩
    | ok table =>
      refine .inl ((memVTables took row.address).mpr (.inl ⟨row, staged, table, ?_, ?_⟩))
      · simp only [Finds.inImage, decoded, read]
        rfl
      · exact vtableAddress read
  · cases known : classes.kinds[row.address]? with
    | none => exact .inr (.inl rfl)
    | some kind =>
      cases read : TypeInfo.read v row.address kind with
      | error e => exact .inr (.inr ⟨kind, e, rfl, read⟩)
      | ok info =>
        refine .inl ((memTypeInfos took row.address).mpr (.inl ⟨row, staged, info, ?_, ?_⟩))
        · simp only [Finds.inImage, decoded, known, Option.bind_some, read]
          rfl
        · exact typeInfoAddress read

theorem answeredLater {v : View} {classes : Classification} {rows : List SymbolRow}
    (answered : Answered v classes rows d) (inputs : List Input) :
    Answered v classes rows (inputs.foldl adding d) := by
  refine ⟨fun row staged type decoded => ?_, fun row staged type decoded => ?_⟩
  · exact (answered.tables row staged type decoded).imp_left (addingKeeps inputs d _).1
  · exact (answered.infos row staged type decoded).imp_left (addingKeeps inputs d _).2

theorem ofInputsSelection (selection : Selection) (inputs : List Input) :
    (ofInputs selection inputs).selection = selection := by
  refine foldKeeps (P := fun d => d.selection = selection) (fun d input same => ?_) inputs rfl
  obtain ⟨_, _, took, _⟩ := addedTook (addingAdded d input)
  exact took.selection.trans same

end Draft

/- What an input to a draft `d` has to do with the records of the draft `d'` that comes next, and of
the draft that all inputs come to. Only an image that can be used brings records, and only those
that are found at the rows that are new with it: there is none for a symbol that was left out. -/
inductive RecordsFrom (s : Selection) (d d' final : Draft) : Input → Prop where
  | refused {elf : Elf} {e : BuildError} (ran : Draft.addImage elf d = .error e d')
      (rows : d'.rows = d.rows) (vtables : d'.vtables = d.vtables)
      (typeInfos : d'.typeInfos = d.typeInfos) : RecordsFrom s d d' final (.image elf)
  | image {elf : Elf} (ran : Draft.addImage elf d = .ok () d') {data : Image.Section}
      {symbols : List DynamicSymbol} {classes : Classification}
      (scanned : Draft.Scanned s elf data symbols classes) {staged : List SymbolRow}
      (rows : d'.rows.toList = d.rows.toList ++ staged)
      (taken : ∀ row ∈ staged, s.Takes row.raw row.key row.kind row.address)
      (vtables : d'.vtables =
        withTables d.vtables (staged.filterMap (Finds.inImage data.view classes).table?))
      (typeInfos : d'.typeInfos =
        withInfos d.typeInfos (staged.filterMap (Finds.inImage data.view classes).info?))
      (answered : Answered data.view classes staged final) :
      RecordsFrom s d d' final (.image elf)
  | publicSymbols {symbols : List PublicSymbol} (vtables : d'.vtables = d.vtables)
      (typeInfos : d'.typeInfos = d.typeInfos) :
      RecordsFrom s d d' final (.publicSymbols symbols)

theorem addedRecords {d d' : Draft} {input : Input} (added : Draft.Added d input d')
    (later : List Input) :
    RecordsFrom d.selection d d' (later.foldl Draft.adding d') input := by
  cases added with
  | refused ran took =>
    refine .refused ran ?_ took.vtables took.typeInfos
    have rows := took.rows
    rw [List.filterMap_nil, List.append_nil] at rows
    exact Array.toList_inj.mp rows
  | image ran scanned took =>
    refine .image ran scanned took.rows (fun row staged => ?_) took.vtables took.typeInfos
      (Draft.answeredLater (Draft.tookAnswered took) later)
    obtain ⟨_, _, made⟩ := List.mem_filterMap.mp staged
    exact Selection.rowTaken made
  | publicSymbols took =>
    exact .publicSymbols (Draft.tookNothing took).1 (Draft.tookNothing took).2

/- Whatever inputs a draft was made of, each of its records is at the address that it names, and a
row of an image stands for it; and each input brought the records that it was to bring. -/
theorem recordsBackedByRows (selection : Selection) (inputs : List Input) :
    let d := Draft.ofInputs selection inputs
    d.Keyed ∧ d.Backed ∧ ∀ before input after, inputs = before ++ input :: after →
      let earlier := Draft.ofInputs selection before
      RecordsFrom selection earlier (earlier.adding input) d input := by
  refine ⟨Draft.ofInputsKeyed selection inputs, ?_, ?_⟩
  · refine Draft.foldKeeps Draft.addingBacked inputs ⟨fun a mem => ?_, fun a mem => ?_⟩
    · cases Std.ExtTreeMap.not_mem_empty mem
    · cases Std.ExtTreeMap.not_mem_empty mem
  · rintro before input after rfl
    have records := addedRecords (Draft.addingAdded (Draft.ofInputs selection before) input) after
    have whole : Draft.ofInputs selection (before ++ input :: after) =
        after.foldl Draft.adding ((Draft.ofInputs selection before).adding input) :=
      List.foldl_append
    rw [Draft.ofInputsSelection] at records
    rw [whole]
    exact records

end CxxSymbols.Build
