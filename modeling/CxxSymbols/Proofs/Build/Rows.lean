import CxxSymbols.Proofs.Build.Account
/-! What a draft has after a step, told by the symbols that the step met. The rows that are new and
the omissions are those of the symbols, in the order in which they were met; the records are those
that are found at the new rows, and nothing else adds or changes one. -/
namespace CxxSymbols.Build
open Image (DynamicSymbol Elf PublicSymbol)
open Rtti (Classification TypeInfo VTable View)
open Store (AddressMap SymbolRow)

def Met.row (m : Met) (root : Canonical.Root) (key : String) : SymbolRow :=
  let demangled := match Mangled.demangle m.raw with
    | .ok text => text
    | .error _ => ""
  ⟨key, m.raw, demangled, root.kind, m.origin, m.address⟩

namespace Selection

def row? (s : Selection) (m : Met) : Option SymbolRow :=
  match s.select m.raw m.address with
  | .ok (root, key) => some (m.row root key)
  | .error _ => none

def skipped? (s : Selection) (m : Met) : Option Skipped :=
  match s.select m.raw m.address with
  | .ok _ => none
  | .error reason => some ⟨m.raw, m.origin, m.address, reason⟩

variable {s : Selection} {raw key : String} {address : Address} {root : Canonical.Root}

theorem selectedRoot (chosen : s.select raw address = .ok (root, key)) :
    Mangled.decode raw = .ok root ∧ key = root.key := by
  unfold select at chosen
  split at chosen
  · cases chosen
  · split at chosen
    · cases chosen
    · cases chosen
    · rename_i decoded
      split at chosen
      · cases chosen
      · dsimp only at chosen
        split at chosen
        · cases chosen
        · cases chosen
          exact ⟨decoded, rfl⟩

theorem rowMade {m : Met} {row : SymbolRow} (made : s.row? m = some row) :
    Met.ofRow row = m ∧ ∃ root, Mangled.decode row.raw = .ok root ∧ row.key = root.key ∧
      row.kind = root.kind := by
  unfold row? at made
  split at made
  · rename_i root key chosen
    cases made
    obtain ⟨decoded, rfl⟩ := selectedRoot chosen
    exact ⟨rfl, root, decoded, rfl, rfl⟩
  · cases made

theorem rowTaken {m : Met} {row : SymbolRow} (made : s.row? m = some row) :
    s.Takes row.raw row.key row.kind row.address := by
  have choice := s.selected m.raw m.address
  unfold row? at made
  split at made
  · rename_i root key chosen
    rw [chosen] at choice
    cases made
    exact choice
  · cases made

end Selection

structure Finds where
  table? : SymbolRow → Option VTable := fun _ => none
  info? : SymbolRow → Option TypeInfo := fun _ => none

def Finds.inImage (v : View) (classes : Classification) : Finds where
  table? row :=
    match Mangled.decode row.raw with
    | .ok (.special .vtable _) => (VTable.read v row.address classes.pending).toOption
    | _ => none
  info? row :=
    match Mangled.decode row.raw with
    | .ok (.special .typeInfo _) =>
      classes.kinds[row.address]?.bind fun kind => (TypeInfo.read v row.address kind).toOption
    | _ => none

/- Of the tables at one address the last one stays. -/
def withTables (map : AddressMap VTable) (tables : List VTable) : AddressMap VTable :=
  tables.foldl (fun map table => map.insert table.address table) map

/- Of the records at one address the first one stays. -/
def withInfos (map : AddressMap TypeInfo) (infos : List TypeInfo) : AddressMap TypeInfo :=
  infos.foldl (fun map info => map.insertIfNew info.address info) map

namespace Draft

structure Took (finds : Finds) (met : List Met) (d d' : Draft) : Prop where
  selection : d'.selection = d.selection
  rows : d'.rows.toList = d.rows.toList ++ met.filterMap d.selection.row?
  skipped : d'.skipped.toList = d.skipped.toList ++ met.filterMap d.selection.skipped?
  processed : d'.processed = d.processed + met.length
  skippedCount : d'.skippedCount = d.skippedCount + (met.filterMap d.selection.skipped?).length
  vtables : d'.vtables =
    withTables d.vtables ((met.filterMap d.selection.row?).filterMap finds.table?)
  typeInfos : d'.typeInfos =
    withInfos d.typeInfos ((met.filterMap d.selection.row?).filterMap finds.info?)

section Steps
variable {finds : Finds} {met met' : List Met} {d d' d'' : Draft}

theorem tookNone : Took finds [] d d :=
  ⟨rfl, by simp, by simp, rfl, rfl, rfl, rfl⟩

theorem tookNoting (took : Took finds met d d') (n : Note) : Took finds met d (d'.noting n) :=
  ⟨took.selection, took.rows, took.skipped, took.processed, took.skippedCount, took.vtables,
    took.typeInfos⟩

theorem tookAppend (first : Took finds met d d') (second : Took finds met' d' d'') :
    Took finds (met ++ met') d d'' := by
  have same := first.selection
  refine ⟨second.selection.trans same, ?_, ?_, ?_, ?_, ?_, ?_⟩
  · rw [second.rows, first.rows, same, List.filterMap_append, List.append_assoc]
  · rw [second.skipped, first.skipped, same, List.filterMap_append, List.append_assoc]
  · rw [second.processed, first.processed, List.length_append, Nat.add_assoc]
  · rw [second.skippedCount, first.skippedCount, same, List.filterMap_append, List.length_append,
      Nat.add_assoc]
  · rw [second.vtables, first.vtables, same, List.filterMap_append, List.filterMap_append,
      withTables, withTables, withTables, List.foldl_append]
  · rw [second.typeInfos, first.typeInfos, same, List.filterMap_append, List.filterMap_append,
      withInfos, withInfos, withInfos, List.foldl_append]

theorem tookNothing (took : Took {} met d d') :
    d'.vtables = d.vtables ∧ d'.typeInfos = d.typeInfos := by
  have none {β : Type} (rows : List SymbolRow) : rows.filterMap (fun _ => (none : Option β)) = [] :=
    List.filterMap_eq_nil_iff.mpr fun _ _ => rfl
  refine ⟨?_, ?_⟩
  · rw [took.vtables, none]
    rfl
  · rw [took.typeInfos, none]
    rfl

theorem tookFold {α : Type} {step : Draft → α → Draft} {view : α → Met}
    (each : ∀ d a, Took finds [view a] d (step d a)) (as : List α) (d : Draft) :
    Took finds (as.map view) d (as.foldl step d) := by
  induction as generalizing d with
  | nil => exact tookNone
  | cons a as ih => exact tookAppend (each d a) (ih (step d a))

/-! ### One symbol -/

theorem addSymbolIn {m : Met} {root : Canonical.Root} {key : String}
    (chosen : d.selection.select m.raw m.address = .ok (root, key)) :
    d.addSymbol m.origin m.raw m.address = (some root,
      { d with processed := d.processed + 1, rows := d.rows.push (m.row root key) }) := by
  cases spelled : Mangled.demangle m.raw with
  | ok _ => simp only [addSymbol, chosen, Met.row, spelled]
  | error _ => simp only [addSymbol, chosen, Met.row, spelled]

theorem addSymbolOut {m : Met} {reason : SkipReason}
    (chosen : d.selection.select m.raw m.address = .error reason) :
    d.addSymbol m.origin m.raw m.address = (none,
      { d with
        processed := d.processed + 1
        skippedCount := d.skippedCount + 1
        skipped := d.skipped.push ⟨m.raw, m.origin, m.address, reason⟩ }) := by
  simp only [addSymbol, chosen]

theorem addSymbolTook (d : Draft) (m : Met) :
    Took {} [m] d (d.addSymbol m.origin m.raw m.address).2 := by
  cases chosen : d.selection.select m.raw m.address with
  | ok entity =>
    have row : [m].filterMap d.selection.row? = [m.row entity.1 entity.2] := by
      simp only [List.filterMap_cons, Selection.row?, chosen, List.filterMap_nil]
    have skipped : [m].filterMap d.selection.skipped? = [] := by
      simp only [List.filterMap_cons, Selection.skipped?, chosen, List.filterMap_nil]
    rw [addSymbolIn chosen]
    exact ⟨rfl, by rw [row, Array.toList_push], by rw [skipped, List.append_nil], rfl,
      by rw [skipped]; rfl, by rw [row]; rfl, by rw [row]; rfl⟩
  | error reason =>
    have row : [m].filterMap d.selection.row? = [] := by
      simp only [List.filterMap_cons, Selection.row?, chosen, List.filterMap_nil]
    have skipped : [m].filterMap d.selection.skipped? =
        [⟨m.raw, m.origin, m.address, reason⟩] := by
      simp only [List.filterMap_cons, Selection.skipped?, chosen, List.filterMap_nil]
    rw [addSymbolOut chosen]
    exact ⟨rfl, by rw [row, List.append_nil], by rw [skipped, Array.toList_push], rfl,
      by rw [skipped]; rfl, by rw [row]; rfl, by rw [row]; rfl⟩

theorem addPublicSymbolsTook (d : Draft) (symbols : List PublicSymbol) :
    Took {} (symbols.map Met.ofPublic) d (d.addPublicSymbols symbols) :=
  tookFold (fun d symbol => addSymbolTook d (Met.ofPublic symbol)) symbols d

/-! ### The record of a symbol -/

structure Recorded (tables : List VTable) (infos : List TypeInfo) (d d' : Draft) : Prop where
  selection : d'.selection = d.selection
  rows : d'.rows = d.rows
  skipped : d'.skipped = d.skipped
  processed : d'.processed = d.processed
  skippedCount : d'.skippedCount = d.skippedCount
  vtables : d'.vtables = withTables d.vtables tables
  typeInfos : d'.typeInfos = withInfos d.typeInfos infos

theorem addVTableRecorded (v : View) (classes : Classification) (d : Draft) (raw : String)
    (address : Address) :
    Recorded (VTable.read v address classes.pending).toOption.toList [] d
      (d.addVTable v classes raw address) := by
  unfold addVTable
  cases read : VTable.read v address classes.pending with
  | ok table =>
    have here := vtableAddress read
    dsimp only
    split
    · exact ⟨rfl, rfl, rfl, rfl, rfl, by rw [← here]; rfl, rfl⟩
    · exact ⟨rfl, rfl, rfl, rfl, rfl, by rw [← here]; rfl, rfl⟩
  | error cause => exact ⟨rfl, rfl, rfl, rfl, rfl, rfl, rfl⟩

theorem addTypeInfoRecorded (v : View) (classes : Classification) (d : Draft) (raw : String)
    (address : Address) :
    Recorded [] (classes.kinds[address]?.bind fun kind =>
      (TypeInfo.read v address kind).toOption).toList d (d.addTypeInfo v classes raw address) := by
  unfold addTypeInfo
  cases classes.kinds[address]? with
  | none => exact ⟨rfl, rfl, rfl, rfl, rfl, rfl, rfl⟩
  | some kind =>
    cases read : TypeInfo.read v address kind with
    | ok info =>
      have here := typeInfoAddress read
      dsimp only [Option.bind_some]
      rw [read]
      exact ⟨rfl, rfl, rfl, rfl, rfl, rfl, by rw [← here]; rfl⟩
    | error cause =>
      dsimp only [Option.bind_some]
      rw [read]
      exact ⟨rfl, rfl, rfl, rfl, rfl, rfl, rfl⟩

theorem tookRecorded {tables : List VTable} {infos : List TypeInfo} (took : Took {} met d d')
    (recorded : Recorded tables infos d' d'')
    (foundTables : (met.filterMap d.selection.row?).filterMap finds.table? = tables)
    (foundInfos : (met.filterMap d.selection.row?).filterMap finds.info? = infos) :
    Took finds met d d'' := by
  obtain ⟨vtables, typeInfos⟩ := tookNothing took
  refine ⟨recorded.selection.trans took.selection, ?_, ?_, ?_, ?_, ?_, ?_⟩
  · rw [recorded.rows, took.rows]
  · rw [recorded.skipped, took.skipped]
  · rw [recorded.processed, took.processed]
  · rw [recorded.skippedCount, took.skippedCount]
  · rw [recorded.vtables, vtables, foundTables]
  · rw [recorded.typeInfos, typeInfos, foundInfos]

theorem addDynamicSymbolTook (v : View) (classes : Classification) (d : Draft)
    (symbol : DynamicSymbol) :
    Took (Finds.inImage v classes) [Met.ofDynamic symbol] d
      (addDynamicSymbol v classes d symbol) := by
  have took : Took {} [Met.ofDynamic symbol] d (d.addSymbol .elf
      (Text.decodeLossy symbol.name.data.toList) symbol.address).2 :=
    addSymbolTook d (Met.ofDynamic symbol)
  have unchanged (d : Draft) : Recorded [] [] d d := ⟨rfl, rfl, rfl, rfl, rfl, rfl, rfl⟩
  unfold addDynamicSymbol
  dsimp only
  cases chosen : d.selection.select (Met.ofDynamic symbol).raw (Met.ofDynamic symbol).address with
  | error reason =>
    have row : [Met.ofDynamic symbol].filterMap d.selection.row? = [] := by
      simp only [List.filterMap_cons, Selection.row?, chosen, List.filterMap_nil]
    have out : d.addSymbol .elf (Text.decodeLossy symbol.name.data.toList) symbol.address = _ :=
      addSymbolOut chosen
    rw [out] at took ⊢
    exact tookRecorded took (unchanged _) (by rw [row]; rfl) (by rw [row]; rfl)
  | ok entity =>
    obtain ⟨root, key⟩ := entity
    obtain ⟨decoded, _⟩ := Selection.selectedRoot chosen
    have found {α : Type} (f : SymbolRow → Option α) :
        ([Met.ofDynamic symbol].filterMap d.selection.row?).filterMap f =
          (f ((Met.ofDynamic symbol).row root key)).toList := by
      simp only [List.filterMap_cons, Selection.row?, chosen, List.filterMap_nil]
      cases f ((Met.ofDynamic symbol).row root key) with
      | none => rfl
      | some _ => rfl
    have again : Mangled.decode ((Met.ofDynamic symbol).row root key).raw = .ok root := decoded
    have into : d.addSymbol .elf (Text.decodeLossy symbol.name.data.toList) symbol.address = _ :=
      addSymbolIn chosen
    rw [into] at took ⊢
    split
    · rename_i same
      cases same
      refine tookRecorded took (addVTableRecorded v classes _ _ _) ?_ ?_
      · simp only [found, Finds.inImage, again]
        rfl
      · simp only [found, Finds.inImage, again]
        rfl
    · rename_i same
      cases same
      refine tookRecorded took (addTypeInfoRecorded v classes _ _ _) ?_ ?_
      · simp only [found, Finds.inImage, again]
        rfl
      · simp only [found, Finds.inImage, again]
        rfl
    · rename_i noTable noInfo same
      cases same
      refine tookRecorded took (unchanged _) ?_ ?_
      · simp only [found, Finds.inImage, again]
        split
        · rename_i type same
          cases same
          exact (noTable type rfl).elim
        · rfl
      · simp only [found, Finds.inImage, again]
        split
        · rename_i type same
          cases same
          exact (noInfo type rfl).elim
        · rfl

example :
    let v : View := ⟨0x1000, ⟨([0, 0x2000, 0x5000, 0].flatMap (Text.toLittleEndian 8)).toArray⟩,
      .bits64⟩
    let symbol : DynamicSymbol := ⟨1, "_ZTV3Foo".toUTF8, 0x1000⟩
    let excluding : Selection := { exclusions := ["Foo"] }
    (addDynamicSymbol v {} {} symbol).vtables.toList = [(0x1000, ⟨0x1000, [0x5000]⟩)] ∧
      (addDynamicSymbol v {} { selection := excluding } symbol).vtables.toList = [] := by
  decide +kernel

/-! ### An input -/

/- What an input does to a draft. An image that fails leaves nothing but notes. Of another one the
symbols with names are met, and the records are those that are found in it at their rows. -/
inductive Added (d : Draft) : Input → Draft → Prop where
  | refused {elf : Elf} {e : BuildError} {d' : Draft} (ran : addImage elf d = .error e d')
      (took : Took {} [] d d') : Added d (.image elf) d'
  | image {elf : Elf} {d' : Draft} (ran : addImage elf d = .ok () d') {data : Image.Section}
      {symbols : List DynamicSymbol} {classes : Classification}
      (scanned : Scanned d.selection elf data symbols classes)
      (took : Took (Finds.inImage data.view classes)
        ((symbols.filter fun s => !s.name.isEmpty).map Met.ofDynamic) d d') :
      Added d (.image elf) d'
  | publicSymbols {symbols : List PublicSymbol} {d' : Draft}
      (took : Took {} (symbols.map Met.ofPublic) d d') : Added d (.publicSymbols symbols) d'

theorem addImageAdded (elf : Elf) (d : Draft) : Added d (.image elf) (d.adding (.image elf)) := by
  have ends := addImageEnds (P := fun d' => ∀ finds, Took finds [] d d')
    (fun _ n took finds => tookNoting (took finds) n) elf fun _ => tookNone
  rw [Ends] at ends
  rw [adding]
  cases ran : addImage elf d with
  | error e d' =>
    rw [ran] at ends
    exact .refused ran (ends.2 {})
  | ok _ d' =>
    rw [ran] at ends
    obtain ⟨data, symbols, classes, before, last, scanned, took, rfl⟩ := ends
    exact .image ran scanned (tookNoting (tookAppend (took _)
      (tookFold (addDynamicSymbolTook data.view classes) _ before)) last)

theorem addingAdded (d : Draft) (input : Input) : Added d input (d.adding input) := by
  cases input with
  | image elf => exact addImageAdded elf d
  | publicSymbols symbols => exact .publicSymbols (addPublicSymbolsTook d symbols)

end Steps
end Draft
end CxxSymbols.Build
