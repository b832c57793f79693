import CxxSymbols.Proofs.Build.Rows
import CxxSymbols.Proofs.Build.Store
import CxxSymbols.Proofs.Store.Contents
/-! The order in which public symbols arrive, and how they are divided up, show in a store only in
how rows with equal keys stand. Where these stand alike, the files are the same byte for byte. -/
namespace CxxSymbols.Build
open Image (PublicSymbol)
open Store (IndexEntry Reader SymbolRow)

/-! ### Rows in the order of their keys -/

/- Rows that are in order differ at most in how those with equal keys stand. -/
structure SameUpToTies (rows others : List SymbolRow) : Prop where
  keys : others.map SymbolRow.key = rows.map SymbolRow.key
  ties : ∀ key, (others.filter fun row => row.key = key).Perm (rows.filter fun row => row.key = key)

section Sorted
variable {rows others sorted sorted' : List SymbolRow}

theorem sortedSameUpToTies (first : StablySorted rows sorted) (second : StablySorted others sorted')
    (perm : others.Perm rows) : SameUpToTies sorted sorted' := by
  have all : sorted'.Perm sorted := second.perm.trans (perm.trans first.perm.symm)
  refine ⟨?_, fun key => all.filter _⟩
  have ascends {rows sorted : List SymbolRow} (of : StablySorted rows sorted) :
      (sorted.map SymbolRow.key).Pairwise (· ≤ ·) :=
    List.pairwise_map.mpr of.ordered
  exact (all.map SymbolRow.key).eq_of_pairwise
    (fun _ _ _ _ le ge => String.le_antisymm le ge) (ascends second) (ascends first)

/- In rows that are in order, those with the first key come first; so the rows of each key, in their
order, tell the whole. -/
theorem orderedByTies (ordered : rows.Pairwise fun a b => a.key ≤ b.key)
    (ordered' : others.Pairwise fun a b => a.key ≤ b.key)
    (ties : ∀ key, (others.filter fun row => row.key = key) = rows.filter fun row => row.key = key) :
    others = rows := by
  have least {a b : SymbolRow} {as bs : List SymbolRow}
      (ordered : (b :: bs).Pairwise fun a b => a.key ≤ b.key)
      (ties : ((b :: bs).filter fun row => row.key = a.key) =
        (a :: as).filter fun row => row.key = a.key) : b.key ≤ a.key := by
    have mem : a ∈ (b :: bs).filter fun row => row.key = a.key := by
      rw [ties]
      exact List.mem_filter.mpr ⟨.head _, decide_eq_true rfl⟩
    rcases List.mem_cons.mp (List.mem_filter.mp mem).1 with rfl | later
    · exact String.le_refl _
    · exact List.rel_of_pairwise_cons ordered later
  induction rows generalizing others with
  | nil =>
    cases others with
    | nil => rfl
    | cons b bs => simpa using ties b.key
  | cons a as ih =>
    cases others with
    | nil => simpa using ties a.key
    | cons b bs =>
      have sameKey : b.key = a.key := String.le_antisymm (least ordered' (ties a.key))
        (least ordered (ties b.key).symm)
      have heads := ties a.key
      simp only [List.filter_cons, sameKey, decide_true, if_true] at heads
      obtain rfl := (List.cons.inj heads).1
      rw [ih ordered.of_cons ordered'.of_cons fun key => ?_]
      have rest := ties key
      simp only [List.filter_cons] at rest
      split at rest
      · exact (List.cons.inj rest).2
      · exact rest

end Sorted

namespace Draft

def ofPublicSymbols (selection : Selection) (parts : List (List PublicSymbol)) : Draft :=
  ofInputs selection (parts.map .publicSymbols)

theorem partsTook (parts : List (List PublicSymbol)) (d : Draft) :
    Took {} (parts.flatten.map Met.ofPublic) d ((parts.map Input.publicSymbols).foldl adding d) := by
  induction parts generalizing d with
  | nil => exact tookNone
  | cons symbols parts ih =>
    rw [List.flatten_cons, List.map_append]
    exact tookAppend (d.addPublicSymbolsTook symbols) (ih _)

section PublicSymbols
variable {selection : Selection} {parts others : List (List PublicSymbol)}

theorem publicSymbolsTook (selection : Selection) (parts : List (List PublicSymbol)) :
    Took {} (parts.flatten.map Met.ofPublic) { selection } (ofPublicSymbols selection parts) :=
  partsTook parts { selection }

theorem publicRows (selection : Selection) (parts : List (List PublicSymbol)) :
    (ofPublicSymbols selection parts).rows.toList =
      (parts.flatten.map Met.ofPublic).filterMap selection.row? :=
  (publicSymbolsTook selection parts).rows

theorem publicRowsPerm (perm : others.flatten.Perm parts.flatten) :
    (ofPublicSymbols selection others).rows.toList.Perm
      (ofPublicSymbols selection parts).rows.toList := by
  rw [publicRows, publicRows]
  exact (perm.map Met.ofPublic).filterMap selection.row?

theorem publicRecords (selection : Selection) (parts : List (List PublicSymbol)) :
    (ofPublicSymbols selection parts).records =
      (ofPublicSymbols selection parts).sortedRows.map .symbol ++
        (ofPublicSymbols selection parts).indexEntries.map .index := by
  obtain ⟨tables, infos⟩ := tookNothing (publicSymbolsTook selection parts)
  replace tables : (ofPublicSymbols selection parts).vtables.toList = [] := tables ▸ rfl
  replace infos : (ofPublicSymbols selection parts).typeInfos.toList = [] := infos ▸ rfl
  rw [recordsWithIndex, recordsWith, infos, tables, List.map_nil, List.map_nil, List.append_nil,
    List.append_nil]

theorem indexOfKeys {d d' : Draft}
    (keys : d'.sortedRows.map SymbolRow.key = d.sortedRows.map SymbolRow.key) :
    d'.indexEntries = d.indexEntries := by
  rw [indexEntries, indexEntries, index, index, keys]

end PublicSymbols
end Draft

structure SameCounts (r r' : Report) : Prop where
  processed : r'.processed = r.processed
  inserted : r'.inserted = r.inserted
  skippedCount : r'.skippedCount = r.skippedCount
  skipped : r'.skipped.Perm r.skipped

def Holds (file : ByteArray) (rows : List SymbolRow) (entries : List IndexEntry) : Prop :=
  ∃ reader, Reader.ofFile file = .ok reader ∧
    reader.records = (rows.map .symbol ++ entries.map .index, none)

theorem writtenHolds {selection : Selection} {parts : List (List PublicSymbol)} {file : ByteArray}
    (written : (Draft.ofPublicSymbols selection parts).file = .ok file) :
    Holds file (Draft.ofPublicSymbols selection parts).sortedRows
      (Draft.ofPublicSymbols selection parts).indexEntries := by
  rw [Draft.file, Draft.publicRecords] at written
  exact Store.Database.writtenReads written

/- Public symbols that arrive in another order and in other parts make for the same counts, and the
same store up to the order of rows with equal keys. If that is the same too, so is the file. -/
theorem arrivalOrderInvisible (selection : Selection) {parts others : List (List PublicSymbol)}
    (perm : others.flatten.Perm parts.flatten) :
    let d := Draft.ofPublicSymbols selection parts
    let d' := Draft.ofPublicSymbols selection others
    SameCounts d.report d'.report ∧
      (∀ file file', d.file = .ok file → d'.file = .ok file' → ∃ rows rows' entries,
        Holds file rows entries ∧ Holds file' rows' entries ∧ SameUpToTies rows rows') ∧
      ((∀ key, (d'.rows.toList.filter fun row => row.key = key) =
        d.rows.toList.filter fun row => row.key = key) → d'.file = d.file) := by
  intro d d'
  have rows : d'.rows.toList.Perm d.rows.toList := Draft.publicRowsPerm perm
  have met := perm.map Met.ofPublic
  have took := Draft.publicSymbolsTook selection parts
  have took' := Draft.publicSymbolsTook selection others
  have skipped := met.filterMap selection.skipped?
  have sorted := sortStable d.rows.toList
  have sorted' := sortStable d'.rows.toList
  have same : SameUpToTies d.sortedRows d'.sortedRows := sortedSameUpToTies sorted sorted' rows
  refine ⟨⟨?_, ?_, ?_, ?_⟩, fun file file' written written' => ?_, fun ties => ?_⟩
  · exact took'.processed.trans ((congrArg _ met.length_eq).trans took.processed.symm)
  · exact rows.length_eq
  · exact took'.skippedCount.trans ((congrArg _ skipped.length_eq).trans took.skippedCount.symm)
  · show d'.skipped.toList.Perm d.skipped.toList
    rw [took.skipped, took'.skipped]
    exact skipped
  · refine ⟨d.sortedRows, d'.sortedRows, d.indexEntries, writtenHolds written, ?_, same⟩
    rw [← Draft.indexOfKeys same.keys]
    exact writtenHolds written'
  · have equal : d'.sortedRows = d.sortedRows :=
      orderedByTies sorted.ordered sorted'.ordered fun key =>
        (sorted'.stable key).trans ((ties key).trans (sorted.stable key).symm)
    rw [Draft.file, Draft.file, Draft.publicRecords, Draft.publicRecords,
      Draft.indexOfKeys same.keys, equal]

def overloadParts : List (List PublicSymbol) :=
  [[⟨"___Z1gv", 0x2000⟩, ⟨"___Z1fv", 0x1000⟩, ⟨"plain", 0x1800⟩], [⟨"___Z1fv", 0x3000⟩]]

def otherParts : List (List PublicSymbol) :=
  [[⟨"plain", 0x1800⟩], [], [⟨"___Z1fv", 0x1000⟩, ⟨"___Z1fv", 0x3000⟩, ⟨"___Z1gv", 0x2000⟩]]

theorem otherRows : (Draft.ofPublicSymbols {} otherParts).rows.toList =
    [⟨"f() -> unknown", "___Z1fv", "", .function, .pdb, 0x1000⟩,
      ⟨"f() -> unknown", "___Z1fv", "", .function, .pdb, 0x3000⟩,
      ⟨"g() -> unknown", "___Z1gv", "", .function, .pdb, 0x2000⟩] := by
  decide +kernel

theorem otherTies (key : String) :
    ((Draft.ofPublicSymbols {} otherParts).rows.toList.filter fun row => row.key = key) =
      (Draft.ofPublicSymbols {} overloadParts).rows.toList.filter fun row => row.key = key := by
  have rows : (Draft.ofPublicSymbols {} overloadParts).rows.toList = _ := overloadRows
  rw [otherRows, rows]
  by_cases f : "f() -> unknown" = key
  · subst f
    rfl
  · simp [List.filter_cons, f]

theorem otherPartsSameFile : otherParts.flatten.Perm overloadParts.flatten ∧
    (∃ file, (Draft.ofPublicSymbols {} overloadParts).file = .ok file ∧
      (Draft.ofPublicSymbols {} otherParts).file = .ok file ∧ ∃ rows rows' entries,
        Holds file rows entries ∧ Holds file rows' entries ∧ SameUpToTies rows rows') ∧
    SameCounts (Draft.ofPublicSymbols {} overloadParts).report
      (Draft.ofPublicSymbols {} otherParts).report := by
  have perm : otherParts.flatten.Perm overloadParts.flatten := by decide
  obtain ⟨counts, stores, files⟩ := arrivalOrderInvisible {} perm
  obtain ⟨file, written⟩ := overloadsWritten
  have written' := (files otherTies).trans written
  exact ⟨perm, ⟨file, written, written', stores file file written written'⟩, counts⟩

end CxxSymbols.Build
