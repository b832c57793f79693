import CxxSymbols.Proofs.Store.Contents
import Mathlib.Data.List.TakeWhile
/-! The rows whose keys begin with a text. In the order of keys they stand together, in front of all
others that are not below the text. So what two searches by halving leave are just these rows. -/
namespace CxxSymbols.Store

/-! ### Searching by halving -/

theorem unmetBehind {α : Type} {test : α → Bool} {xs : List α}
    (down : xs.Pairwise fun a b => test b = true → test a = true) :
    ∀ b ∈ xs.dropWhile test, test b = false := by
  intro b mem
  have behind := down.sublist (List.dropWhile_sublist test)
  have stop := List.head?_dropWhile_not test xs
  cases shape : xs.dropWhile test with
  | nil =>
    rw [shape] at mem
    cases mem
  | cons a rest =>
    rw [shape] at mem behind stop
    rcases List.mem_cons.mp mem with rfl | later
    · exact stop
    · refine Bool.eq_false_iff.mpr fun meets => ?_
      have first := List.rel_of_pairwise_cons behind later meets
      cases first.symm.trans stop

theorem countedCut {α : Type} {test : α → Bool} {xs : Array α}
    (down : xs.toList.Pairwise fun a b => test b = true → test a = true) :
    (xs.extract 0 (Search.countMet test xs)).toList = xs.toList.takeWhile test ∧
      (xs.extract (Search.countMet test xs) xs.size).toList = xs.toList.dropWhile test := by
  have shape : xs.toList = xs.toList.takeWhile test ++ xs.toList.dropWhile test :=
    List.takeWhile_append_dropWhile.symm
  rw [Search.countMetFront shape (fun _ => List.mem_takeWhile_imp) (unmetBehind down),
    Array.toList_extract, Array.toList_extract, List.extract_eq_take_drop,
    List.extract_eq_take_drop, ← Array.length_toList]
  generalize xs.toList.takeWhile test = front at shape
  generalize xs.toList.dropWhile test = back at shape
  rw [shape, List.drop_left, List.length_append, Nat.add_sub_cancel_left, List.take_length,
    List.drop_zero, Nat.sub_zero, List.take_left]
  exact ⟨rfl, rfl⟩

/-! ### Rows in the order of their keys -/

section Rows
variable {rows : List SymbolRow} {row next : SymbolRow} {text : String}

theorem belowToo (notBelow : ¬next.key < row.key) (below : next.key < text) : row.key < text := by
  refine String.not_le.mp fun above => ?_
  exact String.not_lt.mpr (String.le_trans above (String.not_lt.mp notBelow)) below

theorem beginsToo (notBelow : ¬next.key < row.key) (above : ¬row.key < text)
    (begins : text.toList <+: next.key.toList) : text.toList <+: row.key.toList := by
  by_cases same : row.key = next.key
  · rwa [same]
  · refine Search.betweenBegins above (String.not_le.mp fun upTo => same ?_) begins
    exact String.le_antisymm (String.not_lt.mp notBelow) upTo

theorem beginningStretch (ordered : Contents.NotBelow rows) :
    (rows.dropWhile fun row => row.key < text).takeWhile
      (fun row => text.toList.isPrefixOf row.key.toList) =
        rows.filter fun row => text.toList.isPrefixOf row.key.toList := by
  refine Search.stretchOfOrdered ordered (fun row next notBelow below => ?_) (fun row begins => ?_)
    fun row next notBelow above begins => ?_
  · exact decide_eq_true (belowToo notBelow (of_decide_eq_true below))
  · exact decide_eq_false (Search.notBelowBeginning (List.isPrefixOf_iff_prefix.mp begins))
  · rw [List.isPrefixOf_iff_prefix] at begins ⊢
    exact beginsToo notBelow (of_decide_eq_false above) begins

theorem belowFirst (ordered : Contents.NotBelow rows) (text : String) : rows.Pairwise fun row next =>
    decide (next.key < text) = true → decide (row.key < text) = true :=
  ordered.imp fun notBelow below => decide_eq_true (belowToo notBelow (of_decide_eq_true below))

theorem beginningFirst (ordered : Contents.NotBelow rows) (text : String) :
    (rows.dropWhile fun row => row.key < text).Pairwise fun row next =>
      text.toList.isPrefixOf next.key.toList = true →
        text.toList.isPrefixOf row.key.toList = true := by
  have above := unmetBehind (belowFirst ordered text)
  have part := ordered.sublist (List.dropWhile_sublist fun row : SymbolRow => row.key < text)
  refine part.imp_of_mem fun {row next} mem _ notBelow begins => ?_
  rw [List.isPrefixOf_iff_prefix] at begins ⊢
  exact beginsToo notBelow (of_decide_eq_false (above row mem)) begins

end Rows

namespace Database
variable {db : Database}

theorem beginningWithFiltered (loaded : db.Loaded) (text : String) : db.beginningWith text =
    db.symbols.filter fun row => text.toList.isPrefixOf row.key.toList := by
  rw [← beginningStretch loaded.ordered, beginningWith]
  have low := (countedCut (belowFirst loaded.ordered text)).2
  have tail := beginningFirst loaded.ordered text
  rw [symbols, ← low] at tail
  exact (countedCut tail).1.trans (congrArg _ low)

end Database

/- Of a file that loads, the rows that are found to begin with a text are all those whose keys begin
with its bytes, in the order in which all rows stand. -/
theorem beginningsExact {file : ByteArray} {db : Database} (ran : Database.ofFile file = .ok db)
    (text : String) : db.beginningWith text =
      db.symbols.filter fun row => (Text.encode text).isPrefixOf (Text.encode row.key) := by
  rw [Database.beginningWithFiltered (Database.loadedOfFile ran)]
  refine List.filter_congr fun row _ => ?_
  rw [Bool.eq_iff_iff, List.isPrefixOf_iff_prefix, List.isPrefixOf_iff_prefix, Text.encodeBegins]

def accented : List SymbolRow :=
  [⟨"Foo::ba()", "_ZN3Foo2baEv", "", .function, .elf, 0x100⟩,
    ⟨"Foo::baz()", "_ZN3Foo3bazEv", "", .function, .elf, 0x140⟩,
    ⟨"Foo::baz()", "_ZN3Foo3bazEv", "", .function, .elf, 0x160⟩,
    ⟨"Foo::bazé()", "_ZN3Foo5bazéEv", "", .function, .elf, 0x180⟩,
    ⟨"Foo::bé()", "_ZN3Foo3béEv", "", .function, .elf, 0x200⟩]

theorem accentedLight : ∀ r ∈ accented.map Record.symbol, r.Light := by
  intro r mem
  simp only [accented, List.map_cons, List.map_nil, List.mem_cons, List.not_mem_nil, or_false] at mem
  rcases mem with rfl | rfl | rfl | rfl | rfl <;> exact symbolLight (by decide)

theorem accentedExact : ∃ bytes db, Database.ofFile bytes = .ok db ∧
    (db.beginningWith "Foo::baz").map SymbolRow.address = [0x140, 0x160, 0x180] := by
  obtain ⟨bytes, written⟩ := lightWritten accentedLight
  have loads : ∃ db, Database.ofFile bytes = .ok db ∧ db.symbols = accented := by
    rw [Database.writtenLoads written]
    exact ⟨_, rfl, rfl⟩
  obtain ⟨db, ran, symbols⟩ := loads
  refine ⟨bytes, db, ran, ?_⟩
  rw [beginningsExact ran, symbols]
  decide +kernel

end CxxSymbols.Store
