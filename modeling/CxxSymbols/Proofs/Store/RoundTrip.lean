import CxxSymbols.Proofs.Store.Capacity
/-! What was written reads back. The writer ends its batches where it must, and each batch has a
table of its own; the reader has the table of a batch by the time it comes to the records. -/
namespace CxxSymbols.Store

/- A file that was written opens, and gives the records one by one, as they were and in their
order, and then its end. -/
theorem writtenRecordsReadBack {records : List Record} {bytes : ByteArray}
    (written : fileOf records = .ok bytes) :
    ∃ reader, Reader.ofFile bytes = .ok reader ∧ reader.Yields records ∧
      reader.records = (records, none) := by
  obtain ⟨frames, table, emitted⟩ := Writer.fileEmitted written
  exact Reader.fileTold emitted.toMadeOf emitted.tells

def twoOverloads : List Record :=
  [.symbol ⟨"f()", "_Z1fv", "f()", .function, .elf, 0x1000⟩,
    .symbol ⟨"g()", "?g@@YAXXZ", "", .function, .pdb, 0⟩,
    .symbol ⟨"f()", "?f@@YAXXZ", "", .function, .pdb, 0⟩,
    .index ⟨"f", [0, 2]⟩, .index ⟨"g", [1]⟩]

theorem twoOverloadsLight : ∀ r ∈ twoOverloads, r.Light := by
  intro r mem
  simp only [twoOverloads, List.mem_cons, List.not_mem_nil, or_false] at mem
  rcases mem with rfl | rfl | rfl | rfl | rfl
  · exact symbolLight (by decide)
  · exact symbolLight (by decide)
  · exact symbolLight (by decide)
  · exact @indexLight "f" [0, 2] [0, 2] rfl (by decide)
  · exact @indexLight "g" [1] [1] rfl (by decide)

theorem twoOverloadsReadBack :
    ∃ bytes, fileOf twoOverloads = .ok bytes ∧
      ∃ reader, Reader.ofFile bytes = .ok reader ∧ reader.Yields twoOverloads ∧
        reader.records = (twoOverloads, none) := by
  obtain ⟨bytes, written⟩ := lightWritten twoOverloadsLight
  exact ⟨bytes, written, writtenRecordsReadBack written⟩

end CxxSymbols.Store
