import CxxSymbols.Proofs.Store.Frame
import CxxSymbols.Proofs.Store.Postings
import CxxSymbols.Proofs.Store.StringTable
import CxxSymbols.Store.Writer
import Mathlib.Data.List.Forall2
/-! What a writer holds between two records: messages in the file that tell the records of the
batches that have ended, and messages of the batch that has not, whose keys are numbers in the
pool. When a batch ends its keys become texts or places in its own table, and no message of it is
read with any other table. -/
namespace CxxSymbols.Store
open Stateful

inductive Pending.StandsFor (pool : StringPool) : Pending → Record → Prop where
  | symbol {number : Nat} {row : SymbolRow} (named : pool.string? number = some row.key) :
      StandsFor pool (.symbol number
        ⟨none, row.raw, row.demangled, row.kind.code, row.origin.code, row.address⟩) (.symbol row)
  | typeInfo (info : Rtti.TypeInfo) : StandsFor pool (.typeInfo (.ofRecord info)) (.typeInfo info)
  | vtable (table : Rtti.VTable) : StandsFor pool (.vtable table) (.vtable table)
  | index {entry : IndexEntry} {m : IndexMessage} (written : IndexMessage.ofRecord entry = .ok m) :
      StandsFor pool (.index m) (.index entry)

theorem rowByText (strings : Array String) (row : SymbolRow) :
    Reader.row strings ⟨some (.text row.key), row.raw, row.demangled, row.kind.code,
      row.origin.code, row.address⟩ = .ok row := by
  simp only [Reader.row, Canonical.Kind.ofCode?Code, Origin.ofCode?Code]
  rfl

theorem rowByEntry {strings : Array String} {row : SymbolRow} {place : UInt32}
    (entry : strings[place.toNat]? = some row.key) :
    Reader.row strings ⟨some (.ref place), row.raw, row.demangled, row.kind.code,
      row.origin.code, row.address⟩ = .ok row := by
  simp only [Reader.row, entry, Canonical.Kind.ofCode?Code, Origin.ofCode?Code]
  rfl

/- What a batch comes to says its records, read with its own table. If it has no table, the one
that is there stays, and nothing refers to it. -/
theorem resolveTells {pool : StringPool} {p : Pending} {r : Record} (stands : p.StandsFor pool r)
    (few : pool.strings.size ≤ UInt32.size) :
    ∃ f, p.resolve pool.resolutions = .ok f ∧ f.type = r.messageType ∧
      ∀ t : Array String, f.Small → (pool.table = [] ∨ t = pool.table.toArray) →
        Reader.said t f.payload.data.toList (some f.type) = (.ok (some r), t) := by
  have short {fields : List Wire.Field} {type : MessageType}
      (small : (Framed.ofFields type fields).Small) :
      (Wire.encode fields).size < UInt64.size := Nat.lt_of_le_of_lt small (by decide)
  cases stands with
  | @symbol number row named =>
    obtain ⟨resolution, found, means⟩ := StringPool.resolved named
    cases resolution with
    | inline text =>
      refine ⟨_, by rw [Pending.resolve, found], rfl, fun t small _ => ?_⟩
      cases means
      simp only [Framed.ofFields, Reader.said, symbolReadsBack _ (short small), Option.map_some,
        rowByText]
      rfl
    | entry place =>
      refine ⟨_, by rw [Pending.resolve, found], rfl, fun t small table => ?_⟩
      have inside : place < pool.table.length := (List.getElem?_eq_some_iff.mp means).1
      have fits : (UInt32.ofNat place).toNat = place := by
        have bound := Nat.le_trans (StringPool.tableSize pool) few
        exact UInt32.toNat_ofNat_of_lt' (Nat.lt_of_lt_of_le inside bound)
      have entry : t[(UInt32.ofNat place).toNat]? = some row.key := by
        rcases table with empty | rfl
        · rw [empty] at inside
          cases inside
        · rw [fits, List.getElem?_toArray]
          exact means
      simp only [Framed.ofFields, Reader.said, symbolReadsBack _ (short small), Option.map_some,
        rowByEntry entry]
      rfl
  | typeInfo info =>
    refine ⟨_, rfl, rfl, fun t small _ => ?_⟩
    have back : (TypeInfoMessage.ofRecord info).toRecord = .ok info := by
      simp only [TypeInfoMessage.ofRecord, TypeInfoMessage.toRecord,
        Rtti.TypeInfoKind.ofCode?Code]
    simp only [Framed.ofFields, Reader.said, typeInfoReadsBack _ (short small), Option.map_some,
      back]
    rfl
  | vtable table =>
    refine ⟨_, rfl, rfl, fun t small _ => ?_⟩
    simp only [Framed.ofFields, Reader.said, vtableReadsBack _ (short small), Option.map_some]
    rfl
  | @index entry m written =>
    refine ⟨_, rfl, rfl, fun t small _ => ?_⟩
    simp only [Framed.ofFields, Reader.said, indexReadsBack _ (short small), Option.map_some,
      IndexMessage.toRecordOfRecord written]
    rfl

theorem standsForInterned {pool : StringPool} {p : Pending} {r : Record}
    (stands : p.StandsFor pool r) (s : String) : p.StandsFor (pool.intern s).2 r := by
  cases stands with
  | symbol named => exact .symbol (StringPool.internKeeps named s)
  | typeInfo info => exact .typeInfo info
  | vtable table => exact .vtable table
  | index written => exact .index written

structure Batch (pool : StringPool) (pending : List Pending) (waiting : List Record) : Prop where
  consistent : pool.Consistent
  few : pool.strings.size ≤ pending.length
  stand : List.Forall₂ (Pending.StandsFor pool) pending waiting

structure Emitted (out : ByteArray) (frames : List Framed) (told : List Record)
    (table : Array String) : Prop extends Reader.MadeOf out frames where
  tells : Reader.Told #[] frames told table

theorem batchEmpty : Batch {} [] [] := ⟨StringPool.emptyConsistent, Nat.le_refl _, .nil⟩

theorem emittedNothing : Emitted ({} : Writer).out [] [] #[] := by
  refine ⟨⟨?_, by simp⟩, .nil #[]⟩
  rw [Reader.fileWith, List.flatMap_nil, List.append_nil, ← Reader.preambleWritten]

namespace Writer
variable {w w' : Writer} {fs : List Framed}

theorem putOk {f : Framed} (ran : put f w = .ok () w') :
    f.Small ∧ w' = { w with out := w.out ++ Wire.ofBytes f.octets } := by
  obtain ⟨bytes, between, framed, rest⟩ := bindOkSource ran
  cases made : f.bytes with
  | error e =>
    rw [made] at framed
    cases framed
  | ok octets =>
    rw [made] at framed
    obtain ⟨small, rfl⟩ := framedBytesSmall made
    cases framed
    cases rest
    exact ⟨small, rfl⟩

theorem putsOk (ran : fs.forM put w = .ok () w') :
    (∀ f ∈ fs, f.Small) ∧
      w' = { w with out := w.out ++ Wire.ofBytes (fs.flatMap Framed.octets) } := by
  induction fs generalizing w with
  | nil =>
    cases ran
    refine ⟨by simp, ?_⟩
    have nothing : Wire.ofBytes (List.flatMap Framed.octets []) = ByteArray.empty := rfl
    rw [nothing, ByteArray.append_empty]
  | cons f fs ih =>
    obtain ⟨_, between, first, later⟩ := bindOkSource ran
    obtain ⟨small, rfl⟩ := putOk first
    obtain ⟨smaller, rfl⟩ := ih later
    refine ⟨?_, ?_⟩
    · intro g mem
      rcases List.mem_cons.mp mem with rfl | inside
      · exact small
      · exact smaller g inside
    · rw [ByteArray.append_assoc, Wire.ofBytesAppend, List.flatMap_cons]

theorem resolveAll {pool : StringPool} {pending : List Pending} {waiting : List Record}
    (stand : List.Forall₂ (Pending.StandsFor pool) pending waiting)
    (few : pool.strings.size ≤ UInt32.size) :
    ∃ frames, pending.mapM (Pending.resolve pool.resolutions) = .ok frames ∧
      ∀ t : Array String, (∀ f ∈ frames, f.Small) →
        (pool.table = [] ∨ t = pool.table.toArray) → Reader.Told t frames waiting t := by
  induction stand with
  | nil => exact ⟨[], rfl, fun t _ _ => .nil t⟩
  | cons head _ ih =>
    obtain ⟨f, resolved, _, tells⟩ := resolveTells head few
    obtain ⟨frames, rest, told⟩ := ih
    refine ⟨f :: frames, ?_, fun t small table => ?_⟩
    · rw [List.mapM_cons, resolved, rest]
      rfl
    · exact .record (tells t (small f List.mem_cons_self) table)
        (told t (fun g mem => small g (List.mem_cons_of_mem _ mem)) table)

def batchFrames (table : List String) (frames : List Framed) : List Framed :=
  if table.isEmpty then frames
  else .ofFields .stringTable (StringTable.toFields table) :: frames

theorem batchTold {table : List String} {frames : List Framed} {waiting : List Record}
    (small : ∀ f ∈ batchFrames table frames, f.Small) (before : Array String)
    (told : ∀ t : Array String, (∀ f ∈ frames, f.Small) → (table = [] ∨ t = table.toArray) →
      Reader.Told t frames waiting t) :
    ∃ after, Reader.Told before (batchFrames table frames) waiting after := by
  unfold batchFrames at small ⊢
  split
  · rename_i empty
    rw [if_pos empty] at small
    exact ⟨before, told before small (.inl (List.isEmpty_iff.mp empty))⟩
  · rename_i something
    rw [if_neg something] at small
    have tableSmall := small _ List.mem_cons_self
    have spoken : Reader.said before
        (Framed.ofFields .stringTable (StringTable.toFields table)).payload.data.toList
        (some .stringTable) = (.ok none, table.toArray) := by
      simp only [Reader.said, Framed.ofFields,
        stringTableReadsBack table (Nat.lt_of_le_of_lt tableSmall (by decide))]
    exact ⟨table.toArray, .silent spoken (told table.toArray
      (fun f mem => small f (List.mem_cons_of_mem _ mem)) (.inr rfl))⟩

theorem flushPuts {frames : List Framed}
    (resolved : w.pending.toList.mapM (Pending.resolve w.pool.resolutions) = .ok frames) :
    flush w = (batchFrames w.pool.table frames).forM put
      { w with pool := {}, pending := #[] } := by
  have taken : flush w = (do
      let frames ← ofExcept (w.pending.toList.mapM (Pending.resolve w.pool.resolutions))
      unless w.pool.table.isEmpty do
        put (.ofFields .stringTable (StringTable.toFields w.pool.table))
      frames.forM put : Writing Unit) { w with pool := {}, pending := #[] } := rfl
  rw [taken, resolved, batchFrames]
  split
  · rfl
  · rfl

theorem flushEmits {frames : List Framed} {told waiting : List Record} {table : Array String}
    (ran : flush w = .ok () w') (emitted : Emitted w.out frames told table)
    (batch : Batch w.pool w.pending.toList waiting) (few : w.pending.size ≤ UInt32.size) :
    ∃ frames' table', Emitted w'.out frames' (told ++ waiting) table' ∧
      w'.pool = {} ∧ w'.pending = #[] := by
  have fewStrings : w.pool.strings.size ≤ UInt32.size :=
    Nat.le_trans batch.few (Nat.le_trans (Nat.le_of_eq Array.length_toList) few)
  obtain ⟨own, resolved, tells⟩ := resolveAll batch.stand fewStrings
  rw [flushPuts resolved] at ran
  obtain ⟨small, rfl⟩ := putsOk ran
  obtain ⟨table', told'⟩ := batchTold small table tells
  refine ⟨frames ++ batchFrames w.pool.table own, table', ⟨⟨?_, ?_⟩, ?_⟩, rfl, rfl⟩
  · show w.out ++ _ = _
    rw [emitted.bytes, Reader.fileWith, Wire.ofBytesAppend, Reader.fileWith, List.flatMap_append,
      List.append_assoc]
  · intro f mem
    exact (List.mem_append.mp mem).elim (emitted.small f) (small f)
  · exact Reader.toldAppend emitted.tells told'

theorem stageWaits {r : Record} {waiting : List Record} (ran : stage r w = .ok () w')
    (batch : Batch w.pool w.pending.toList waiting) :
    Batch w'.pool w'.pending.toList (waiting ++ [r]) ∧ w'.out = w.out ∧
      w'.pending.size = w.pending.size + 1 := by
  have joins {p : Pending} (stands : p.StandsFor w.pool r) :
      Batch w.pool (w.pending.push p).toList (waiting ++ [r]) := by
    refine ⟨batch.consistent, ?_, ?_⟩
    · rw [Array.toList_push, List.length_append]
      exact Nat.le_trans batch.few (Nat.le_add_right _ _)
    · rw [Array.toList_push]
      exact List.rel_append batch.stand (.cons stands .nil)
  cases r with
  | symbol row =>
    cases ran
    refine ⟨⟨StringPool.internConsistent batch.consistent row.key, ?_, ?_⟩, rfl,
      Array.size_push _⟩
    · rw [Array.toList_push, List.length_append]
      exact Nat.le_trans (StringPool.internSize w.pool row.key) (Nat.succ_le_succ batch.few)
    · rw [Array.toList_push]
      refine List.rel_append (batch.stand.imp fun p r stands => standsForInterned stands row.key)
        (.cons (.symbol (StringPool.internNames batch.consistent row.key)) .nil)
  | typeInfo info =>
    cases ran
    exact ⟨joins (.typeInfo info), rfl, Array.size_push _⟩
  | vtable table =>
    cases ran
    exact ⟨joins (.vtable table), rfl, Array.size_push _⟩
  | index entry =>
    obtain ⟨m, between, made, rest⟩ := bindOkSource ran
    cases written : IndexMessage.ofRecord entry with
    | error e =>
      rw [written] at made
      cases made
    | ok message =>
      rw [written] at made
      cases made
      cases rest
      exact ⟨joins (.index written), rfl, Array.size_push _⟩

/- What a writer holds between two records: all records so far, in the file or waiting. The memory
that waiting messages may take keeps their number far below 32 bits. -/
structure Holds (w : Writer) (records : List Record) : Prop where
  split : ∃ frames told waiting table, Emitted w.out frames told table ∧
    Batch w.pool w.pending.toList waiting ∧ records = told ++ waiting
  room : w.pending.size * pendingSize < pendingLimit

theorem freshHolds : Holds {} [] :=
  ⟨⟨[], [], [], #[], emittedNothing, batchEmpty, rfl⟩, by decide⟩

theorem pendingFew {count : Nat} (room : count * pendingSize < pendingLimit) :
    count + 1 ≤ UInt32.size := by
  simp only [pendingSize, pendingLimit, UInt32.size] at room ⊢
  omega

theorem writeHolds {r : Record} {records : List Record} (ran : write r w = .ok () w')
    (holds : w.Holds records) : w'.Holds (records ++ [r]) := by
  obtain ⟨⟨frames, told, waiting, table, emitted, batch, rfl⟩, room⟩ := holds
  obtain ⟨_, staged, first, rest⟩ := bindOkSource ran
  obtain ⟨joined, same, size⟩ := stageWaits first batch
  rw [← same] at emitted
  have few : staged.pending.size ≤ UInt32.size := by
    rw [size]
    exact pendingFew room
  have check : (if staged.isFull then flush else pure ()) staged = .ok () w' := rest
  by_cases full : staged.isFull = true
  · rw [if_pos full] at check
    obtain ⟨frames', table', emitted', pool, pending⟩ := flushEmits check emitted joined few
    refine ⟨⟨frames', _, [], table', emitted', ?_, ?_⟩, ?_⟩
    · rw [pool, pending]
      exact batchEmpty
    · rw [List.append_nil, List.append_assoc]
    · rw [pending]
      decide
  · rw [if_neg full] at check
    have under : staged.pending.size * pendingSize < pendingLimit := by
      refine Nat.lt_of_not_le fun reached => full ?_
      rw [isFull, Bool.or_eq_true]
      exact .inr (decide_eq_true reached)
    cases check
    exact ⟨⟨frames, told, _, table, emitted, joined, List.append_assoc _ _ _⟩, under⟩

theorem writesHold {rs records : List Record} (ran : rs.forM write w = .ok () w')
    (holds : w.Holds records) : w'.Holds (records ++ rs) := by
  induction rs generalizing w records with
  | nil =>
    cases ran
    rw [List.append_nil]
    exact holds
  | cons r rs ih =>
    obtain ⟨_, between, first, later⟩ := bindOkSource ran
    have all := ih later (writeHolds first holds)
    rw [List.append_assoc] at all
    exact all

theorem fileEmitted {records : List Record} {bytes : ByteArray} (ok : fileOf records = .ok bytes) :
    ∃ frames table, Emitted bytes frames records table := by
  unfold fileOf at ok
  split at ok
  · rename_i result w ran
    cases ok
    obtain ⟨_, between, all, last⟩ := bindOkSource ran
    have holds := writesHold all freshHolds
    obtain ⟨⟨frames, told, waiting, table, emitted, batch, split⟩, room⟩ := holds
    obtain ⟨frames', table', emitted', _, _⟩ := flushEmits last emitted batch
      (Nat.le_of_succ_le (pendingFew room))
    rw [← split, List.nil_append] at emitted'
    exact ⟨frames', table', emitted'⟩
  · cases ok

end Writer
end CxxSymbols.Store
