import CxxSymbols.Proofs.Store.Attempts
/-! A write that fails leaves the file whole. The messages of a batch up to one that is too large are
in the file, behind their own table, and of that one there is nothing; later batches are laid out as
if it had not been there. -/
namespace CxxSymbols.Store
open Stateful

def fileDespite (records : List Record) : List (Option StoreError) × Except StoreError ByteArray :=
  let (errors, w) := Writer.attempts records {}
  (errors,
    match Writer.flush w with
    | .ok _ w => .ok w.out
    | .error e _ => .error e)

namespace Writer
variable {w : Writer} {batch : List Record}

theorem standsAt {pool : StringPool} {pending : List Pending} {rs : List Record}
    (stand : List.Forall₂ (Pending.StandsFor pool) pending rs) :
    ∀ r ∈ rs, ∃ p : Pending, p.StandsFor pool r := by
  induction stand with
  | nil => exact nofun
  | cons head _ ih => exact List.forall_mem_cons.mpr ⟨⟨_, head⟩, ih⟩

theorem dueStrings (due : w.Due batch) : w.pool.strings.size ≤ UInt32.size := by
  have few := due.few
  rw [waitsSize due.waits] at few
  rw [StringPool.countsStrings due.waits.counts]
  exact Nat.le_trans (StringPool.distinctFewer _)
    (Nat.le_trans (List.length_filterMap_le _ _) few)

theorem framedTold (due : w.Due batch) {rs : List Record} (within : ∀ r ∈ rs, r ∈ batch)
    {t : Array String} (small : ∀ f ∈ rs.map (Record.framed (keysOf batch)), f.Small)
    (table : StringPool.shared (keysOf batch) = [] ∨
      t = (StringPool.shared (keysOf batch)).toArray) :
    Reader.Told t (rs.map (Record.framed (keysOf batch))) rs t := by
  induction rs with
  | nil => exact .nil t
  | cons r rs ih =>
    rw [List.map_cons] at small ⊢
    obtain ⟨here, later⟩ := List.forall_mem_cons.mp small
    obtain ⟨p, stands⟩ := standsAt due.waits.stand r (within r List.mem_cons_self)
    obtain ⟨f, resolved, _, tells⟩ := resolveTells stands (dueStrings due)
    cases (resolveFramed due.waits.counts stands).symm.trans resolved
    rw [StringPool.countsTable due.waits.counts] at tells
    exact .record (tells t here table) (ih (fun s mem => within s (List.mem_cons_of_mem _ mem)) later)

theorem laidOutSmall (due : w.Due batch) : ∀ f ∈ laidOut batch, f.Small := by
  have fits := StringPool.fitsSmall due.fits
  rw [StringPool.framed, StringPool.countsTable due.waits.counts] at fits
  have own : ∀ f ∈ (lasting batch).map (Record.framed (keysOf batch)), f.Small := by
    intro f mem
    obtain ⟨r, lasts, rfl⟩ := List.mem_map.mp mem
    rw [lasting] at lasts
    have fits := List.mem_takeWhile_imp lasts
    exact of_decide_eq_true fits
  rw [laidOut, batchFrames]
  split
  · exact own
  · exact List.forall_mem_cons.mpr ⟨fits, own⟩

theorem laidOutTold (due : w.Due batch) (before : Array String) :
    ∃ after, Reader.Told before (laidOut batch) (lasting batch) after :=
  batchTold (laidOutSmall due) before fun _ small table =>
    framedTold due (fun _ mem => (List.takeWhile_prefix _).subset mem) small table

theorem batchesTold {batches : List (List Record)} (due : ∀ b ∈ batches, ∃ w : Writer, w.Due b)
    (before : Array String) :
    ∃ after, Reader.Told before (batches.flatMap laidOut) (batches.flatMap lasting) after := by
  induction batches generalizing before with
  | nil => exact ⟨before, .nil before⟩
  | cons b batches ih =>
    obtain ⟨⟨w, here⟩, later⟩ := List.forall_mem_cons.mp due
    obtain ⟨between, first⟩ := laidOutTold here before
    obtain ⟨after, rest⟩ := ih later between
    exact ⟨after, Reader.toldAppend first rest⟩

theorem batchesEmitted {batches : List (List Record)} (due : ∀ b ∈ batches, ∃ w : Writer, w.Due b)
    {out : ByteArray} (written : out = ({} : Writer).out ++
      Wire.ofBytes ((batches.flatMap laidOut).flatMap Framed.octets)) :
    ∃ table, Emitted out (batches.flatMap laidOut) (batches.flatMap lasting) table := by
  obtain ⟨table, told⟩ := batchesTold due #[]
  refine ⟨table, ⟨?_, fun f mem => ?_⟩, told⟩
  · rw [written, emittedNothing.bytes, Reader.fileWith, List.flatMap_nil, List.append_nil,
      Wire.ofBytesAppend, Reader.fileWith]
  · obtain ⟨b, inside, mem⟩ := List.mem_flatMap.mp mem
    obtain ⟨w, here⟩ := due b inside
    exact laidOutSmall here f mem

end Writer

/-! ### The file -/

def batchesOf (records : List Record) : List (List Record) :=
  (account [] records).ended ++ [(account [] records).waiting]

def framesOf (records : List Record) : List Framed := (batchesOf records).flatMap laidOut

def keptOf (records : List Record) : List Record := (batchesOf records).flatMap lasting

theorem batchesDue (records : List Record) : ∀ b ∈ batchesOf records, ∃ w : Writer, w.Due b := by
  have keeps := Writer.attemptsKeep Writer.freshBetween records
  intro b mem
  rcases List.mem_append.mp mem with ended | last
  · exact keeps.due b ended
  · cases List.mem_singleton.mp last
    exact ⟨_, Writer.betweenDue keeps.between⟩

theorem despiteFile (records : List Record) :
    fileDespite records = ((account [] records).errors,
      match overflow? (account [] records).waiting with
      | none => .ok (({} : Writer).out ++
          Wire.ofBytes ((framesOf records).flatMap Framed.octets))
      | some e => .error e) := by
  have keeps := Writer.attemptsKeep Writer.freshBetween records
  have last := Writer.flushDue (Writer.betweenDue keeps.between)
  rw [keeps.out, ByteArray.append_assoc, Wire.ofBytesAppend, ← List.flatMap_append] at last
  have all : (account [] records).ended.flatMap laidOut ++ laidOut (account [] records).waiting =
      framesOf records := by
    rw [framesOf, batchesOf, List.flatMap_append, List.flatMap_singleton]
  rw [all] at last
  refine Prod.ext keeps.errors ?_
  simp only [fileDespite]
  cases ran : Writer.flush (Writer.attempts records {}).2 with
  | ok _ w =>
    rw [Writer.attempt, ran] at last
    obtain ⟨nothing, rfl⟩ := Prod.mk.inj last
    rw [← nothing]
  | error e w =>
    rw [Writer.attempt, ran] at last
    obtain ⟨error, rfl⟩ := Prod.mk.inj last
    rw [← error]

theorem attemptsOk {records : List Record} {w w' : Writer}
    (ran : records.forM Writer.write w = .ok () w') :
    Writer.attempts records w = (records.map fun _ => none, w') := by
  induction records generalizing w with
  | nil =>
    cases ran
    rfl
  | cons r rest ih =>
    obtain ⟨_, between, first, later⟩ := bindOkSource ran
    simp only [Writer.attempts, Writer.attempt, first, ih later, List.map_cons]

theorem despiteOk {records : List Record} {bytes : ByteArray} (written : fileOf records = .ok bytes) :
    fileDespite records = (records.map fun _ => none, .ok bytes) := by
  unfold fileOf at written
  split at written
  · rename_i result w ran
    cases written
    obtain ⟨_, between, all, last⟩ := bindOkSource ran
    simp only [fileDespite, attemptsOk all, last]
  · cases written

theorem despiteEmitted {records : List Record} {bytes : ByteArray}
    (finished : (fileDespite records).2 = .ok bytes) :
    overflow? (account [] records).waiting = none ∧ ∃ table,
      Emitted bytes (framesOf records) (keptOf records) table := by
  rw [despiteFile] at finished
  split at finished
  · rename_i fine
    exact ⟨fine, Writer.batchesEmitted (batchesDue records) (Except.ok.inj finished).symm⟩
  · cases finished

/- Whatever failed on the way, a file that is finished opens, and gives the records that were not
refused, less those of a batch from the first that is too large. Of each batch that such a record
ended, and of each that was refused, there is an error. -/
theorem errorsLeaveRecords {records : List Record} {bytes : ByteArray}
    (finished : (fileDespite records).2 = .ok bytes) :
    (fileDespite records).1 = (account [] records).errors ∧
      (batchesOf records).flatten = records.filter (fun r => ¬r.Refused) ∧
      lasting (account [] records).waiting = (account [] records).waiting ∧
      ∃ reader, Reader.ofFile bytes = .ok reader ∧ reader.Yields (keptOf records) ∧
        reader.records = (keptOf records, none) := by
  obtain ⟨fine, table, emitted⟩ := despiteEmitted finished
  refine ⟨congrArg Prod.fst (despiteFile records), ?_, lastingAll fine,
    Reader.fileTold emitted.toMadeOf emitted.tells⟩
  rw [batchesOf, List.flatten_append, List.flatten_singleton]
  exact accountBatches [] records

theorem overflowLight {w : Writer} {batch : List Record} (waits : w.Waits batch)
    (light : ∀ r ∈ batch, r.Light) : overflow? batch = none := by
  have small := Writer.resolvedSmall waits.stand light (Writer.resolveWaiting waits)
  rw [overflow?, Option.map_eq_none_iff, List.find?_eq_none]
  intro r mem
  simpa using small _ (List.mem_map_of_mem mem)

theorem aloneLarge (row : SymbolRow) :
    row.key.utf8ByteSize < ((Record.symbol row).framed (keysOf [.symbol row])).payload.size := by
  have inlined : KeyField.within (keysOf [.symbol row]) row.key = .text row.key := by
    have once : (keysOf [.symbol row]).count row.key = 1 := List.count_singleton_self
    rw [KeyField.within, once, if_neg (Nat.lt_irrefl 1)]
  have bytes : row.key.toUTF8.data.toList.length = row.key.utf8ByteSize := Wire.toListLength _
  have tag := Wire.varintSizePositive (2 * 8 + 2)
  rw [Record.framed, inlined, Framed.ofFields, Wire.encodeFields, Wire.sizeOfBytes]
  simp only [SymbolMessage.toFields, KeyField.toFields, List.flatMap_append,
    List.flatMap_singleton, Wire.Field.octets, List.length_append]
  omega

theorem giantLarge : ¬((Record.symbol giant).framed (keysOf [.symbol giant])).Small := by
  have longer := aloneLarge giant
  rw [giantLength] at longer
  exact Nat.not_le.mpr longer

theorem giantOverflows : overflow? [.symbol giant] = some (.maximumSizeExceeded
    ((Record.symbol giant).framed (keysOf [.symbol giant])).payload.size) := by
  rw [overflow?, List.find?_cons_of_pos (by simpa using giantLarge), Option.map_some]

theorem giantLost : lasting [.symbol giant] = [] := by
  rw [lasting, List.takeWhile_cons_of_neg (by simpa using giantLarge)]

def survivor : Record := .symbol ⟨"f()", "_Z1fv", "f()", .function, .elf, 0x1000⟩

def survivors : List Record := [.index ⟨"f", [1, 0]⟩, .symbol giant, survivor]

theorem survivorsAccount : account [] survivors =
    ⟨[some .postingsNotSorted, overflow? [.symbol giant], none], [[.symbol giant]], [survivor]⟩ := by
  have descending : (Record.index ⟨"f", [1, 0]⟩).Refused := by decide
  have giantTaken : ¬(Record.symbol giant).Refused := id
  have taken : ¬survivor.Refused := id
  have room : ¬Full [survivor] := by decide
  rw [survivors, account, if_pos descending, account, if_neg giantTaken, List.nil_append,
    if_pos giantFull, account, if_neg taken, List.nil_append, if_neg room, account]

theorem survivorFits : overflow? [survivor] = none := by
  have waits := (Writer.attemptsKeep Writer.freshBetween survivors).between.waits
  rw [survivorsAccount] at waits
  refine overflowLight waits fun r mem => ?_
  cases List.mem_singleton.mp mem
  exact symbolLight (by decide)

theorem survivorsFinished : ∃ bytes, (fileDespite survivors).2 = .ok bytes := by
  rw [despiteFile, survivorsAccount]
  simp only [survivorFits]
  exact ⟨_, rfl⟩

theorem survivorsKept : keptOf survivors = [survivor] := by
  rw [keptOf, batchesOf, survivorsAccount, List.singleton_append, List.flatMap_cons,
    List.flatMap_singleton, giantLost, lastingAll survivorFits, List.nil_append]

theorem survivorReadsBack : ∃ bytes, (fileDespite survivors).2 = .ok bytes ∧
    (∃ n, (fileDespite survivors).1 =
      [some .postingsNotSorted, some (.maximumSizeExceeded n), none]) ∧
    ∃ reader, Reader.ofFile bytes = .ok reader ∧ reader.records = ([survivor], none) := by
  obtain ⟨bytes, finished⟩ := survivorsFinished
  obtain ⟨errors, _, _, reader, opened, _, reads⟩ := errorsLeaveRecords finished
  rw [survivorsAccount, giantOverflows] at errors
  rw [survivorsKept] at reads
  exact ⟨bytes, finished, ⟨_, errors⟩, reader, opened, reads⟩

end CxxSymbols.Store
