import CxxSymbols.Proofs.Store.Layout
/-! Writing on after errors. Whatever the records are and whatever came of them, the table of a batch
that ends fits a message: a key that passes the threshold ends its batch at once, so it has come
only once and stays out of the table. -/
namespace CxxSymbols.Store
open Stateful

def Record.Refused : Record → Prop
  | index entry => ¬entry.ordinals.Pairwise (· < ·)
  | _ => False

instance : DecidablePred Record.Refused := fun r =>
  match r with
  | .symbol _ | .typeInfo _ | .vtable _ => isFalse id
  | .index entry => inferInstanceAs (Decidable (¬entry.ordinals.Pairwise (· < ·)))

def Full (batch : List Record) : Prop :=
  stringTableThreshold ≤ StringPool.tableRoom (StringPool.distinct (keysOf batch)) ∨
    pendingLimit ≤ batch.length * pendingSize

instance : DecidablePred Full := fun _ => inferInstanceAs (Decidable (_ ∨ _))

def StringPool.framed (pool : StringPool) : Framed :=
  .ofFields .stringTable (StringTable.toFields pool.table)

abbrev StringPool.Fits (pool : StringPool) : Prop :=
  pool.framed.payload.size < stringTableThreshold

theorem StringPool.fitsSmall {pool : StringPool} (fits : pool.Fits) : pool.framed.Small :=
  Nat.le_trans (Nat.le_of_lt fits) (Nat.sub_le _ _)

namespace StringPool

theorem roomyBelow {pool : StringPool} (counted : tableRoom pool.texts ≤ pool.size)
    (below : pool.size < stringTableThreshold) : pool.Roomy := by
  have each {ss : List String} {s : String} (mem : s ∈ ss) : s.utf8ByteSize ≤ tableRoom ss := by
    induction ss with
    | nil => cases mem
    | cons t ss ih =>
      rw [tableRoom]
      rcases List.mem_cons.mp mem with rfl | later
      · omega
      · exact Nat.le_trans (ih later) (Nat.le_add_left _ _)
  refine ⟨counted, fun s mem => ?_⟩
  have within := Nat.lt_of_le_of_lt (Nat.le_trans (each mem) counted) below
  exact Nat.lt_trans within (by decide)

theorem fitsBelow {pool : StringPool} (counted : tableRoom pool.texts ≤ pool.size)
    (below : pool.size < stringTableThreshold) : pool.Fits :=
  Nat.lt_of_le_of_lt (tableFits (roomyBelow counted below)) below

theorem namedOfResolved {pool : StringPool} {n : Nat} {r : Resolution}
    (found : pool.resolutions[n]? = some r) : ∃ s, pool.string? n = some s := by
  rw [resolutions, List.getElem?_toArray] at found
  obtain ⟨inside, _⟩ := List.getElem?_eq_some_iff.mp found
  rw [resolutionsLength, Array.length_toList] at inside
  exact ⟨_, by rw [string?, Array.getElem?_eq_getElem inside, Option.map_some]⟩

theorem internTable (pool : StringPool) (s : String) :
    (pool.intern s).2.table = pool.table ∨
      (pool.intern s).2.texts = pool.texts ∧ (pool.intern s).2.size = pool.size := by
  unfold intern
  split
  · refine .inr ⟨List.ext_getElem? fun n => ?_, rfl⟩
    rw [textAt, textAt]
    exact stringOfCounted pool _ n
  · refine .inl ?_
    simp [table]

end StringPool

namespace Writer
variable {w w' : Writer} {batch : List Record} {r : Record}

/-! ### One record -/

theorem stageRefused (refused : r.Refused) (w : Writer) :
    stage r w = .error .postingsNotSorted w := by
  cases r with
  | symbol row => exact refused.elim
  | typeInfo info => exact refused.elim
  | vtable table => exact refused.elim
  | index entry =>
    have none : IndexMessage.deltas? entry.ordinals = none := by
      refine Option.eq_none_iff_forall_ne_some.mpr fun deltas some => ?_
      exact refused (IndexMessage.ascendingOfDeltas some)
    refine bindError ?_
    rw [IndexMessage.ofRecord, none]
    rfl

theorem stageAccepted (accepted : ¬r.Refused) (w : Writer) : ∃ w', stage r w = .ok () w' := by
  cases r with
  | symbol row => exact ⟨_, rfl⟩
  | typeInfo info => exact ⟨_, rfl⟩
  | vtable table => exact ⟨_, rfl⟩
  | index entry =>
    obtain ⟨deltas, some, _⟩ := IndexMessage.deltasOfAscending (not_not.mp accepted)
    refine ⟨_, bindOk (a := ⟨entry.token, deltas⟩) (t := w) ?_⟩
    rw [IndexMessage.ofRecord, some]
    rfl

theorem stageWaiting (waits : w.Waits batch) (ran : stage r w = .ok () w') :
    w'.Waits (batch ++ [r]) ∧ w'.out = w.out := by
  obtain ⟨joined, same, _⟩ := stageWaits ran (waitsBatch waits)
  refine ⟨⟨?_, joined.stand⟩, same⟩
  have keys : keysOf (batch ++ [r]) = keysOf batch ++ r.key?.toList := by
    rw [keysOf, List.filterMap_append]
    cases r <;> rfl
  have keyless (none : r.key? = none) : keysOf (batch ++ [r]) = keysOf batch := by
    rw [keys, none, Option.toList_none, List.append_nil]
  cases r with
  | symbol row =>
    cases ran
    rw [keys]
    exact StringPool.internCounts waits.counts row.key
  | typeInfo info =>
    cases ran
    rw [keyless rfl]
    exact waits.counts
  | vtable table =>
    cases ran
    rw [keyless rfl]
    exact waits.counts
  | index entry =>
    obtain ⟨m, between, made, rest⟩ := bindOkSource ran
    cases written : IndexMessage.ofRecord entry with
    | error e =>
      rw [written] at made
      cases made
    | ok message =>
      rw [written] at made
      cases made
      cases rest
      rw [keyless rfl]
      exact waits.counts

theorem fullOf (waits : w.Waits batch) : w.isFull = true ↔ Full batch := by
  rw [isFull, Bool.or_eq_true, decide_eq_true_iff, decide_eq_true_iff, Full, waits.counts.size,
    waitsSize waits]

theorem countedOf (waits : w.Waits batch) :
    StringPool.tableRoom w.pool.texts ≤ w.pool.size := by
  rw [StringPool.countsTexts waits.counts, waits.counts.size]

structure Between (w : Writer) (batch : List Record) : Prop where
  waits : w.Waits batch
  room : ¬Full batch

theorem betweenBelow (between : w.Between batch) : w.pool.size < stringTableThreshold := by
  rw [between.waits.counts.size]
  exact Nat.lt_of_not_le fun full => between.room (.inl full)

theorem betweenFits (between : w.Between batch) : w.pool.Fits :=
  StringPool.fitsBelow (countedOf between.waits) (betweenBelow between)

/- The record that fills its batch adds no entry to the table, or nothing to its size. -/
theorem stagedFits (between : w.Between batch) (ran : stage r w = .ok () w') : w'.pool.Fits := by
  have fits := betweenFits between
  rcases stagePool ran with same | ⟨row, rfl, grown⟩
  · rw [same]
    exact fits
  · rw [grown]
    rcases StringPool.internTable w.pool row.key with table | ⟨texts, size⟩
    · rw [StringPool.Fits, StringPool.framed, table]
      exact fits
    · refine StringPool.fitsBelow ?_ ?_
      · rw [texts, size]
        exact countedOf between.waits
      · rw [size]
        exact betweenBelow between

structure Due (w : Writer) (batch : List Record) : Prop where
  waits : w.Waits batch
  fits : w.pool.Fits
  few : w.pending.size ≤ UInt32.size

theorem betweenFew (between : w.Between batch) : w.pending.size + 1 ≤ UInt32.size := by
  refine pendingFew (Nat.lt_of_not_le fun full => between.room (.inr ?_))
  rw [← waitsSize between.waits]
  exact full

theorem betweenDue (between : w.Between batch) : w.Due batch :=
  ⟨between.waits, betweenFits between, Nat.le_of_succ_le (betweenFew between)⟩

theorem stagedDue (between : w.Between batch) (ran : stage r w = .ok () w') :
    w'.Due (batch ++ [r]) := by
  refine ⟨(stageWaiting between.waits ran).1, stagedFits between ran, ?_⟩
  rw [(stageWaits ran (waitsBatch between.waits)).2.2]
  exact betweenFew between

theorem flushDue (due : w.Due batch) : attempt flush w =
    (overflow? batch, ⟨w.out ++ Wire.ofBytes ((laidOut batch).flatMap Framed.octets), {}, #[]⟩) :=
  flushBatch due.waits (StringPool.fitsSmall due.fits)

/-! ### Writing a record -/

theorem betweenNothing (out : ByteArray) : Between ⟨out, {}, #[]⟩ [] :=
  ⟨waitsNothing out, by decide⟩

theorem writeRefused (refused : r.Refused) (w : Writer) :
    attempt (write r) w = (some .postingsNotSorted, w) := by
  have stopped : write r w = .error .postingsNotSorted w := bindError (stageRefused refused w)
  rw [attempt, stopped]

theorem writeStaged (ran : stage r w = .ok () w') :
    write r w = (if w'.isFull then flush else pure ()) w' := bindOk ran

theorem writeWaits (accepted : ¬r.Refused) (between : w.Between batch)
    (room : ¬Full (batch ++ [r])) :
    ∃ w', attempt (write r) w = (none, w') ∧ w'.Between (batch ++ [r]) ∧ w'.out = w.out := by
  obtain ⟨w', staged⟩ := stageAccepted accepted w
  obtain ⟨waits, same⟩ := stageWaiting between.waits staged
  refine ⟨w', ?_, ⟨waits, room⟩, same⟩
  rw [attempt, writeStaged staged, if_neg fun full => room ((fullOf waits).mp full)]
  rfl

theorem writeEnds (accepted : ¬r.Refused) (between : w.Between batch)
    (full : Full (batch ++ [r])) :
    (∃ w', Due w' (batch ++ [r])) ∧ attempt (write r) w = (overflow? (batch ++ [r]),
      ⟨w.out ++ Wire.ofBytes ((laidOut (batch ++ [r])).flatMap Framed.octets), {}, #[]⟩) := by
  obtain ⟨w', staged⟩ := stageAccepted accepted w
  obtain ⟨waits, same⟩ := stageWaiting between.waits staged
  have due := stagedDue between staged
  refine ⟨⟨w', due⟩, ?_⟩
  rw [attempt, writeStaged staged, if_pos ((fullOf waits).mpr full), ← attempt, flushDue due, same]

/-! ### Writing records -/

def attempts : List Record → Writer → List (Option StoreError) × Writer
  | [], w => ([], w)
  | r :: rest, w =>
    let (error, w) := attempt (write r) w
    let (errors, w) := attempts rest w
    (error :: errors, w)

end Writer

/- What comes of records that are written one by one: an error or none for each, the batches that
have ended, and the batch that waits. -/
structure Account where
  errors : List (Option StoreError)
  ended : List (List Record)
  waiting : List Record

def account (batch : List Record) : List Record → Account
  | [] => ⟨[], [], batch⟩
  | r :: rest =>
    if r.Refused then
      let behind := account batch rest
      { behind with errors := some .postingsNotSorted :: behind.errors }
    else if Full (batch ++ [r]) then
      let behind := account [] rest
      { behind with
        errors := overflow? (batch ++ [r]) :: behind.errors
        ended := (batch ++ [r]) :: behind.ended }
    else
      let behind := account (batch ++ [r]) rest
      { behind with errors := none :: behind.errors }

theorem accountBatches (batch records : List Record) :
    (account batch records).ended.flatten ++ (account batch records).waiting =
      batch ++ records.filter fun r => ¬r.Refused := by
  induction records generalizing batch with
  | nil => exact (List.append_nil batch).symm
  | cons r rest ih =>
    rw [account]
    by_cases refused : r.Refused
    · rw [if_pos refused, List.filter_cons_of_neg (by simpa using refused)]
      exact ih batch
    · rw [if_neg refused, List.filter_cons_of_pos (by simpa using refused)]
      by_cases full : Full (batch ++ [r])
      · rw [if_pos full, List.flatten_cons, List.append_assoc, ih []]
        simp only [List.nil_append, List.append_assoc, List.cons_append]
      · rw [if_neg full]
        refine (ih (batch ++ [r])).trans ?_
        simp only [List.append_assoc, List.cons_append, List.nil_append]

namespace Writer
variable {w : Writer} {batch : List Record}

structure Keeps (w : Writer) (result : List (Option StoreError) × Writer) (a : Account) :
    Prop where
  errors : result.1 = a.errors
  out : result.2.out = w.out ++ Wire.ofBytes ((a.ended.flatMap laidOut).flatMap Framed.octets)
  between : result.2.Between a.waiting
  due : ∀ batch ∈ a.ended, ∃ w', Due w' batch

theorem attemptsKeep (between : w.Between batch) (records : List Record) :
    w.Keeps (attempts records w) (account batch records) := by
  induction records generalizing w batch with
  | nil => exact ⟨rfl, ByteArray.append_empty.symm, between, nofun⟩
  | cons r rest ih =>
    rw [attempts, account]
    by_cases refused : r.Refused
    · rw [if_pos refused, writeRefused refused]
      obtain ⟨errors, out, later, due⟩ := ih between
      exact ⟨congrArg (_ :: ·) errors, out, later, due⟩
    · rw [if_neg refused]
      by_cases full : Full (batch ++ [r])
      · obtain ⟨here, written⟩ := writeEnds refused between full
        rw [if_pos full, written]
        obtain ⟨errors, out, later, due⟩ := ih (betweenNothing _)
        refine ⟨congrArg (_ :: ·) errors, out.trans ?_, later, ?_⟩
        · rw [List.flatMap_cons, List.flatMap_append, ← Wire.ofBytesAppend,
            ByteArray.append_assoc]
        · exact List.forall_mem_cons.mpr ⟨here, due⟩
      · obtain ⟨w', written, waits, same⟩ := writeWaits refused between full
        rw [if_neg full, written]
        obtain ⟨errors, out, later, due⟩ := ih waits
        exact ⟨congrArg (_ :: ·) errors, out.trans (by rw [same]), later, due⟩

theorem freshBetween : Between {} [] := betweenNothing _

/-! ### Ending a batch -/

inductive Ending (records : List Record) : Writer → Prop where
  | full {before behind : List Record} {r : Record} {w : Writer}
      (split : records = before ++ r :: behind) (staged : stage r (attempts before {}).2 = .ok () w)
      (full : w.isFull = true) : Ending records w
  | last : Ending records (attempts records {}).2

theorem endingDue {records : List Record} (ending : Ending records w) : ∃ batch, w.Due batch := by
  cases ending with
  | @full before behind r w split staged full =>
    exact ⟨_, stagedDue (attemptsKeep freshBetween before).between staged⟩
  | last => exact ⟨_, betweenDue (attemptsKeep freshBetween records).between⟩

end Writer

def Pending.number? : Pending → Option Nat
  | symbol number _ => some number
  | _ => none

namespace Writer
variable {w : Writer} {batch : List Record}

theorem numbersStand {pool : StringPool} {pending : List Pending} {rs : List Record}
    (stand : List.Forall₂ (Pending.StandsFor pool) pending rs) :
    List.Forall₂ (fun n k => pool.string? n = some k) (pending.filterMap Pending.number?)
      (keysOf rs) := by
  induction stand with
  | nil => exact .nil
  | cons head _ ih =>
    cases head with
    | symbol named => exact .cons named ih
    | typeInfo => exact ih
    | vtable => exact ih
    | index => exact ih

theorem askedAsOften (waits : w.Waits batch) {n : Nat} {k : String}
    (named : w.pool.string? n = some k) :
    (w.pending.toList.filterMap Pending.number?).count n = (keysOf batch).count k := by
  have same {m : Nat} {l : String} (other : w.pool.string? m = some l) : m = n ↔ l = k := by
    rw [StringPool.countsNamed waits.counts] at named other
    constructor
    · rintro rfl
      exact Option.some.inj (other.symm.trans named)
    · rintro rfl
      exact (List.getElem?_inj (List.getElem?_eq_some_iff.mp other).1
        (StringPool.distinctOnce _)).mp (other.trans named.symm)
  have stand := numbersStand waits.stand
  generalize w.pending.toList.filterMap Pending.number? = numbers at stand
  generalize keysOf batch = keys at stand
  induction stand with
  | nil => rfl
  | cons head _ ih =>
    rw [List.count_cons, List.count_cons, ih]
    simp only [beq_iff_eq, same head]

/- Whatever is written and whatever came of it, a batch that ends has a table below the threshold,
its symbols all have their keys, of which none that is written out is asked for twice, and it can
only fail for a record that is too large. -/
theorem tableAlwaysFits {records : List Record} (ending : Ending records w) :
    w.pool.framed.payload.size < stringTableThreshold ∧
      (∀ n s, w.pool.resolutions[n]? = some (.inline s) →
        (w.pending.toList.filterMap Pending.number?).count n ≤ 1) ∧
      ∃ frames, w.pending.toList.mapM (Pending.resolve w.pool.resolutions) = .ok frames ∧
        ∀ e w', flush w = .error e w' →
          ∃ f ∈ frames, maxMessageSize < f.payload.size ∧
            e = .maximumSizeExceeded f.payload.size := by
  obtain ⟨batch, due⟩ := endingDue ending
  refine ⟨due.fits, fun n s inlined => ?_, _, resolveWaiting due.waits, fun e w' failed => ?_⟩
  · obtain ⟨k, named⟩ := StringPool.namedOfResolved inlined
    rw [askedAsOften due.waits named]
    rw [StringPool.countsNamed due.waits.counts] at named
    have comes := (StringPool.countsResolved due.waits.counts named).symm.trans inlined
    by_cases again : 1 < (keysOf batch).count k
    · rw [if_pos again] at comes
      cases comes
    · exact Nat.le_of_not_lt again
  · have ended := flushDue due
    rw [attempt, failed] at ended
    obtain ⟨r, mem, large, same⟩ := overflowSize (congrArg Prod.fst ended).symm
    exact ⟨_, List.mem_map_of_mem mem, Nat.lt_of_not_le large, same⟩

end Writer

theorem roomAlone (row : SymbolRow) :
    StringPool.tableRoom (StringPool.distinct (keysOf [.symbol row])) =
      5 + row.key.utf8ByteSize := rfl

def giant : SymbolRow :=
  ⟨String.ofList (List.replicate maxMessageSize 'a'), "", "", .function, .elf, 0⟩

theorem giantLength : giant.key.utf8ByteSize = maxMessageSize := by
  have repeated (n : Nat) : (String.ofList (List.replicate n 'a')).utf8ByteSize = n := by
    induction n with
    | zero => rfl
    | succ n ih =>
      have one : (String.singleton 'a').utf8ByteSize = 1 := by decide
      rw [List.replicate_succ, String.ofList_cons, String.utf8ByteSize_append, one, ih,
        Nat.add_comm]
  exact repeated maxMessageSize

theorem giantFull : Full [.symbol giant] := by
  left
  rw [roomAlone, giantLength]
  decide

theorem giantTableFits : ∃ w, Writer.Ending [.symbol giant] w ∧ w.pool.size > maxMessageSize ∧
    w.pool.framed.payload.size < stringTableThreshold := by
  have accepted : ¬(Record.symbol giant).Refused := id
  obtain ⟨w, staged⟩ := Writer.stageAccepted accepted {}
  have waits := (Writer.stageWaiting Writer.freshBetween.waits staged).1
  have ending : Writer.Ending [.symbol giant] w :=
    @Writer.Ending.full _ [] [] (.symbol giant) w rfl staged ((Writer.fullOf waits).mpr giantFull)
  refine ⟨w, ending, ?_, (Writer.tableAlwaysFits ending).1⟩
  rw [waits.counts.size, List.nil_append, roomAlone, giantLength]
  decide

end CxxSymbols.Store
