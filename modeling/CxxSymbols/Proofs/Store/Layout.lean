import CxxSymbols.Proofs.Store.Capacity
import Mathlib.Data.List.Induction
import Mathlib.Data.List.Nodup
import Mathlib.Data.List.TakeWhile
/-! How the records of one batch stand in a file. A key that comes more than once in the batch is an
entry of the table in front of it, every other key is written out, and the records follow in their
order. Ending a batch writes this, up to the first message that is too large. -/
namespace CxxSymbols.Store
open Stateful

/-! ### Keys -/

namespace StringPool

def distinct (keys : List String) : List String :=
  keys.foldl (fun known k => if k ∈ known then known else known ++ [k]) []

def shared (keys : List String) : List String :=
  (distinct keys).filter fun k => 1 < keys.count k

theorem distinctNext (keys : List String) (k : String) : distinct (keys ++ [k]) =
    if k ∈ distinct keys then distinct keys else distinct keys ++ [k] := by
  rw [distinct, List.foldl_append]
  rfl

theorem memDistinct {keys : List String} {k : String} : k ∈ distinct keys ↔ k ∈ keys := by
  induction keys using List.reverseRecOn with
  | nil => exact Iff.rfl
  | append_singleton keys last ih =>
    rw [distinctNext, List.mem_append, List.mem_singleton, ← ih]
    split
    · rename_i known
      exact ⟨.inl, fun either => either.elim id fun same => same ▸ known⟩
    · rw [List.mem_append, List.mem_singleton]

theorem distinctOnce (keys : List String) : (distinct keys).Nodup := by
  induction keys using List.reverseRecOn with
  | nil => exact List.nodup_nil
  | append_singleton keys last ih =>
    rw [distinctNext]
    split
    · exact ih
    · rename_i unknown
      refine List.nodup_append.mpr ⟨ih, List.pairwise_singleton _ _, fun k known l new => ?_⟩
      rintro rfl
      exact unknown (List.mem_singleton.mp new ▸ known)

theorem distinctFewer (keys : List String) : (distinct keys).length ≤ keys.length := by
  induction keys using List.reverseRecOn with
  | nil => exact Nat.le_refl _
  | append_singleton keys last ih =>
    rw [distinctNext, List.length_append]
    split
    · exact Nat.le_add_right_of_le ih
    · rw [List.length_append]
      exact Nat.add_le_add_right ih _

structure Counts (pool : StringPool) (keys : List String) : Prop where
  strings : pool.strings.toList = (distinct keys).map fun k => ⟨k, keys.count k⟩
  numbers : ∀ (k : String) (n : Nat), pool.numbers[k]? = some n ↔ (distinct keys)[n]? = some k
  size : pool.size = tableRoom (distinct keys)

theorem emptyCounts : Counts {} [] := by
  refine ⟨rfl, fun k n => ?_, rfl⟩
  rw [Std.HashMap.getElem?_empty]
  exact ⟨nofun, nofun⟩

variable {pool : StringPool} {keys : List String}

theorem countsStrings (counts : pool.Counts keys) :
    pool.strings.size = (distinct keys).length := by
  rw [← Array.length_toList, counts.strings, List.length_map]

theorem countsTexts (counts : pool.Counts keys) : pool.texts = distinct keys := by
  rw [texts, counts.strings, List.map_map]
  exact List.map_id _

theorem countsNamed (counts : pool.Counts keys) (n : Nat) :
    pool.string? n = (distinct keys)[n]? := by
  rw [← textAt, countsTexts counts]

theorem countsTable (counts : pool.Counts keys) : pool.table = shared keys := by
  rw [table, counts.strings, List.filter_map, List.map_map]
  exact List.map_id _

theorem countedAgain (keys : List String) {k : String} {n : Nat}
    (known : (distinct keys)[n]? = some k) :
    ((distinct keys).map fun l => StringCount.mk l (keys.count l)).modify n
        (fun e => { e with count := e.count + 1 }) =
      (distinct keys).map fun l => StringCount.mk l ((keys ++ [k]).count l) := by
  refine List.ext_getElem? fun m => ?_
  rw [List.getElem?_modify, List.getElem?_map, List.getElem?_map]
  cases at' : (distinct keys)[m]? with
  | none => rfl
  | some l =>
    simp only [Option.map_some, Option.map_eq_map, List.count_append, List.count_singleton]
    by_cases same : n = m
    · subst same
      cases Option.some.inj (known.symm.trans at')
      simp
    · have other : k ≠ l := by
        rintro rfl
        exact same ((List.getElem?_inj (List.getElem?_eq_some_iff.mp known).1
          (distinctOnce keys)).mp (known.trans at'.symm))
      simp [same, other]

theorem internCounts (counts : pool.Counts keys) (k : String) :
    (pool.intern k).2.Counts (keys ++ [k]) := by
  unfold intern
  split
  · rename_i n found
    have known := (counts.numbers k n).mp found
    have same : distinct (keys ++ [k]) = distinct keys := by
      rw [distinctNext, if_pos (List.mem_of_getElem? known)]
    refine ⟨?_, ?_, ?_⟩
    · rw [same, Array.toList_modify, counts.strings]
      exact countedAgain keys known
    · rw [same]
      exact counts.numbers
    · rw [same]
      exact counts.size
  · rename_i missing
    have unknown : k ∉ distinct keys := by
      intro known
      obtain ⟨n, at'⟩ := List.mem_iff_getElem?.mp known
      rw [(counts.numbers k n).mpr at'] at missing
      cases missing
    have more : distinct (keys ++ [k]) = distinct keys ++ [k] := by
      rw [distinctNext, if_neg unknown]
    have first : keys.count k = 0 := List.count_eq_zero.mpr fun old => unknown (memDistinct.mpr old)
    refine ⟨?_, fun l n => ?_, ?_⟩
    · rw [more, Array.toList_push, counts.strings, List.map_append, List.map_singleton,
        List.count_append, first, List.count_singleton_self]
      refine congrArg (· ++ _) (List.map_congr_left fun l old => ?_)
      have other : k ≠ l := fun same => unknown (same ▸ old)
      simp [List.count_append, other]
    · have few := countsStrings counts
      rw [more, Std.HashMap.getElem?_insert, List.getElem?_append, few]
      by_cases same : k = l
      · subst same
        rw [if_pos BEq.rfl]
        constructor
        · intro at'
          cases at'
          simp
        · intro at'
          split at at'
          · exact absurd (List.mem_of_getElem? at') unknown
          · rename_i behind
            have last := (List.getElem?_eq_some_iff.mp at').1
            rw [List.length_singleton] at last
            exact congrArg some (by omega)
      · rw [if_neg (by simpa using same), counts.numbers l n]
        split
        · exact Iff.rfl
        · rename_i behind
          constructor
          · intro at'
            exact absurd (List.getElem?_eq_some_iff.mp at').1 behind
          · intro at'
            have mem := List.mem_of_getElem? at'
            exact absurd (List.mem_singleton.mp mem).symm same
    · rw [more, roomAppend, counts.size]

theorem resolvedAs {strings : List StringCount} {n : Nat} {e : StringCount} {r : Resolution}
    (found : strings[n]? = some e) {entries : Nat}
    (comes : (resolutionsFrom entries strings)[n]? = some r) :
    if 1 < e.count then ∃ place, r = .entry place else r = .inline e.string := by
  induction strings generalizing n entries with
  | nil => cases found
  | cons head rest ih =>
    rw [resolutionsFrom] at comes
    cases n with
    | zero =>
      cases Option.some.inj found
      split at comes
      · rename_i again
        cases comes
        rw [if_pos again]
        exact ⟨entries, rfl⟩
      · rename_i once
        cases comes
        rw [if_neg once]
    | succ n =>
      split at comes
      · exact ih found comes
      · exact ih found comes

theorem countsResolved (counts : pool.Counts keys) {n : Nat} {k : String}
    (known : (distinct keys)[n]? = some k) : pool.resolutions[n]? =
      some (if 1 < keys.count k then .entry ((shared keys).idxOf k) else .inline k) := by
  obtain ⟨r, found, stands⟩ := resolved ((countsNamed counts n).trans known)
  have counted : pool.strings.toList[n]? = some ⟨k, keys.count k⟩ := by
    rw [counts.strings, List.getElem?_map, known]
    rfl
  have kind := resolvedAs counted (by rwa [resolutions, List.getElem?_toArray] at found)
  rw [found]
  split at kind
  · rename_i again
    obtain ⟨place, rfl⟩ := kind
    rw [if_pos again]
    rw [Stands, countsTable counts] at stands
    obtain ⟨inside, at'⟩ := List.getElem?_eq_some_iff.mp stands
    have once : (shared keys).Nodup := (distinctOnce keys).filter _
    rw [← at', once.idxOf_getElem]
  · rename_i once
    rw [if_neg once, kind]

end StringPool

/-! ### Messages -/

namespace Record

def key? : Record → Option String
  | symbol row => some row.key
  | _ => none

end Record

def keysOf (batch : List Record) : List String := batch.filterMap Record.key?

def KeyField.within (keys : List String) (k : String) : KeyField :=
  if 1 < keys.count k then .ref (.ofNat ((StringPool.shared keys).idxOf k)) else .text k

def Record.framed (keys : List String) : Record → Framed
  | symbol row =>
    .ofFields .symbol (SymbolMessage.toFields ⟨some (.within keys row.key), row.raw, row.demangled,
      row.kind.code, row.origin.code, row.address⟩)
  | typeInfo info => .ofFields .typeInfo (TypeInfoMessage.ofRecord info).toFields
  | vtable table => .ofFields .vtable (VTableMessage.toFields table)
  | index entry =>
    .ofFields .index (IndexMessage.toFields
      ⟨entry.token, (IndexMessage.deltas? entry.ordinals).getD []⟩)

theorem resolveFramed {pool : StringPool} {keys : List String} {p : Pending} {r : Record}
    (counts : pool.Counts keys) (stands : p.StandsFor pool r) :
    p.resolve pool.resolutions = .ok (r.framed keys) := by
  cases stands with
  | @symbol number row named =>
    rw [StringPool.countsNamed counts] at named
    rw [Pending.resolve, StringPool.countsResolved counts named, Record.framed, KeyField.within]
    by_cases again : 1 < keys.count row.key
    · simp only [if_pos again]
    · simp only [if_neg again]
  | typeInfo info => rfl
  | vtable table => rfl
  | @index entry m written =>
    unfold IndexMessage.ofRecord at written
    split at written
    · rename_i deltas distances
      cases written
      rw [Pending.resolve, Record.framed, distances, Option.getD_some]
    · cases written

/-! ### Batches -/

def lasting (batch : List Record) : List Record :=
  batch.takeWhile fun r => (r.framed (keysOf batch)).Small

def overflow? (batch : List Record) : Option StoreError :=
  (batch.find? fun r => ¬(r.framed (keysOf batch)).Small).map fun r =>
    .maximumSizeExceeded (r.framed (keysOf batch)).payload.size

def laidOut (batch : List Record) : List Framed :=
  Writer.batchFrames (StringPool.shared (keysOf batch))
    ((lasting batch).map (Record.framed (keysOf batch)))

theorem lastingAll {batch : List Record} (fine : overflow? batch = none) :
    lasting batch = batch := by
  rw [lasting, List.takeWhile_eq_self_iff]
  simpa [overflow?] using fine

theorem overflowSize {batch : List Record} {e : StoreError} (wrong : overflow? batch = some e) :
    ∃ r ∈ batch, ¬(r.framed (keysOf batch)).Small ∧
      e = .maximumSizeExceeded (r.framed (keysOf batch)).payload.size := by
  obtain ⟨r, found, rfl⟩ := Option.map_eq_some_iff.mp wrong
  exact ⟨r, List.mem_of_find?_eq_some found, by simpa using List.find?_some found, rfl⟩

namespace Writer
variable {w w' : Writer} {batch : List Record}

structure Waits (w : Writer) (batch : List Record) : Prop where
  counts : w.pool.Counts (keysOf batch)
  stand : List.Forall₂ (Pending.StandsFor w.pool) w.pending.toList batch

theorem waitsNothing (out : ByteArray) : Waits ⟨out, {}, #[]⟩ [] :=
  ⟨StringPool.emptyCounts, .nil⟩

theorem waitsSize (waits : w.Waits batch) : w.pending.size = batch.length :=
  Array.length_toList.symm.trans waits.stand.length_eq

theorem waitsBatch (waits : w.Waits batch) : Batch w.pool w.pending.toList batch := by
  refine ⟨fun s n found => ?_, ?_, waits.stand⟩
  · rw [StringPool.countsNamed waits.counts]
    exact (waits.counts.numbers s n).mp found
  · rw [StringPool.countsStrings waits.counts, waits.stand.length_eq]
    exact Nat.le_trans (StringPool.distinctFewer _) (List.length_filterMap_le _ _)

theorem resolveWaiting (waits : w.Waits batch) :
    w.pending.toList.mapM (Pending.resolve w.pool.resolutions) =
      .ok (batch.map (Record.framed (keysOf batch))) := by
  have each {pending : List Pending} {rs : List Record}
      (stand : List.Forall₂ (Pending.StandsFor w.pool) pending rs) :
      pending.mapM (Pending.resolve w.pool.resolutions) =
        .ok (rs.map (Record.framed (keysOf batch))) := by
    induction stand with
    | nil => rfl
    | cons head _ ih =>
      rw [List.mapM_cons, resolveFramed waits.counts head, ih]
      rfl
  exact each waits.stand

def attempt (step : Writing Unit) (w : Writer) : Option StoreError × Writer :=
  match step w with
  | .ok _ w => (none, w)
  | .error e w => (some e, w)

theorem noMessages : Wire.ofBytes (List.flatMap Framed.octets []) = ByteArray.empty := rfl

/- Messages are written up to the first that is too large, of which nothing is written. -/
theorem putsUntil (fs : List Framed) (w : Writer) :
    attempt (fs.forM put) w =
      ((fs.find? fun f => ¬f.Small).map fun f => .maximumSizeExceeded f.payload.size,
        { w with out := w.out ++ Wire.ofBytes ((fs.takeWhile fun f => f.Small).flatMap
          Framed.octets) }) := by
  induction fs generalizing w with
  | nil =>
    rw [List.takeWhile_nil, noMessages, ByteArray.append_empty]
    rfl
  | cons f fs ih =>
    by_cases small : f.Small
    · have here : put f w = .ok () { w with out := w.out ++ Wire.ofBytes f.octets } := by
        rw [put, framedBytes small]
        rfl
      have rest := ih { w with out := w.out ++ Wire.ofBytes f.octets }
      have both : (f :: fs).forM put w =
          fs.forM put { w with out := w.out ++ Wire.ofBytes f.octets } := bindOk here
      rw [attempt, both, ← attempt, rest, List.find?_cons_of_neg (by simpa using small),
        List.takeWhile_cons, if_pos (decide_eq_true small), List.flatMap_cons]
      simp only [ByteArray.append_assoc, Wire.ofBytesAppend]
    · have here : put f w = .error (.maximumSizeExceeded f.payload.size) w := by
        rw [put, framedTooLarge small]
        rfl
      have both : (f :: fs).forM put w = .error (.maximumSizeExceeded f.payload.size) w :=
        bindError here
      rw [attempt, both, List.find?_cons_of_pos (by simpa using small), List.takeWhile_cons,
        if_neg (by simpa using small), noMessages, ByteArray.append_empty]
      rfl

theorem flushBatch (waits : w.Waits batch)
    (table : (Framed.ofFields .stringTable (StringTable.toFields w.pool.table)).Small) :
    attempt flush w =
      (overflow? batch, ⟨w.out ++ Wire.ofBytes ((laidOut batch).flatMap Framed.octets), {}, #[]⟩) := by
  rw [attempt, flushPuts (resolveWaiting waits), ← attempt, putsUntil,
    StringPool.countsTable waits.counts, laidOut, batchFrames, batchFrames, lasting, overflow?]
  rw [StringPool.countsTable waits.counts] at table
  split
  · rw [List.find?_map, Option.map_map, List.takeWhile_map]
    rfl
  · rw [List.find?_cons_of_neg (by simpa using table), List.takeWhile_cons,
      if_pos (decide_eq_true table), List.find?_map, Option.map_map, List.takeWhile_map]
    rfl

end Writer
end CxxSymbols.Store
