import CxxSymbols.Proofs.Store.Writer
/-! Records of ordinary size are always written. The pool counts at least the bytes that a string
takes in a table, and a batch ends before these bytes are too many for a message, so neither the
table nor a record of the batch can be refused. -/
namespace CxxSymbols.Store
open Stateful

/-! ### Tables -/

theorem stringOctets {tag : Nat} (small : tag * 8 + 2 < 128) {s : String}
    (short : s.utf8ByteSize < 0x10000000) :
    (Wire.Field.octets ⟨tag, .delimited s.toUTF8⟩).length ≤ 5 + s.utf8ByteSize := by
  have key : (Wire.varint (tag * 8 + 2)).length ≤ 0 + 1 := varintSizeBound small
  have length : (Wire.varint s.toUTF8.size).length ≤ 3 + 1 := varintSizeBound short
  have bytes : s.toUTF8.data.toList.length = s.utf8ByteSize := Wire.toListLength _
  simp only [Wire.Field.octets, List.length_append]
  omega

namespace StringPool

def texts (pool : StringPool) : List String := pool.strings.toList.map (·.string)

def tableRoom : List String → Nat
  | [] => 0
  | s :: ss => 5 + s.utf8ByteSize + tableRoom ss

theorem roomAppend (ss : List String) (s : String) :
    tableRoom (ss ++ [s]) = tableRoom ss + 5 + s.utf8ByteSize := by
  induction ss with
  | nil =>
    simp only [List.nil_append, tableRoom]
    omega
  | cons t ss ih =>
    rw [List.cons_append, tableRoom, tableRoom, ih]
    omega

structure Roomy (pool : StringPool) : Prop where
  counted : tableRoom pool.texts ≤ pool.size
  short : ∀ s ∈ pool.texts, s.utf8ByteSize < 0x10000000

theorem textAt (pool : StringPool) (n : Nat) : pool.texts[n]? = pool.string? n := by
  rw [texts, List.getElem?_map, Array.getElem?_toList, string?]

theorem internTexts (pool : StringPool) (s : String) :
    (pool.intern s).2.texts = pool.texts ∧ (pool.intern s).2.size = pool.size ∨
      (pool.intern s).2.texts = pool.texts ++ [s] ∧
        (pool.intern s).2.size = pool.size + 5 + s.utf8ByteSize := by
  unfold intern
  split
  · refine .inl ⟨List.ext_getElem? fun n => ?_, rfl⟩
    rw [textAt, textAt]
    exact stringOfCounted pool _ n
  · refine .inr ⟨?_, rfl⟩
    simp only [texts, Array.toList_push, List.map_append, List.map_cons, List.map_nil]

theorem emptyRoomy : Roomy {} := ⟨Nat.le_refl _, by simp [texts]⟩

theorem internRoomy {pool : StringPool} (roomy : pool.Roomy) {s : String}
    (short : s.utf8ByteSize < 0x10000000) : (pool.intern s).2.Roomy := by
  rcases internTexts pool s with ⟨same, size⟩ | ⟨more, size⟩
  · refine ⟨?_, ?_⟩
    · rw [same, size]
      exact roomy.counted
    · rw [same]
      exact roomy.short
  · refine ⟨?_, ?_⟩
    · have before := roomy.counted
      rw [more, size, roomAppend]
      omega
    · rw [more]
      intro t mem
      rcases List.mem_append.mp mem with old | new
      · exact roomy.short t old
      · cases List.mem_singleton.mp new
        exact short

theorem internGrowth (pool : StringPool) (s : String) :
    (pool.intern s).2.size ≤ pool.size + 5 + s.utf8ByteSize := by
  rcases internTexts pool s with ⟨_, size⟩ | ⟨_, size⟩ <;> omega

theorem entriesFit {strings : List StringCount}
    (short : ∀ s ∈ strings.map (·.string), s.utf8ByteSize < 0x10000000) :
    (Wire.encode (StringTable.toFields
      ((strings.filter fun e => 1 < e.count).map (·.string)))).size ≤
        tableRoom (strings.map (·.string)) := by
  rw [Wire.encodeFields, Wire.sizeOfBytes]
  induction strings with
  | nil => exact Nat.le_refl _
  | cons e strings ih =>
    have rest := ih fun s mem => short s (List.mem_cons_of_mem _ mem)
    rw [List.map_cons, tableRoom]
    by_cases shared : 1 < e.count
    · have here : (Wire.Field.octets ⟨1, .delimited e.string.toUTF8⟩).length ≤
          5 + e.string.utf8ByteSize := stringOctets (by decide) (short _ List.mem_cons_self)
      rw [List.filter_cons, if_pos (decide_eq_true shared), List.map_cons, StringTable.toFields,
        List.map_cons, List.flatMap_cons, List.length_append]
      exact Nat.add_le_add here rest
    · rw [List.filter_cons, if_neg fun more => shared (of_decide_eq_true more)]
      omega

theorem tableFits {pool : StringPool} (roomy : pool.Roomy) :
    (Wire.encode (StringTable.toFields pool.table)).size ≤ pool.size :=
  Nat.le_trans (entriesFit roomy.short) roomy.counted

end StringPool

/-! ### Messages -/

def Record.Light : Record → Prop
  | symbol row =>
    row.key.utf8ByteSize + row.raw.utf8ByteSize + row.demangled.utf8ByteSize ≤ 0x8000
  | typeInfo info =>
    (Wire.encode (TypeInfoMessage.ofRecord info).toFields).size ≤ maxMessageSize
  | vtable table => (Wire.encode (VTableMessage.toFields table)).size ≤ maxMessageSize
  | index entry =>
    ∃ m, IndexMessage.ofRecord entry = .ok m ∧ (Wire.encode m.toFields).size ≤ maxMessageSize

theorem textOctets {tag : Nat} (small : tag * 8 + 2 < 128) {s : String}
    (short : s.utf8ByteSize < 0x10000000) :
    ((Wire.textField tag s).flatMap Wire.Field.octets).length ≤ 5 + s.utf8ByteSize := by
  rw [Wire.textField]
  split
  · exact Nat.zero_le _
  · rw [List.flatMap_singleton]
    exact stringOctets small short

theorem numberOctets {tag n : Nat} (small : tag * 8 < 128) (fits : n < UInt64.size) :
    ((Wire.numberField tag n).flatMap Wire.Field.octets).length ≤ 11 := by
  have key : (Wire.varint (tag * 8)).length ≤ 0 + 1 := varintSizeBound small
  have number : (Wire.varint n).length ≤ 9 + 1 :=
    varintSizeBound (Nat.lt_trans fits (by decide))
  rw [Wire.numberField]
  split
  · exact Nat.zero_le _
  · rw [List.flatMap_singleton]
    simp only [Wire.Field.octets, List.length_append]
    omega

theorem symbolFits {key : KeyField} {raw demangled : String} {kind origin : UInt32}
    {address : UInt64} {length : Nat}
    (name : (key.toFields.flatMap Wire.Field.octets).length ≤ 11 + length)
    (light : length + raw.utf8ByteSize + demangled.utf8ByteSize ≤ 0x8000) :
    (Wire.encode (SymbolMessage.toFields ⟨some key, raw, demangled, kind, origin,
      address⟩)).size ≤ maxMessageSize := by
  have raw := @textOctets 3 (by decide) raw (by omega)
  have demangled := @textOctets 4 (by decide) demangled (by omega)
  have kind := @numberOctets 5 kind.toNat (by decide) (word32Fits kind)
  have origin := @numberOctets 6 origin.toNat (by decide) (word32Fits origin)
  have address := @numberOctets 7 address.toNat (by decide) (word64Fits address)
  rw [Wire.encodeFields, Wire.sizeOfBytes]
  simp only [SymbolMessage.toFields, List.flatMap_append, List.length_append, maxMessageSize]
  omega

theorem symbolLight {row : SymbolRow} (short : row.key.utf8ByteSize + row.raw.utf8ByteSize +
    row.demangled.utf8ByteSize ≤ 0x8000) : Record.Light (.symbol row) := short

theorem typeInfoLight {info : Rtti.TypeInfo}
    (small : (Wire.encode (TypeInfoMessage.ofRecord info).toFields).size ≤ maxMessageSize) :
    Record.Light (.typeInfo info) := small

theorem vtableLight {table : Rtti.VTable}
    (small : (Wire.encode (VTableMessage.toFields table)).size ≤ maxMessageSize) :
    Record.Light (.vtable table) := small

theorem deltasLength (deltas : List UInt32) :
    ((deltas.map UInt32.toNat).flatMap Wire.varint).length ≤ 5 * deltas.length := by
  induction deltas with
  | nil => exact Nat.zero_le _
  | cons d deltas ih =>
    have here : (Wire.varint d.toNat).length ≤ 4 + 1 :=
      varintSizeBound (Nat.lt_trans d.toNat_lt (by decide))
    rw [List.map_cons, List.flatMap_cons, List.length_append, List.length_cons]
    omega

theorem indexLight {token : String} {ordinals deltas : List UInt32}
    (ascending : IndexMessage.deltas? ordinals = some deltas)
    (short : token.utf8ByteSize + 5 * deltas.length ≤ 0x8000) :
    Record.Light (.index ⟨token, ordinals⟩) := by
  refine ⟨⟨token, deltas⟩, by rw [IndexMessage.ofRecord, ascending], ?_⟩
  have text := @textOctets 1 (by decide) token (by omega)
  have run := deltasLength deltas
  rw [Wire.encodeFields, Wire.sizeOfBytes]
  simp only [IndexMessage.toFields, Wire.numbersField, List.flatMap_append, List.length_append,
    maxMessageSize]
  split
  · simp only [List.flatMap_nil, List.length_nil]
    omega
  · have tag : (Wire.varint (2 * 8 + 2)).length ≤ 0 + 1 := varintSizeBound (by decide)
    have room : Wire.room (3 + 1) = 0x10000000 := by decide
    have length : (Wire.varint ((deltas.map UInt32.toNat).flatMap Wire.varint).length).length ≤
        3 + 1 := varintSizeBound (by rw [room]; omega)
    simp only [List.flatMap_singleton, Wire.Field.octets, List.length_append, Wire.sizeOfBytes,
      Wire.toListOfBytes]
    omega

theorem resolveSmall {pool : StringPool} {p : Pending} {r : Record} {f : Framed}
    (stands : p.StandsFor pool r) (light : r.Light)
    (resolved : p.resolve pool.resolutions = .ok f) : f.Small := by
  cases stands with
  | @symbol number row named =>
    obtain ⟨resolution, found, means⟩ := StringPool.resolved named
    rw [Pending.resolve, found] at resolved
    cases resolution with
    | inline text =>
      cases means
      cases resolved
      refine symbolFits ?_ light
      have short : row.key.utf8ByteSize < 0x10000000 := by
        simp only [Record.Light] at light
        omega
      have name : (Wire.Field.octets ⟨2, .delimited row.key.toUTF8⟩).length ≤
          5 + row.key.utf8ByteSize := stringOctets (by decide) short
      rw [KeyField.toFields, List.flatMap_singleton]
      omega
    | entry place =>
      cases resolved
      refine symbolFits ?_ light
      have tag : (Wire.varint (1 * 8)).length ≤ 0 + 1 := varintSizeBound (by decide)
      have index : (Wire.varint (UInt32.ofNat place).toNat).length ≤ 9 + 1 :=
        varintSizeBound (Nat.lt_trans (word32Fits _) (by decide))
      rw [KeyField.toFields, List.flatMap_singleton]
      simp only [Wire.Field.octets, List.length_append]
      omega
  | typeInfo info =>
    cases resolved
    exact light
  | vtable table =>
    cases resolved
    exact light
  | index written =>
    obtain ⟨m, same, small⟩ := light
    cases written.symm.trans same
    cases resolved
    exact small

namespace Writer
variable {w w' : Writer}

theorem putsSucceed {fs : List Framed} (small : ∀ f ∈ fs, f.Small) (w : Writer) :
    ∃ w', fs.forM put w = .ok () w' := by
  induction fs generalizing w with
  | nil => exact ⟨w, rfl⟩
  | cons f fs ih =>
    obtain ⟨w', rest⟩ := ih (fun g mem => small g (List.mem_cons_of_mem _ mem))
      { w with out := w.out ++ Wire.ofBytes f.octets }
    have here : put f w = .ok () { w with out := w.out ++ Wire.ofBytes f.octets } := by
      rw [put, framedBytes (small f List.mem_cons_self)]
      rfl
    exact ⟨w', (bindOk here).trans rest⟩

theorem resolvedSmall {pool : StringPool} {pending : List Pending} {waiting : List Record}
    (stand : List.Forall₂ (Pending.StandsFor pool) pending waiting)
    (light : ∀ r ∈ waiting, r.Light) {frames : List Framed}
    (resolved : pending.mapM (Pending.resolve pool.resolutions) = .ok frames) :
    ∀ f ∈ frames, f.Small := by
  induction stand generalizing frames with
  | nil =>
    cases resolved
    simp
  | @cons p r pending waiting head _ ih =>
    rw [List.mapM_cons] at resolved
    cases first : p.resolve pool.resolutions with
    | error e =>
      rw [first] at resolved
      cases resolved
    | ok f =>
      cases rest : pending.mapM (Pending.resolve pool.resolutions) with
      | error e =>
        rw [first, rest] at resolved
        cases resolved
      | ok fs =>
        rw [first, rest] at resolved
        cases resolved
        intro g mem
        rcases List.mem_cons.mp mem with rfl | later
        · exact resolveSmall head (light r List.mem_cons_self) first
        · exact ih (fun s inside => light s (List.mem_cons_of_mem _ inside)) rest g later

structure Ready (w : Writer) : Prop where
  light : ∃ waiting, Batch w.pool w.pending.toList waiting ∧ ∀ r ∈ waiting, r.Light
  roomy : w.pool.Roomy
  strings : w.pool.size < maxMessageSize
  few : w.pending.size ≤ UInt32.size

theorem flushSucceeds (ready : w.Ready) :
    ∃ w', flush w = .ok () w' ∧ w'.pool = {} ∧ w'.pending = #[] := by
  obtain ⟨waiting, batch, light⟩ := ready.light
  have fewStrings : w.pool.strings.size ≤ UInt32.size :=
    Nat.le_trans batch.few (Nat.le_trans (Nat.le_of_eq Array.length_toList) ready.few)
  obtain ⟨frames, resolved, _⟩ := resolveAll batch.stand fewStrings
  have small : ∀ f ∈ batchFrames w.pool.table frames, f.Small := by
    have own := resolvedSmall batch.stand light resolved
    rw [batchFrames]
    split
    · exact own
    · intro f mem
      rcases List.mem_cons.mp mem with rfl | inside
      · exact Nat.le_trans (StringPool.tableFits ready.roomy) (Nat.le_of_lt ready.strings)
      · exact own f inside
  obtain ⟨w', put⟩ := putsSucceed small { w with pool := {}, pending := #[] }
  obtain ⟨_, rfl⟩ := putsOk put
  exact ⟨_, (flushPuts resolved).trans put, rfl, rfl⟩

structure Open (w : Writer) : Prop where
  light : ∃ waiting, Batch w.pool w.pending.toList waiting ∧ ∀ r ∈ waiting, r.Light
  roomy : w.pool.Roomy
  strings : w.pool.size < stringTableThreshold
  room : w.pending.size * pendingSize < pendingLimit

theorem emptyOpen (pool : w.pool = {}) (pending : w.pending = #[]) : w.Open := by
  refine ⟨⟨[], ?_, by simp⟩, ?_, ?_, ?_⟩
  · rw [pool, pending]
    exact batchEmpty
  · rw [pool]
    exact StringPool.emptyRoomy
  · rw [pool]
    decide
  · rw [pending]
    decide

theorem openReady (ready : w.Open) : w.Ready :=
  ⟨ready.light, ready.roomy, Nat.lt_of_lt_of_le ready.strings (Nat.sub_le _ _),
    Nat.le_of_succ_le (pendingFew ready.room)⟩

theorem stageSucceeds {r : Record} (light : r.Light) (w : Writer) :
    ∃ w', stage r w = .ok () w' := by
  cases r with
  | symbol row => exact ⟨_, rfl⟩
  | typeInfo info => exact ⟨_, rfl⟩
  | vtable table => exact ⟨_, rfl⟩
  | index entry =>
    obtain ⟨m, written, _⟩ := light
    exact ⟨_, bindOk (by rw [written]; rfl)⟩

theorem stagePool {r : Record} (ran : stage r w = .ok () w') :
    w'.pool = w.pool ∨ ∃ row, r = .symbol row ∧ w'.pool = (w.pool.intern row.key).2 := by
  cases r with
  | symbol row =>
    cases ran
    exact .inr ⟨row, rfl, rfl⟩
  | typeInfo info =>
    cases ran
    exact .inl rfl
  | vtable table =>
    cases ran
    exact .inl rfl
  | index entry =>
    obtain ⟨m, between, made, rest⟩ := bindOkSource ran
    cases written : IndexMessage.ofRecord entry with
    | error e =>
      rw [written] at made
      cases made
    | ok message =>
      rw [written] at made
      cases made
      cases rest
      exact .inl rfl

theorem stageReady {r : Record} (light : r.Light) (ran : stage r w = .ok () w')
    (ready : w.Open) : w'.Ready := by
  obtain ⟨waiting, batch, others⟩ := ready.light
  obtain ⟨joined, _, size⟩ := stageWaits ran batch
  have limit : stringTableThreshold + 5 + 0x8000 < maxMessageSize := by decide
  have below := ready.strings
  refine ⟨⟨_, joined, ?_⟩, ?_, ?_, ?_⟩
  · intro s mem
    rcases List.mem_append.mp mem with old | new
    · exact others s old
    · cases List.mem_singleton.mp new
      exact light
  · rcases stagePool ran with same | ⟨row, rfl, grown⟩
    · rw [same]
      exact ready.roomy
    · rw [grown]
      simp only [Record.Light] at light
      exact StringPool.internRoomy ready.roomy (by omega)
  · rcases stagePool ran with same | ⟨row, rfl, grown⟩
    · rw [same]
      omega
    · have growth := StringPool.internGrowth w.pool row.key
      simp only [Record.Light] at light
      rw [grown]
      omega
  · rw [size]
    exact pendingFew ready.room

theorem writeSucceeds {r : Record} (light : r.Light) (ready : w.Open) :
    ∃ w', write r w = .ok () w' ∧ w'.Open := by
  obtain ⟨staged, ran⟩ := stageSucceeds light w
  have after := stageReady light ran ready
  have written : write r w = (if staged.isFull then flush else pure ()) staged := bindOk ran
  by_cases full : staged.isFull = true
  · obtain ⟨w', flushed, pool, pending⟩ := flushSucceeds after
    rw [if_pos full] at written
    exact ⟨w', written.trans flushed, emptyOpen pool pending⟩
  · rw [if_neg full] at written
    rw [isFull, Bool.or_eq_true, decide_eq_true_iff, decide_eq_true_iff, not_or, Nat.not_le,
      Nat.not_le] at full
    exact ⟨staged, written, after.light, after.roomy, full.1, full.2⟩

theorem writesSucceed {records : List Record} (light : ∀ r ∈ records, r.Light)
    (ready : w.Open) : ∃ w', records.forM write w = .ok () w' ∧ w'.Open := by
  induction records generalizing w with
  | nil => exact ⟨w, rfl, ready⟩
  | cons r records ih =>
    obtain ⟨w', first, after⟩ := writeSucceeds (light r List.mem_cons_self) ready
    obtain ⟨w'', rest, last⟩ := ih (fun s mem => light s (List.mem_cons_of_mem _ mem)) after
    exact ⟨w'', (bindOk first).trans rest, last⟩

end Writer

theorem lightWritten {records : List Record} (light : ∀ r ∈ records, r.Light) :
    ∃ bytes, fileOf records = .ok bytes := by
  obtain ⟨w, all, ready⟩ := Writer.writesSucceed light (@Writer.emptyOpen {} rfl rfl)
  obtain ⟨w', last, _, _⟩ := Writer.flushSucceeds (Writer.openReady ready)
  have whole : Writer.writeAll records {} = .ok () w' := (bindOk all).trans last
  refine ⟨w'.out, ?_⟩
  rw [fileOf, whole]

end CxxSymbols.Store
