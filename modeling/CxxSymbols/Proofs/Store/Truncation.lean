import CxxSymbols.Proofs.Store.Failure
/-! Files that are cut off. The end of a file is told from a message that is cut by what has been
read of the message: a number of which nothing is there is the end of the file in front of a message
and an error behind its length. Whatever is cut, the messages in front of it are read as they were. -/
namespace CxxSymbols.Store
open Stateful

/-! ### Numbers -/

theorem leb128InCut {left n : Nat} (fits : n < Wire.room (left + 1)) {front lost : List UInt8}
    (split : Wire.varint n = front ++ lost) (missing : lost ≠ []) :
    leb128In (left + 1) front = .error .io := by
  induction left generalizing n front with
  | zero =>
    have small : n < 128 := fits
    rw [Wire.varint, if_pos small] at split
    rcases List.singleton_eq_append_iff.mp split with ⟨rfl, _⟩ | ⟨_, rfl⟩
    · rfl
    · exact absurd rfl missing
  | succ left ih =>
    cases front with
    | nil => rfl
    | cons b front =>
      rw [Wire.varint] at split
      split at split
      · have none := (List.cons.inj split).2
        exact absurd (List.append_eq_nil_iff.mp none.symm).2 missing
      · obtain ⟨rfl, rest⟩ := List.cons.inj split
        have byte := UInt8.toNat_ofNat_of_lt' (by omega : n % 128 + 128 < 256)
        have fewer : n / 128 < Wire.room (left + 1) := by
          rw [Wire.room] at fits
          omega
        rw [leb128In, byte, if_neg (by omega), ih fewer rest]
        rfl

theorem leb128Cut {n : Nat} (fits : n < UInt64.size) {front lost : List UInt8}
    (split : Wire.varint n = front ++ lost) (missing : lost ≠ []) :
    front.length ≤ leb128Size ∧ leb128 front = .error .io := by
  have wide : n < Wire.room (9 + 1) := Nat.lt_trans fits (by decide)
  have length : (Wire.varint n).length ≤ leb128Size := varintSizeBound wide
  have stops := leb128InCut wide split missing
  refine ⟨?_, ?_⟩
  · rw [split, List.length_append] at length
    omega
  · rw [leb128, leb128Size, stops]
    rfl

/-! ### Messages -/

inductive Framed.Cut (f : Framed) : List UInt8 → Prop where
  | nothing : Cut f []
  | length {front lost : List UInt8} (split : Wire.varint f.payload.size = front ++ lost)
      (something : front ≠ []) (missing : lost ≠ []) : Cut f front
  | type : Cut f (Wire.varint f.payload.size)
  | payload {front : List UInt8} (short : front.length < f.payload.size) :
      Cut f (Wire.varint f.payload.size ++ (Wire.varint f.type.code ++ front))

theorem cutOf {f : Framed} {front lost : List UInt8} (split : f.octets = front ++ lost)
    (missing : lost ≠ []) : f.Cut front := by
  have single : ∃ b, Wire.varint f.type.code = [b] := by
    cases f.type <;> exact ⟨_, by rw [Wire.varint]; rfl⟩
  obtain ⟨b, type⟩ := single
  rw [Framed.octets] at split
  rcases List.append_eq_append_iff.mp split with ⟨more, rfl, behind⟩ | ⟨more, whole, behind⟩
  · cases more with
    | nil =>
      rw [List.append_nil]
      exact .type
    | cons c more =>
      rw [type, List.singleton_append] at behind
      obtain ⟨rfl, payload⟩ := List.cons.inj behind
      have size : f.payload.data.toList.length = (more ++ lost).length :=
        congrArg List.length payload
      have some := List.length_pos_iff.mpr missing
      rw [Wire.toListLength, List.length_append] at size
      rw [← List.singleton_append, ← type]
      exact .payload (by omega)
  · by_cases something : front = []
    · rw [something]
      exact .nothing
    · by_cases last : more = []
      · rw [last, List.append_nil] at whole
        rw [← whole]
        exact .type
      · exact .length whole something last

namespace Reader
variable {before front : List UInt8} {t t' : Array String} {f : Framed}

/-! ### Reading what is left -/

theorem number?Cut {n : Nat} (fits : n < UInt64.size) {lost : List UInt8}
    (split : Wire.varint n = front ++ lost) (something : front ≠ []) (missing : lost ≠ []) :
    number? (between before front t) = .error .io (between (before ++ front) [] t) := by
  obtain ⟨length, stops⟩ := leb128Cut fits split missing
  exact number?ErrorAtEnd length stops something

theorem payloadCut {length : Nat} (short : front.length < length) :
    payload length (between before front t) =
      .error .truncatedMessage (between (before ++ front) [] t) := by
  have size : (between before front t).file.size = before.length + front.length := by
    simp only [between, Wire.sizeOfBytes, List.length_append]
  have moved : skip length (between before front t) =
      .ok () (between (before ++ front) [] t) := by
    have clamped : min (between before front t).file.size (before.length + length) =
        (before ++ front).length := by
      rw [size, List.length_append]
      omega
    have skipped : skip length (between before front t) = .ok () ⟨Wire.ofBytes (before ++ front),
        min (between before front t).file.size (before.length + length), t⟩ := rfl
    rw [skipped, clamped, between, List.append_nil]
  have past : (between before front t).file.size < (between before front t).position + length := by
    rw [size]
    exact Nat.add_lt_add_left short _
  refine (bindOk rfl).trans ((bindOk moved).trans ?_)
  rw [if_pos past]
  rfl

theorem messageStops {type : MessageType} {length : Nat} {e : StoreError} {r r' : Reader}
    (read : type ≠ .invalid ∧ type ≠ .header) (stops : payload length r = .error e r') :
    message (some type) length r = .error e r' := by
  cases type with
  | invalid => exact absurd rfl read.1
  | header => exact absurd rfl read.2
  | stringTable => exact bindError stops
  | symbol => exact bindError stops
  | typeInfo => exact bindError stops
  | vtable => exact bindError stops
  | index => exact bindError stops

def Short (e : StoreError) : Prop := e = .truncatedMessage ∨ e = .io

theorem frameHead?Cut (small : f.Small) (cut : f.Cut front) (something : front ≠ [])
    (before : List UInt8) (t : Array String) :
    (∃ e, Short e ∧
      frameHead? (between before front t) = .error e (between (before ++ front) [] t)) ∨
    ∃ middle rest, frameHead? (between before front t) =
        .ok (some (f.payload.size, some f.type)) (between middle rest t) ∧
      rest.length < f.payload.size ∧ middle ++ rest = before ++ front := by
  have fits : f.payload.size < UInt64.size := Nat.lt_of_le_of_lt small (by decide)
  cases cut with
  | nothing => exact absurd rfl something
  | length split some missing =>
    exact .inl ⟨.io, .inr rfl, bindError (number?Cut fits split some missing)⟩
  | type =>
    refine .inl ⟨.truncatedMessage, .inl rfl, ?_⟩
    have length := @number?Between before t f.payload.size fits []
    rw [List.append_nil] at length
    refine (bindOk length).trans ?_
    simp only [if_neg (Nat.not_lt.mpr small)]
    exact bindOk number?AtEnd
  | @payload rest short =>
    have head := frameHead?Between small (codeBound f.type) before rest t
    rw [MessageType.ofCode?Code] at head
    refine .inr ⟨_, rest, head, short, ?_⟩
    simp only [List.append_assoc]

theorem readInCut (small : f.Small) (read : f.type ≠ .invalid ∧ f.type ≠ .header)
    (cut : f.Cut front) (something : front ≠ []) (rounds : Nat) (before : List UInt8)
    (t : Array String) :
    ∃ e, Short e ∧ readIn (rounds + 1) (between before front t) =
      .error e (between (before ++ front) [] t) := by
  rcases frameHead?Cut small cut something before t with
    ⟨e, short, stops⟩ | ⟨middle, rest, head, short, same⟩
  · exact ⟨e, short, bindError stops⟩
  · refine ⟨.truncatedMessage, .inl rfl, (bindOk head).trans ?_⟩
    rw [← same]
    exact bindError (messageStops read (payloadCut short))

inductive Stops : Reader → List Record → StoreError → Prop where
  | failed {r r' : Reader} {e} (fails : read r = .error e r') (nothing : Yields r' []) : Stops r [] e
  | next {r r' : Reader} {x xs e} (reads : read r = .ok (some x) r') (rest : Stops r' xs e) :
      Stops r (x :: xs) e

theorem stopsTold {fs : List Framed} {rs : List Record} (told : Told t fs rs t')
    (smaller : ∀ g ∈ fs, g.Small) (small : f.Small)
    (read : f.type ≠ .invalid ∧ f.type ≠ .header) (cut : f.Cut front) (something : front ≠ [])
    (before : List UInt8) :
    ∃ e, Short e ∧ Stops (between before (fs.flatMap Framed.octets ++ front) t) rs e := by
  induction rs generalizing fs t before with
  | nil =>
    obtain ⟨rounds, through⟩ := readThrough told smaller before front
    obtain ⟨e, short, stops⟩ := readInCut small read cut something rounds
      (before ++ fs.flatMap Framed.octets) t'
    have nothing := yieldsTold (.nil t') nofun (before ++ fs.flatMap Framed.octets ++ front)
    exact ⟨e, short, .failed (through.trans stops) nothing⟩
  | cons r rs ih =>
    obtain ⟨before', back, table, remaining, fits, reads⟩ := readNext told smaller before front
    obtain ⟨e, short, stops⟩ := ih remaining fits before'
    exact ⟨e, short, .next reads stops⟩

theorem recordsOfStops {r : Reader} {rs : List Record} {e : StoreError} (stops : Stops r rs e)
    {rounds : Nat} (enough : rs.length < rounds) : recordsIn rounds r = (rs, some e) := by
  induction stops generalizing rounds with
  | failed fails nothing =>
    cases rounds with
    | zero => cases enough
    | succ rounds => simp only [recordsIn, fails]
  | next reads rest ih =>
    cases rounds with
    | zero => cases enough
    | succ rounds => simp only [recordsIn, reads, ih (Nat.lt_of_succ_lt_succ enough)]

/-! ### The front of a file that is cut -/

theorem headerCut (cut : (Framed.ofFields .header (Header.toFields formatVersion)).Cut front)
    (before : List UInt8) : ∃ e r, ofFile.header (between before front #[]) = .error e r := by
  by_cases something : front = []
  · rw [something]
    exact ⟨_, _, bindOk frameHead?AtEnd⟩
  · rcases frameHead?Cut headerSmall cut something before #[] with
      ⟨e, _, stops⟩ | ⟨middle, rest, head, short, _⟩
    · exact ⟨e, _, bindError stops⟩
    · exact ⟨_, _, (bindOk head).trans ((bindOk rfl).trans (bindError (payloadCut short)))⟩

theorem magicCut {start : List UInt8} (short : start.length < magic.utf8ByteSize) :
    ofFile (Wire.ofBytes start) = .error .invalidMagic := by
  have other : ((Wire.ofBytes start).extract 0 magic.utf8ByteSize == magic.toUTF8) = false := by
    have bytes (a b : ByteArray) : (a == b) = (a.data == b.data) := rfl
    rw [bytes]
    refine beq_eq_false_iff_ne.mpr fun same => ?_
    have size : ((Wire.ofBytes start).extract 0 magic.utf8ByteSize).size = magic.toUTF8.size :=
      congrArg Array.size same
    rw [ByteArray.size_extract, Wire.sizeOfBytes] at size
    have whole : magic.toUTF8.size = magic.utf8ByteSize := rfl
    omega
  simp only [ofFile, other]
  rfl

theorem preambleCut {n : Nat} (within : n < preamble.length) :
    ∃ e, ofFile (Wire.ofBytes (preamble.take n)) = .error e := by
  have size := magicSize
  by_cases short : n < magic.utf8ByteSize
  · refine ⟨_, magicCut ?_⟩
    rw [List.length_take]
    omega
  · rw [preamble, List.length_append, size] at within
    have front : preamble.take n = magic.toUTF8.data.toList ++
        (Framed.ofFields .header (Header.toFields formatVersion)).octets.take
          (n - magic.utf8ByteSize) := by
      rw [preamble, List.take_append, size, List.take_of_length_le (by omega)]
    have missing : (Framed.ofFields .header (Header.toFields formatVersion)).octets.drop
        (n - magic.utf8ByteSize) ≠ [] := by
      refine List.length_pos_iff.mp ?_
      rw [List.length_drop]
      omega
    obtain ⟨e, r, stops⟩ := headerCut (cutOf (List.take_append_drop _ _).symm missing)
      magic.toUTF8.data.toList
    refine ⟨e, ?_⟩
    rw [front, ofFileMagic, stops]

/-! ### The messages of a file that is cut -/

def complete : List Framed → Nat → List Framed
  | [], _ => []
  | f :: fs, n => if f.octets.length ≤ n then f :: complete fs (n - f.octets.length) else []

theorem completeWhole (done behind : List Framed) :
    complete (done ++ behind) (done.flatMap Framed.octets).length = done := by
  induction done with
  | nil =>
    cases behind with
    | nil => rfl
    | cons f fs =>
      have long := octetsLength f
      exact if_neg fun none => Nat.not_succ_le_zero _ (Nat.le_trans long none)
  | cons f fs ih =>
    rw [List.cons_append, List.flatMap_cons, List.length_append, complete,
      if_pos (Nat.le_add_right _ _), Nat.add_sub_cancel_left, ih]

theorem completeNone (fs : List Framed) : complete fs 1 = [] := by
  cases fs with
  | nil => rfl
  | cons f fs =>
    have long := octetsLength f
    exact if_neg (by omega)

theorem completeRow {fs : List Framed} {n : Nat}
    (shorter : n < (fs.flatMap Framed.octets).length) :
    ∃ f behind front, fs = complete fs n ++ f :: behind ∧ f.Cut front ∧
      (fs.flatMap Framed.octets).take n = (complete fs n).flatMap Framed.octets ++ front := by
  induction fs generalizing n with
  | nil => cases shorter
  | cons f fs ih =>
    rw [List.flatMap_cons, List.length_append] at shorter
    rw [complete, List.flatMap_cons, List.take_append]
    split
    · rename_i inside
      obtain ⟨g, behind, front, split, cut, row⟩ := @ih (n - f.octets.length) (by omega)
      refine ⟨g, behind, front, by rw [List.cons_append, ← split], cut, ?_⟩
      rw [List.take_of_length_le inside, row, List.flatMap_cons, List.append_assoc]
    · rename_i outside
      have missing : f.octets.drop n ≠ [] := by
        refine List.length_pos_iff.mp ?_
        rw [List.length_drop]
        omega
      have none : n - f.octets.length = 0 := by omega
      refine ⟨f, fs, _, rfl, cutOf (List.take_append_drop n _).symm missing, ?_⟩
      rw [none, List.take_zero, List.append_nil, List.flatMap_nil, List.nil_append]

def Boundary (frames : List Framed) (n : Nat) : Prop :=
  ∃ done behind, frames = done ++ behind ∧ n = (preamble ++ done.flatMap Framed.octets).length

theorem boundaryApart {frames : List Framed} : ¬Boundary frames (preamble.length + 1) := by
  rintro ⟨done, behind, _, place⟩
  rw [List.length_append] at place
  cases done with
  | nil =>
    rw [List.flatMap_nil, List.length_nil] at place
    omega
  | cons f fs =>
    have long := octetsLength f
    rw [List.flatMap_cons, List.length_append] at place
    omega

theorem toldSplit {fs gs : List Framed} {rs : List Record} {last : Array String}
    (told : Told t (fs ++ gs) rs last) :
    ∃ first rest middle, rs = first ++ rest ∧ Told t fs first middle ∧ Told middle gs rest last := by
  induction fs generalizing t rs with
  | nil => exact ⟨[], rs, t, rfl, .nil t, told⟩
  | cons f fs ih =>
    cases told with
    | silent spoken later =>
      obtain ⟨first, rest, middle, rfl, left, right⟩ := ih later
      exact ⟨first, rest, middle, rfl, .silent spoken left, right⟩
    | record spoken later =>
      obtain ⟨first, rest, middle, rfl, left, right⟩ := ih later
      exact ⟨_ :: first, rest, middle, rfl, .record spoken left, right⟩

theorem toldReads {gs : List Framed} {rs : List Record} {last : Array String}
    (told : Told t (f :: gs) rs last) : f.type ≠ .invalid ∧ f.type ≠ .header := by
  cases told with
  | silent spoken => exact saidReads spoken
  | record spoken => exact saidReads spoken

inductive CutReads (frames : List Framed) (n : Nat) (r : Reader) (rs : List Record) : Prop where
  | between (boundary : Boundary frames n) (yields : r.Yields rs) (records : r.records = (rs, none))
  | within {e : StoreError} (inside : ¬Boundary frames n) (short : Short e) (stops : r.Stops rs e)
      (records : r.records = (rs, some e))

theorem cutTold {frames : List Framed} {rs : List Record} {bytes : ByteArray}
    (made : MadeOf bytes frames) (told : Told #[] frames rs t) {n : Nat}
    (opens : preamble.length ≤ n) (shorter : n < bytes.size) :
    ∃ reader first rest table, ofFile (bytes.extract 0 n) = .ok reader ∧ rs = first ++ rest ∧
      Told #[] (complete frames (n - preamble.length)) first table ∧
      CutReads frames n reader first := by
  rw [made.bytes, fileWith] at shorter ⊢
  rw [Wire.sizeOfBytes, List.length_append] at shorter
  obtain ⟨f, behind, front, split, cut, row⟩ := @completeRow frames (n - preamble.length) (by omega)
  have start : (Wire.ofBytes (preamble ++ frames.flatMap Framed.octets)).extract 0 n =
      Wire.ofBytes (preamble ++ ((complete frames (n - preamble.length)).flatMap Framed.octets ++
        front)) := by
    rw [extractFront, List.take_append, List.take_of_length_le opens, row]
  have length := congrArg List.length row
  rw [List.length_take, List.length_append] at length
  have whole : Told #[] (complete frames (n - preamble.length) ++ f :: behind) rs t := by
    rw [← split]
    exact told
  have small : ∀ g ∈ complete frames (n - preamble.length) ++ f :: behind, g.Small := by
    rw [← split]
    exact made.small
  obtain ⟨left, right⟩ := List.forall_mem_append.mp small
  obtain ⟨first, rest, table, same, done, open'⟩ := toldSplit whole
  refine ⟨_, first, rest, table, by rw [start, ofFilePreamble], same, done, ?_⟩
  by_cases between : front = []
  · rw [between, List.append_nil]
    refine .between ⟨_, _, split, ?_⟩ (yieldsTold done left _) (recordsTold done left _)
    rw [between, List.length_nil] at length
    rw [List.length_append]
    omega
  · have something := List.length_pos_iff.mpr between
    obtain ⟨e, short, stops⟩ := stopsTold done left (right f List.mem_cons_self) (toldReads open')
      cut between preamble
    refine .within ?_ short stops (recordsOfStops stops ?_)
    · rintro ⟨prior, later, rfl, at'⟩
      rw [List.length_append] at at'
      have reached : n - preamble.length = (prior.flatMap Framed.octets).length := by omega
      rw [reached, completeWhole] at length
      omega
    · have fewer := toldFewer done
      have shorter := fewerThanOctets (complete frames (n - preamble.length))
      simp only [Reader.between, Wire.sizeOfBytes, List.length_append]
      omega

end Reader

/- A finished file of which the end is missing is refused if its front is not whole. If it is, the
messages that are whole tell their records as they were written, and then the file ends, as it should
if it was cut between two messages, and with an error if it was cut within one. -/
theorem truncatedFileReads {records : List Record} {bytes : ByteArray}
    (finished : (fileDespite records).2 = .ok bytes) {n : Nat} (shorter : n < bytes.size) :
    Reader.MadeOf bytes (framesOf records) ∧
      (n < Reader.preamble.length ∧ (∃ e, Reader.ofFile (bytes.extract 0 n) = .error e) ∨
        Reader.preamble.length ≤ n ∧ ∃ reader first rest table,
          Reader.ofFile (bytes.extract 0 n) = .ok reader ∧ keptOf records = first ++ rest ∧
            Reader.Told #[] (Reader.complete (framesOf records) (n - Reader.preamble.length))
              first table ∧
            Reader.CutReads (framesOf records) n reader first) := by
  obtain ⟨_, table, emitted⟩ := despiteEmitted finished
  refine ⟨emitted.toMadeOf, ?_⟩
  by_cases within : n < Reader.preamble.length
  · refine .inl ⟨within, ?_⟩
    rw [emitted.bytes, Reader.fileWith, Reader.extractFront,
      List.take_append_of_le_length (Nat.le_of_lt within)]
    exact Reader.preambleCut within
  · have opens := Nat.le_of_not_lt within
    exact .inr ⟨opens, Reader.cutTold emitted.toMadeOf emitted.tells opens shorter⟩

theorem survivorCut : ∃ bytes reader e, (fileDespite survivors).2 = .ok bytes ∧
    keptOf survivors = [survivor] ∧
    Reader.ofFile (bytes.extract 0 (Reader.preamble.length + 1)) = .ok reader ∧
    Reader.Short e ∧ reader.records = ([], some e) := by
  obtain ⟨bytes, finished⟩ := survivorsFinished
  obtain ⟨_, _, emitted⟩ := despiteEmitted finished
  have shorter : Reader.preamble.length + 1 < bytes.size := by
    have some := Reader.toldFewer emitted.tells
    rw [survivorsKept, List.length_singleton] at some
    obtain ⟨f, fs, frames⟩ := List.exists_cons_of_length_pos some
    have long := octetsLength f
    rw [emitted.bytes, frames, Reader.fileWith, Wire.sizeOfBytes, List.length_append,
      List.flatMap_cons, List.length_append]
    omega
  obtain ⟨_, ⟨front, _⟩ | ⟨_, reader, first, _, _, opened, _, told, reads⟩⟩ :=
    truncatedFileReads finished shorter
  · omega
  · rw [Nat.add_sub_cancel_left, Reader.completeNone] at told
    cases told
    cases reads with
    | between boundary => exact absurd boundary Reader.boundaryApart
    | within _ short _ records =>
      exact ⟨bytes, reader, _, finished, survivorsKept, opened, short, records⟩

end CxxSymbols.Store
