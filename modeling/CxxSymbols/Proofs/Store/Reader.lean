import CxxSymbols.Proofs.Stateful
import CxxSymbols.Proofs.Store.Message
import CxxSymbols.Store.Reader
/-! What a reader does at the front of a message. The file is given as the bytes that were read and
those that were not, so that a step moves bytes from the second part to the first. What a message
says depends on its bytes and on the string table, and on nothing else in the file. -/
namespace CxxSymbols.Store
open Stateful

/-! ### Numbers in front of a message -/

theorem leb128InReadsBack {left n : Nat} (fits : n < Wire.room (left + 1)) (rest : List UInt8) :
    leb128In (left + 1) (Wire.varint n ++ rest) = .ok (n, (Wire.varint n).length) := by
  induction left generalizing n with
  | zero =>
    have small : n < 128 := fits
    rw [Wire.varint, if_pos small]
    simp [leb128In, UInt8.toNat_ofNat_of_lt' (by omega : n < 256), small]
  | succ left ih =>
    rw [Wire.varint]
    split
    · rename_i small
      simp [leb128In, UInt8.toNat_ofNat_of_lt' (by omega : n < 256), small]
    · have fewer : n / 128 < Wire.room (left + 1) := by
        rw [Wire.room] at fits
        omega
      have byte := UInt8.toNat_ofNat_of_lt' (by omega : n % 128 + 128 < 256)
      rw [List.cons_append, leb128In, byte, if_neg (by omega), ih fewer]
      simp only [Except.map, List.length_cons, Except.ok.injEq, Prod.mk.injEq, and_true]
      omega

theorem varintSizeBound {left n : Nat} (fits : n < Wire.room (left + 1)) :
    (Wire.varint n).length ≤ left + 1 := by
  induction left generalizing n with
  | zero =>
    have small : n < 128 := fits
    rw [Wire.varint, if_pos small]
    exact Nat.le_refl _
  | succ left ih =>
    rw [Wire.varint]
    split
    · exact Nat.succ_le_succ (Nat.zero_le _)
    · have fewer : n / 128 < Wire.room (left + 1) := by
        rw [Wire.room] at fits
        omega
      exact Nat.succ_le_succ (ih fewer)

theorem leb128ReadsBack {n : Nat} (fits : n < UInt64.size) :
    leb128 (Wire.varint n) = .ok (n, (Wire.varint n).length) := by
  have wide : n < Wire.room (9 + 1) := Nat.lt_trans fits (by decide)
  have reads := leb128InReadsBack wide []
  rw [List.append_nil] at reads
  simp only [leb128, leb128Size, reads, Except.map, Nat.mod_eq_of_lt fits]

theorem leb128InFront {left n : Nat} {bytes : List UInt8}
    (reads : leb128In left bytes = .ok (n, bytes.length)) (rest : List UInt8) :
    bytes.length ≤ left ∧ leb128In left (bytes ++ rest) = .ok (n, bytes.length) := by
  induction left generalizing n bytes with
  | zero => cases reads
  | succ left ih =>
    cases bytes with
    | nil => cases reads
    | cons b bytes =>
      rw [leb128In] at reads
      rw [List.cons_append, leb128In]
      split at reads
      · rename_i last
        rw [if_pos last]
        simp only [List.length_cons, Except.ok.injEq, Prod.mk.injEq] at reads ⊢
        omega
      · rename_i more
        rw [if_neg more]
        cases further : leb128In left bytes with
        | error e =>
          rw [further] at reads
          cases reads
        | ok found =>
          obtain ⟨m, size⟩ := found
          rw [further] at reads
          simp only [Except.map, List.length_cons, Except.ok.injEq, Prod.mk.injEq] at reads
          obtain rfl : size = bytes.length := by omega
          obtain ⟨short, whole⟩ := ih further
          refine ⟨Nat.succ_le_succ short, ?_⟩
          rw [whole]
          simp only [Except.map, List.length_cons, reads.1]

/- Only the first ten bytes are looked at, which is enough for 64 bits. -/
theorem leb128Front {n : Nat} {bytes : List UInt8} (reads : leb128 bytes = .ok (n, bytes.length))
    (rest : List UInt8) : leb128 ((bytes ++ rest).take leb128Size) = .ok (n, bytes.length) := by
  rw [leb128] at reads ⊢
  cases found : leb128In leb128Size bytes with
  | error e =>
    rw [found] at reads
    cases reads
  | ok number =>
    obtain ⟨m, size⟩ := number
    rw [found] at reads
    simp only [Except.map, Except.ok.injEq, Prod.mk.injEq] at reads
    obtain ⟨value, rfl⟩ := reads
    have short := (leb128InFront found []).1
    rw [List.take_append, List.take_of_length_le short, (leb128InFront found _).2]
    simp only [Except.map, value]

namespace Reader

/- A reader that has read `before`, has `after` in front of it, and holds a string table. -/
def between (before after : List UInt8) (strings : Array String) : Reader :=
  ⟨Wire.ofBytes (before ++ after), before.length, strings⟩

variable {before after : List UInt8} {strings : Array String}

theorem windowBetween (before after : List UInt8) (strings : Array String) (count : Nat) :
    (between before after strings).window count = after.take count := by
  have listed : (between before after strings).window count =
      ((before ++ after).take (before.length + count)).drop before.length := by
    simp [window, between, Wire.ofBytes, List.extract_eq_take_drop, List.drop_take]
  rw [listed, List.take_append, List.drop_append]
  simp

theorem skipBetween (front after : List UInt8) :
    skip front.length (between before (front ++ after) strings) =
      .ok () (between (before ++ front) after strings) := by
  have within : min (Wire.ofBytes (before ++ (front ++ after))).size
      (before.length + front.length) = before.length + front.length := by
    simp only [Wire.sizeOfBytes, List.length_append]
    omega
  have moved : skip front.length (between before (front ++ after) strings) =
      .ok () ⟨Wire.ofBytes (before ++ (front ++ after)), min
        (Wire.ofBytes (before ++ (front ++ after))).size (before.length + front.length),
        strings⟩ := rfl
  rw [moved, within, between, List.append_assoc, List.length_append]

theorem number?AtEnd : number? (between before [] strings) =
    .ok none (between before [] strings) := by
  have nothing := windowBetween before [] strings leb128Size
  refine (bindOk rfl).trans ?_
  simp only [nothing]
  rfl

theorem number?Front {n : Nat} {bytes : List UInt8} (reads : leb128 bytes = .ok (n, bytes.length))
    (after : List UInt8) : number? (between before (bytes ++ after) strings) =
      .ok (some n) (between (before ++ bytes) after strings) := by
  have window := windowBetween before (bytes ++ after) strings leb128Size
  have something : ((bytes ++ after).take leb128Size).isEmpty = false := by
    cases bytes with
    | nil => cases reads
    | cons b bytes => rfl
  refine (bindOk rfl).trans ?_
  simp only [window, something, leb128Front reads]
  exact bindOk (skipBetween bytes after)

theorem number?Error {e : StoreError} {bytes after : List UInt8}
    (window : (bytes ++ after).take leb128Size = bytes) (fails : leb128 bytes = .error e)
    (something : bytes ≠ []) : number? (between before (bytes ++ after) strings) =
      .error e (between (before ++ bytes) after strings) := by
  have seen := windowBetween before (bytes ++ after) strings leb128Size
  rw [window] at seen
  have filled : bytes.isEmpty = false := List.isEmpty_eq_false_iff.mpr something
  refine (bindOk rfl).trans ?_
  simp only [seen, filled, fails]
  exact bindOk (skipBetween bytes after)

theorem number?ErrorAtEnd {e : StoreError} {bytes : List UInt8} (short : bytes.length ≤ leb128Size)
    (fails : leb128 bytes = .error e) (something : bytes ≠ []) :
    number? (between before bytes strings) = .error e (between (before ++ bytes) [] strings) := by
  have window : (bytes ++ []).take leb128Size = bytes := by
    rw [List.append_nil]
    exact List.take_of_length_le short
  have read := @number?Error before strings e bytes [] window fails something
  rwa [List.append_nil] at read

theorem number?Between {n : Nat} (fits : n < UInt64.size) (after : List UInt8) :
    number? (between before (Wire.varint n ++ after) strings) =
      .ok (some n) (between (before ++ Wire.varint n) after strings) :=
  number?Front (leb128ReadsBack fits) after

/-! ### A message -/

theorem frameHead?AtEnd : frameHead? (between before [] strings) =
    .ok none (between before [] strings) :=
  bindOk number?AtEnd

theorem frameHead?Front {length code : Nat} {lengthBytes codeBytes : List UInt8}
    (lengthReads : leb128 lengthBytes = .ok (length, lengthBytes.length))
    (codeReads : leb128 codeBytes = .ok (code, codeBytes.length))
    (small : length ≤ maxMessageSize) (known : code < 0x80000000) (before after : List UInt8)
    (strings : Array String) :
    frameHead? (between before (lengthBytes ++ (codeBytes ++ after)) strings) =
      .ok (some (length, MessageType.ofCode? code))
        (between (before ++ lengthBytes ++ codeBytes) after strings) := by
  refine (bindOk (number?Front lengthReads _)).trans ?_
  simp only [if_neg (Nat.not_lt.mpr small)]
  refine (bindOk (number?Front codeReads _)).trans ?_
  simp only [if_neg (Nat.not_le.mpr known)]
  rfl

theorem frameHead?Between {length code : Nat} (small : length ≤ maxMessageSize)
    (known : code < 0x80000000) (before after : List UInt8) (strings : Array String) :
    frameHead? (between before (Wire.varint length ++ (Wire.varint code ++ after)) strings) =
      .ok (some (length, MessageType.ofCode? code))
        (between (before ++ Wire.varint length ++ Wire.varint code) after strings) :=
  frameHead?Front (leb128ReadsBack (Nat.lt_of_le_of_lt small (by decide)))
    (leb128ReadsBack (Nat.lt_trans known (by decide))) small known before after strings

theorem payloadBetween (before bytes after : List UInt8) (strings : Array String) :
    payload bytes.length (between before (bytes ++ after) strings) =
      .ok bytes (between (before ++ bytes) after strings) := by
  have window := windowBetween before (bytes ++ after) strings bytes.length
  rw [List.take_left] at window
  have whole : ¬(between before (bytes ++ after) strings).file.size <
      (between before (bytes ++ after) strings).position + bytes.length := by
    simp only [between, Wire.sizeOfBytes, List.length_append]
    omega
  refine (bindOk rfl).trans ((bindOk (skipBetween bytes after)).trans ?_)
  simp only [if_neg whole, window]
  rfl

def said (strings : Array String) (bytes : List UInt8) :
    Option MessageType → Except StoreError (Option Record) × Array String
  | some .invalid | some .header => (.error .invalidMessageType, strings)
  | some .stringTable =>
    match StringTable.decode? bytes with
    | some table => (.ok none, table)
    | none => (.error .decoding, strings)
  | some .symbol => (record ((SymbolMessage.decode? bytes).map (row strings)) .symbol, strings)
  | some .typeInfo =>
    (record ((TypeInfoMessage.decode? bytes).map TypeInfoMessage.toRecord) .typeInfo, strings)
  | some .vtable => (record ((VTableMessage.decode? bytes).map .ok) .vtable, strings)
  | some .index =>
    (record ((IndexMessage.decode? bytes).map IndexMessage.toRecord) .index, strings)
  | none => (.ok none, strings)
where
  record {α : Type} (read : Option (Except StoreError α)) (kind : α → Record) :
      Except StoreError (Option Record) :=
    match read with
    | some (.ok a) => .ok (some (kind a))
    | some (.error e) => .error e
    | none => .error .decoding

def ends {α : Type} (r : Reader) : Except StoreError α → EStateM.Result StoreError Reader α
  | .ok a => .ok a r
  | .error e => .error e r

theorem messageBetween {type : Option MessageType} (read : type ≠ some .invalid ∧
    type ≠ some .header) (before bytes after : List UInt8) (strings : Array String) :
    message type bytes.length (between before (bytes ++ after) strings) =
      ends (between (before ++ bytes) after (said strings bytes type).2)
        (said strings bytes type).1 := by
  have taken := payloadBetween before bytes after strings
  rcases type with _ | type
  · exact bindOk taken
  · cases type with
    | invalid => exact absurd rfl read.1
    | header => exact absurd rfl read.2
    | stringTable =>
      refine (bindOk taken).trans ?_
      simp only [said]
      cases StringTable.decode? bytes <;> rfl
    | symbol =>
      refine (bindOk taken).trans ?_
      simp only [said]
      cases SymbolMessage.decode? bytes with
      | none => rfl
      | some m =>
        simp only [Option.map_some, said.record]
        refine (bindOk rfl).trans ((bindOk rfl).trans ?_)
        show (ofExcept (row strings m) >>= _) _ = _
        cases row strings m <;> rfl
    | typeInfo =>
      refine (bindOk taken).trans ?_
      simp only [said]
      cases TypeInfoMessage.decode? bytes with
      | none => rfl
      | some m =>
        simp only [Option.map_some, said.record]
        refine (bindOk rfl).trans ?_
        cases m.toRecord <;> rfl
    | vtable =>
      refine (bindOk taken).trans ?_
      simp only [said]
      cases VTableMessage.decode? bytes <;> rfl
    | index =>
      refine (bindOk taken).trans ?_
      simp only [said]
      cases IndexMessage.decode? bytes with
      | none => rfl
      | some m =>
        simp only [Option.map_some, said.record]
        refine (bindOk rfl).trans ?_
        cases m.toRecord <;> rfl

end Reader
end CxxSymbols.Store
