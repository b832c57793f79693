import CxxSymbols.Proofs.Store.Frame
import Mathlib.Control.Monad.Basic
/-! Reading on past errors. Whatever a complete message says, and if it is an error, the reader
comes to stand right behind it with the string table that it should have. So each message of a file
is answered for itself, in order, and nothing of one message gets into the answer to another. -/
namespace CxxSymbols.Store
open Stateful

namespace Frame
variable {f g : Frame} {t t' : Array String}

def answer? (t : Array String) (f : Frame) : Option (Except StoreError Record) :=
  match (Reader.said t f.payload f.type).1 with
  | .ok record => record.map .ok
  | .error e => some (.error e)

def table? (f : Frame) : Option (Array String) :=
  match f.type with
  | some .stringTable => StringTable.decode? f.payload
  | _ => none

def tableBehind (seen : List Frame) : Array String :=
  (seen.filterMap table?).getLast?.getD #[]

def answersBehind (seen : List Frame) : List Frame → List (Except StoreError Record)
  | [] => []
  | f :: rest => (f.answer? (tableBehind seen)).toList ++ answersBehind (seen ++ [f]) rest

def Ordinary (f : Frame) : Prop :=
  f.code ≠ MessageType.invalid.code ∧ f.code ≠ MessageType.header.code

instance (f : Frame) : Decidable f.Ordinary := by unfold Ordinary; infer_instance

def Recorded (f : Frame) : Prop :=
  f.type ∈ [some .symbol, some .typeInfo, some .vtable, some .index]

def Refers (f : Frame) : Prop :=
  f.type = some .symbol ∧
    ∃ m index, SymbolMessage.decode? f.payload = some m ∧ m.key = some (.ref index)

/- How a message is answered. What it is answered with is told by its type, what it is made of, and,
where it refers to the string table, that table. -/
structure Answered (f : Frame) : Prop where
  once : f.Recorded → ∀ t, ∃ answer, f.answer? t = some answer ∧
    ∀ record, answer = .ok record → f.type = some record.messageType
  tableRead : f.type = some .stringTable → (StringTable.decode? f.payload).isSome →
    ∀ t, f.answer? t = none
  tableRefused : f.type = some .stringTable → StringTable.decode? f.payload = none →
    ∀ t, f.answer? t = some (.error .decoding)
  unknown : f.type = none → ∀ t, f.answer? t = none
  alone : ∀ (g : Frame) (t t' : Array String), g.type = f.type → g.payload = f.payload →
    (f.Refers → t' = t) → g.answer? t' = f.answer? t

/-! ### One message -/

theorem recordAnswered {α : Type} (kind : α → Record) {read : Option (Except StoreError α)}
    (spoken : (Reader.said t f.payload f.type).1 = Reader.said.record read kind)
    (type : ∀ a, f.type = some (kind a).messageType) :
    ∃ answer, f.answer? t = some answer ∧
      ∀ record, answer = .ok record → f.type = some record.messageType := by
  rw [answer?, spoken]
  rcases read with _ | e | a
  · exact ⟨_, rfl, by rintro _ ⟨⟩⟩
  · exact ⟨_, rfl, by rintro _ ⟨⟩⟩
  · exact ⟨_, rfl, by rintro _ ⟨⟩; exact type a⟩

theorem answeredOnce (recorded : f.Recorded) (t : Array String) :
    ∃ answer, f.answer? t = some answer ∧
      ∀ record, answer = .ok record → f.type = some record.messageType := by
  simp only [Recorded, List.mem_cons, List.not_mem_nil, or_false] at recorded
  rcases recorded with type | type | type | type
  · exact recordAnswered .symbol (by rw [type]; rfl) (fun _ => type)
  · exact recordAnswered .typeInfo (by rw [type]; rfl) (fun _ => type)
  · exact recordAnswered .vtable (by rw [type]; rfl) (fun _ => type)
  · exact recordAnswered .index (by rw [type]; rfl) (fun _ => type)

theorem rowAlone {m : SymbolMessage} (text : ∀ index, m.key ≠ some (.ref index))
    (t t' : Array String) : Reader.row t' m = Reader.row t m := by
  rw [Reader.row, Reader.row]
  rcases key : m.key with _ | index | text'
  · rfl
  · exact absurd key (text index)
  · rfl

theorem symbolAlone (type : f.type = some .symbol) (same : f.Refers → t' = t) :
    f.answer? t' = f.answer? t := by
  by_cases refers : f.Refers
  · rw [same refers]
  · rw [answer?, answer?, type, Reader.said, Reader.said]
    cases decodes : SymbolMessage.decode? f.payload with
    | none => rfl
    | some m =>
      have text : ∀ index, m.key ≠ some (.ref index) :=
        fun index key => refers ⟨type, m, index, decodes, key⟩
      rw [Option.map_some, Option.map_some, rowAlone text t t']

theorem answeredAlone (same : f.Refers → t' = t) : f.answer? t' = f.answer? t := by
  by_cases symbol : f.type = some .symbol
  · exact symbolAlone symbol same
  · rw [answer?, answer?]
    generalize f.type = type at symbol
    rcases type with _ | _ | _ | _ | _ | _ | _ | _
    case some.symbol => exact absurd rfl symbol
    case some.stringTable =>
      rw [Reader.said, Reader.said]
      cases StringTable.decode? f.payload <;> rfl
    all_goals rfl

theorem answered (f : Frame) : f.Answered where
  once := answeredOnce
  tableRead := by
    intro type decodes t
    obtain ⟨table, found⟩ := Option.isSome_iff_exists.mp decodes
    rw [answer?, type, Reader.said, found]
    rfl
  tableRefused := by
    intro type decodes t
    rw [answer?, type, Reader.said, decodes]
  unknown := by
    intro type t
    rw [answer?, type]
    rfl
  alone := by
    intro g t t' type payload same
    have alike : g.answer? t' = f.answer? t' := by rw [answer?, answer?, type, payload]
    exact alike.trans (answeredAlone same)

theorem codeOfType {type : MessageType} (typed : f.type = some type) : f.code = type.code := by
  unfold Frame.type MessageType.ofCode? at typed
  split at typed <;> cases typed <;> assumption

theorem ordinaryType (ordinary : f.Ordinary) :
    f.type ≠ some .invalid ∧ f.type ≠ some .header :=
  ⟨fun type => ordinary.1 (codeOfType type), fun type => ordinary.2 (codeOfType type)⟩

theorem tableLeft (seen : List Frame) (f : Frame) :
    (Reader.said (tableBehind seen) f.payload f.type).2 = tableBehind (seen ++ [f]) := by
  have behind : tableBehind (seen ++ [f]) = f.table?.getD (tableBehind seen) := by
    rw [tableBehind, List.filterMap_append]
    cases own : f.table? with
    | none => simp [own, tableBehind]
    | some table => simp [own]
  rw [behind, table?]
  rcases f.type with _ | _ | _ | _ | _ | _ | _ | _
  case some.stringTable =>
    rw [Reader.said]
    cases StringTable.decode? f.payload <;> rfl
  all_goals rfl

theorem octetsPositive (f : Frame) : 0 < f.octets.length := by
  have something : f.lengthBytes ≠ [] := fun empty => by
    have reads := f.lengthReads
    rw [empty] at reads
    cases reads
  have positive := List.length_pos_iff.mpr something
  rw [octets, List.length_append]
  omega

theorem fewerThanOctets (fs : List Frame) : fs.length ≤ (fs.flatMap octets).length := by
  induction fs with
  | nil => exact Nat.le_refl _
  | cons f fs ih =>
    have here := octetsPositive f
    rw [List.flatMap_cons, List.length_append, List.length_cons]
    omega

end Frame

/-! ### A row of messages -/

namespace Reader
open Store.Frame (answersBehind tableBehind)
variable {f : Frame} {seen fs : List Frame}

/- Reading again and again, past errors: what each read comes to, and then the end of the file,
where nothing is left and which is met again. -/
inductive Answers : Reader → List (Except StoreError Record) → Prop where
  | ended {r r' : Reader} (nothing : read r = .ok none r') (again : read r' = .ok none r')
      (all : r'.position = r'.file.size) : Answers r []
  | record {r r' : Reader} {x xs} (reads : read r = .ok (some x) r') (rest : Answers r' xs) :
      Answers r (.ok x :: xs)
  | failed {r r' : Reader} {e xs} (fails : read r = .error e r') (rest : Answers r' xs) :
      Answers r (.error e :: xs)

def behind (before : List UInt8) (seen fs : List Frame) : Reader :=
  between before (fs.flatMap Frame.octets) (tableBehind seen)

def comes (r : Reader) : Except StoreError Record →
    EStateM.Result StoreError Reader (Option Record)
  | .ok record => .ok (some record) r
  | .error e => .error e r

theorem readInBehind (ordinary : f.Ordinary) (seen fs : List Frame) (before : List UInt8)
    (rounds : Nat) :
    readIn (rounds + 1) (behind before seen (f :: fs)) =
      match f.answer? (tableBehind seen) with
      | some answer => comes (behind (before ++ f.octets) (seen ++ [f]) fs) answer
      | none => readIn rounds (behind (before ++ f.octets) (seen ++ [f]) fs) := by
  rw [behind, List.flatMap_cons, readInAtFrame (Frame.ordinaryType ordinary), Frame.tableLeft,
    Frame.answer?]
  rcases (said (tableBehind seen) f.payload f.type).1 with e | _ | record <;> rfl

theorem readInSilence (silent : answersBehind seen fs = []) (ordinary : ∀ f ∈ fs, f.Ordinary)
    {rounds : Nat} (enough : fs.length < rounds) (before : List UInt8) :
    ∃ seen', readIn rounds (behind before seen fs) =
      .ok none (behind (before ++ fs.flatMap Frame.octets) seen' []) := by
  induction fs generalizing seen rounds before with
  | nil =>
    obtain ⟨left, rfl⟩ := Nat.exists_eq_add_one_of_ne_zero (Nat.ne_of_gt enough)
    refine ⟨seen, ?_⟩
    rw [List.flatMap_nil, List.append_nil]
    exact bindOk frameHead?AtEnd
  | cons f fs ih =>
    obtain ⟨left, rfl⟩ := Nat.exists_eq_add_one_of_ne_zero (Nat.ne_zero_of_lt enough)
    obtain ⟨passed, rest⟩ := List.append_eq_nil_iff.mp silent
    have none := Option.toList_eq_nil_iff.mp passed
    obtain ⟨seen', reads⟩ := ih rest (fun g mem => ordinary g (List.mem_cons_of_mem _ mem))
      (Nat.lt_of_succ_lt_succ enough) (before ++ f.octets)
    refine ⟨seen', ?_⟩
    rw [readInBehind (ordinary f List.mem_cons_self), none, List.flatMap_cons, ← List.append_assoc]
    exact reads

theorem readInAnswer {answer : Except StoreError Record} {answers : List (Except StoreError Record)}
    (next : answersBehind seen fs = answer :: answers) (ordinary : ∀ f ∈ fs, f.Ordinary)
    {rounds : Nat} (enough : fs.length < rounds) (before : List UInt8) :
    ∃ before' seen' back, answersBehind seen' back = answers ∧ (∀ f ∈ back, f.Ordinary) ∧
      readIn rounds (behind before seen fs) = comes (behind before' seen' back) answer := by
  induction fs generalizing seen rounds before with
  | nil => cases next
  | cons f fs ih =>
    obtain ⟨left, rfl⟩ := Nat.exists_eq_add_one_of_ne_zero (Nat.ne_zero_of_lt enough)
    have others := fun g mem => ordinary g (List.mem_cons_of_mem _ mem)
    rw [readInBehind (ordinary f List.mem_cons_self)]
    rw [answersBehind] at next
    cases here : f.answer? (tableBehind seen) with
    | none =>
      rw [here] at next
      exact ih next others (Nat.lt_of_succ_lt_succ enough) _
    | some first =>
      rw [here] at next
      obtain ⟨rfl, rest⟩ := List.cons.inj next
      exact ⟨_, _, fs, rest, others, rfl⟩

theorem readBehind (before : List UInt8) (seen fs : List Frame) :
    ∃ rounds, fs.length < rounds ∧
      read (behind before seen fs) = readIn rounds (behind before seen fs) :=
  ⟨_, Nat.lt_succ_of_le (Frame.fewerThanOctets fs), readBetween _ _ _⟩

theorem readBehindAll (before : List UInt8) (seen : List Frame) :
    read (behind before seen []) = .ok none (behind before seen []) := by
  obtain ⟨rounds, enough, read⟩ := readBehind before seen []
  obtain ⟨left, rfl⟩ := Nat.exists_eq_add_one_of_ne_zero (Nat.ne_of_gt enough)
  exact read.trans (bindOk frameHead?AtEnd)

theorem answersRead {answers : List (Except StoreError Record)}
    (told : answersBehind seen fs = answers) (ordinary : ∀ f ∈ fs, f.Ordinary)
    (before : List UInt8) : Answers (behind before seen fs) answers := by
  obtain ⟨rounds, enough, reads⟩ := readBehind before seen fs
  induction answers generalizing seen fs before rounds with
  | nil =>
    obtain ⟨seen', ends⟩ := readInSilence told ordinary enough before
    refine .ended (reads.trans ends) (readBehindAll _ _) ?_
    simp only [behind, between, Wire.sizeOfBytes, List.flatMap_nil, List.append_nil]
  | cons answer answers ih =>
    obtain ⟨before', seen', back, rest, others, comes⟩ := readInAnswer told ordinary enough before
    obtain ⟨rounds', enough', reads'⟩ := readBehind before' seen' back
    have further := ih rest others before' rounds' enough' reads'
    cases answer with
    | ok record => exact .record (reads.trans comes) further
    | error e => exact .failed (reads.trans comes) further

def fileOf (header : Frame) (frames : List Frame) : ByteArray :=
  Wire.ofBytes (magic.toUTF8.data.toList ++ (header.octets ++ frames.flatMap Frame.octets))

theorem readingResumes {header : Frame} {frames : List Frame} (type : header.type = some .header)
    (version : Header.decode? header.payload = some formatVersion)
    (ordinary : ∀ f ∈ frames, f.Ordinary) :
    (∃ reader, ofFile (fileOf header frames) = .ok reader ∧
      reader.Answers (answersBehind [] frames)) ∧ ∀ f ∈ frames, f.Answered := by
  refine ⟨⟨behind (magic.toUTF8.data.toList ++ header.octets) [] frames, ?_,
    answersRead rfl ordinary _⟩, fun f _ => f.answered⟩
  rw [fileOf, ofFileMagic, headerAtFrame type version]
  rfl

def interrupted : List Frame :=
  let symbol : Frame := ⟨[6], [3], [8, 0, 40, 1, 48, 1], 3, rfl, rfl, by decide, by decide⟩
  let table : Frame := ⟨[3], [2], [10, 1, 97], 2, rfl, rfl, by decide, by decide⟩
  let unknown : Frame := ⟨[130, 0], [9], [255, 255], 9, rfl, rfl, by decide, by decide⟩
  let broken : Frame := ⟨[2], [2], [10, 5], 2, rfl, rfl, by decide, by decide⟩
  [symbol, table, unknown, symbol, broken, symbol]

theorem interruptedResumes :
    ∃ reader, ofFile (fileOf ⟨[2], [1], [8, 1], 1, rfl, rfl, by decide, by decide⟩ interrupted) =
        .ok reader ∧
      reader.Answers [.error .invalidStringTableIndex, .ok (.symbol ⟨"a", "", "", .data, .pdb, 0⟩),
        .error .decoding, .ok (.symbol ⟨"a", "", "", .data, .pdb, 0⟩)] := by
  have answers : answersBehind [] interrupted = [.error .invalidStringTableIndex,
      .ok (.symbol ⟨"a", "", "", .data, .pdb, 0⟩), .error .decoding,
      .ok (.symbol ⟨"a", "", "", .data, .pdb, 0⟩)] := by decide +kernel
  rw [← answers]
  exact (readingResumes rfl (by decide +kernel) (by decide +kernel)).1

end Reader
end CxxSymbols.Store
