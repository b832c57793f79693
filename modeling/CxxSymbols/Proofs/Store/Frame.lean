import CxxSymbols.Proofs.Store.Reader
/-! Files as messages in a row. `Told` says which records a row of messages holds, where string
tables take effect as they come; a reader at the front of the row yields these records, and then
meets the end of the file. -/
namespace CxxSymbols.Store
open Stateful

def Record.messageType : Record → MessageType
  | symbol _ => .symbol
  | typeInfo _ => .typeInfo
  | vtable _ => .vtable
  | index _ => .index

/- A complete message, whoever wrote it: its numbers may take more bytes than they need, its type
may be unknown, and what it is made of need not say anything. -/
structure Frame where
  lengthBytes : List UInt8
  codeBytes : List UInt8
  payload : List UInt8
  code : Nat
  lengthReads : leb128 lengthBytes = .ok (payload.length, lengthBytes.length)
  codeReads : leb128 codeBytes = .ok (code, codeBytes.length)
  small : payload.length ≤ maxMessageSize
  known : code < 0x80000000

namespace Frame

def octets (f : Frame) : List UInt8 := f.lengthBytes ++ (f.codeBytes ++ f.payload)

def type (f : Frame) : Option MessageType := MessageType.ofCode? f.code

end Frame

namespace Reader

theorem frameHead?AtFrame (f : Frame) (before after : List UInt8) (t : Array String) :
    frameHead? (between before (f.octets ++ after) t) = .ok (some (f.payload.length, f.type))
      (between (before ++ f.lengthBytes ++ f.codeBytes) (f.payload ++ after) t) := by
  rw [Frame.octets, List.append_assoc, List.append_assoc]
  exact frameHead?Front f.lengthReads f.codeReads f.small f.known before _ t

theorem payloadAtFrame (f : Frame) (before after : List UInt8) (t : Array String) :
    payload f.payload.length
        (between (before ++ f.lengthBytes ++ f.codeBytes) (f.payload ++ after) t) =
      .ok f.payload (between (before ++ f.octets) after t) := by
  rw [payloadBetween, Frame.octets]
  simp only [List.append_assoc]

theorem readInAtFrame {f : Frame} (ordinary : f.type ≠ some .invalid ∧ f.type ≠ some .header)
    (before after : List UInt8) (t : Array String) (rounds : Nat) :
    readIn (rounds + 1) (between before (f.octets ++ after) t) =
      match (said t f.payload f.type).1 with
      | .ok (some r) =>
        .ok (some r) (between (before ++ f.octets) after (said t f.payload f.type).2)
      | .ok none =>
        readIn rounds (between (before ++ f.octets) after (said t f.payload f.type).2)
      | .error e => .error e (between (before ++ f.octets) after (said t f.payload f.type).2) := by
  have whole := messageBetween ordinary (before ++ f.lengthBytes ++ f.codeBytes) f.payload after t
  have joined : before ++ f.lengthBytes ++ f.codeBytes ++ f.payload = before ++ f.octets := by
    simp only [Frame.octets, List.append_assoc]
  rw [joined] at whole
  rw [readIn]
  refine (bindOk (frameHead?AtFrame f before after t)).trans ?_
  generalize (said t f.payload f.type).1 = spoken at whole
  rcases spoken with e | _ | r
  · exact bindError whole
  · exact bindOk whole
  · exact bindOk whole

theorem headerAtFrame {f : Frame} (type : f.type = some .header)
    (version : Header.decode? f.payload = some formatVersion) (before after : List UInt8) :
    ofFile.header (between before (f.octets ++ after) #[]) =
      .ok () (between (before ++ f.octets) after #[]) := by
  refine (bindOk (frameHead?AtFrame f before after #[])).trans ?_
  simp only [type]
  refine (bindOk rfl).trans ((bindOk (payloadAtFrame f before after #[])).trans ?_)
  rw [version]
  rfl

end Reader

def Framed.octets (f : Framed) : List UInt8 :=
  Wire.varint f.payload.size ++ (Wire.varint f.type.code ++ f.payload.data.toList)

abbrev Framed.Small (f : Framed) : Prop := f.payload.size ≤ maxMessageSize

theorem framedBytes {f : Framed} (small : f.Small) : f.bytes = .ok (Wire.ofBytes f.octets) := by
  have joined := Wire.ofBytesAppend (Wire.varint f.payload.size ++ Wire.varint f.type.code)
    f.payload.data.toList
  rw [Framed.bytes, if_pos small, Framed.octets, ← List.append_assoc, ← joined, Wire.ofBytesToList]

theorem framedTooLarge {f : Framed} (large : ¬f.Small) :
    f.bytes = .error (.maximumSizeExceeded f.payload.size) := by
  rw [Framed.bytes, if_neg large]

theorem framedBytesSmall {f : Framed} {bytes : ByteArray} (ok : f.bytes = .ok bytes) :
    f.Small ∧ bytes = Wire.ofBytes f.octets := by
  by_cases small : f.Small
  · cases (framedBytes small).symm.trans ok
    exact ⟨small, rfl⟩
  · cases (framedTooLarge small).symm.trans ok

theorem octetsLength (f : Framed) : 2 ≤ f.octets.length := by
  have length := Wire.varintSizePositive f.payload.size
  have type := Wire.varintSizePositive f.type.code
  simp only [Framed.octets, List.length_append]
  omega

theorem fewerThanOctets (fs : List Framed) : fs.length ≤ (fs.flatMap Framed.octets).length := by
  induction fs with
  | nil => exact Nat.le_refl _
  | cons f fs ih =>
    have here := octetsLength f
    rw [List.flatMap_cons, List.length_append, List.length_cons]
    omega

theorem codeBound (t : MessageType) : t.code < 0x80000000 := by
  cases t <;> decide

def Framed.frame (f : Framed) (small : f.Small) : Frame where
  lengthBytes := Wire.varint f.payload.size
  codeBytes := Wire.varint f.type.code
  payload := f.payload.data.toList
  code := f.type.code
  lengthReads := leb128ReadsBack (Nat.lt_of_le_of_lt small (by decide))
  codeReads := leb128ReadsBack (Nat.lt_trans (codeBound f.type) (by decide))
  small := small
  known := codeBound f.type

theorem Framed.frameType (f : Framed) (small : f.Small) : (f.frame small).type = some f.type :=
  MessageType.ofCode?Code f.type

namespace Reader
variable {before after : List UInt8} {t t' t'' : Array String} {f : Framed} {fs : List Framed}

theorem saidReads {bytes : List UInt8} {type : MessageType} {x : Option Record}
    (ok : said t bytes (some type) = (.ok x, t')) : type ≠ .invalid ∧ type ≠ .header := by
  constructor <;> rintro rfl <;> cases ok

inductive Told : Array String → List Framed → List Record → Array String → Prop where
  | nil (t : Array String) : Told t [] [] t
  | silent {t t' t'' f fs rs} (spoken : said t f.payload.data.toList (some f.type) = (.ok none, t'))
      (rest : Told t' fs rs t'') : Told t (f :: fs) rs t''
  | record {t t' t'' f fs r rs}
      (spoken : said t f.payload.data.toList (some f.type) = (.ok (some r), t'))
      (rest : Told t' fs rs t'') : Told t (f :: fs) (r :: rs) t''

theorem toldAppend {gs : List Framed} {rs ss : List Record} (left : Told t fs rs t')
    (right : Told t' gs ss t'') : Told t (fs ++ gs) (rs ++ ss) t'' := by
  induction left with
  | nil => exact right
  | silent spoken _ ih => exact .silent spoken (ih right)
  | record spoken _ ih => exact .record spoken (ih right)

theorem toldFewer {rs : List Record} (told : Told t fs rs t') : rs.length ≤ fs.length := by
  induction told with
  | nil => exact Nat.le_refl _
  | silent spoken _ ih => exact Nat.le_succ_of_le ih
  | record spoken _ ih => exact Nat.succ_le_succ ih

theorem readInAtFramed {x : Option Record} (small : f.Small)
    (spoken : said t f.payload.data.toList (some f.type) = (.ok x, t')) (rounds : Nat) :
    readIn (rounds + 1) (between before (f.octets ++ after) t) =
      match x with
      | some r => .ok (some r) (between (before ++ f.octets) after t')
      | none => readIn rounds (between (before ++ f.octets) after t') := by
  have reads := saidReads spoken
  have ordinary : (f.frame small).type ≠ some .invalid ∧ (f.frame small).type ≠ some .header := by
    simpa only [f.frameType small, ne_eq, Option.some.injEq] using reads
  have whole := readInAtFrame ordinary before after t rounds
  rw [f.frameType small, show (f.frame small).payload = f.payload.data.toList from rfl,
    spoken] at whole
  refine whole.trans ?_
  cases x <;> rfl

theorem readInThrough {rs : List Record} (told : Told t fs rs t') (empty : rs = [])
    (small : ∀ f ∈ fs, f.Small) (rounds : Nat) (before after : List UInt8) :
    readIn (fs.length + rounds) (between before (fs.flatMap Framed.octets ++ after) t) =
      readIn rounds (between (before ++ fs.flatMap Framed.octets) after t') := by
  induction told generalizing before with
  | nil t => rw [List.flatMap_nil, List.append_nil, List.length_nil, Nat.zero_add, List.nil_append]
  | @silent t t' t'' f fs rs spoken rest ih =>
    have one := ih empty (fun g mem => small g (List.mem_cons_of_mem _ mem)) (before ++ f.octets)
    rw [List.length_cons, Nat.add_right_comm, List.flatMap_cons, List.append_assoc,
      readInAtFramed (small f List.mem_cons_self) spoken]
    rw [List.append_assoc] at one
    exact one
  | record => cases empty

theorem readInNext {all : List Record} (told : Told t fs all t') {r : Record} {rs : List Record}
    (next : all = r :: rs) (small : ∀ f ∈ fs, f.Small) {rounds : Nat}
    (enough : fs.length ≤ rounds) (before after : List UInt8) :
    ∃ front back between', fs = front ++ back ∧ Told between' back rs t' ∧
      readIn rounds (between before (fs.flatMap Framed.octets ++ after) t) =
        .ok (some r) (between (before ++ front.flatMap Framed.octets)
          (back.flatMap Framed.octets ++ after) between') := by
  induction told generalizing rounds before with
  | nil => cases next
  | @silent t t' t'' f fs rs spoken rest ih =>
    cases rounds with
    | zero => cases enough
    | succ rounds =>
      obtain ⟨front, back, table, split, remaining, reads⟩ := ih next
        (fun g mem => small g (List.mem_cons_of_mem _ mem)) (Nat.le_of_succ_le_succ enough)
        (before ++ f.octets)
      refine ⟨f :: front, back, table, by rw [split]; rfl, remaining, ?_⟩
      rw [List.flatMap_cons, List.append_assoc,
        readInAtFramed (small f List.mem_cons_self) spoken rounds, List.flatMap_cons,
        ← List.append_assoc before]
      exact reads
  | @record t t' t'' f fs r rs spoken rest ih =>
    cases next
    cases rounds with
    | zero => cases enough
    | succ rounds =>
      refine ⟨[f], fs, t', rfl, rest, ?_⟩
      rw [List.flatMap_cons, List.append_assoc,
        readInAtFramed (small f List.mem_cons_self) spoken rounds, List.flatMap_singleton]

/- Reading again and again: these records, each by one read, and then the end of the file, where
nothing is left. -/
inductive Yields : Reader → List Record → Prop where
  | ended {r r' : Reader} (nothing : read r = .ok none r') (all : r'.position = r'.file.size) :
      Yields r []
  | next {r r' : Reader} {x xs} (reads : read r = .ok (some x) r') (rest : Yields r' xs) :
      Yields r (x :: xs)

theorem readBetween (before after : List UInt8) (t : Array String) :
    read (between before after t) = readIn (after.length + 1) (between before after t) := by
  have left : (between before after t).file.size - (between before after t).position + 1 =
      after.length + 1 := by
    simp only [between, Wire.sizeOfBytes, List.length_append]
    omega
  rw [← left]
  rfl

theorem roundsEnough (fs : List Framed) (after : List UInt8) :
    ∃ rounds, (fs.flatMap Framed.octets ++ after).length = fs.length + rounds := by
  have shorter := fewerThanOctets fs
  rw [List.length_append]
  exact ⟨_, (Nat.add_sub_of_le (Nat.le_add_right_of_le shorter)).symm⟩

theorem readThrough (told : Told t fs [] t') (small : ∀ f ∈ fs, f.Small)
    (before after : List UInt8) :
    ∃ rounds, read (between before (fs.flatMap Framed.octets ++ after) t) =
      readIn (rounds + 1) (between (before ++ fs.flatMap Framed.octets) after t') := by
  obtain ⟨rounds, length⟩ := roundsEnough fs after
  refine ⟨rounds, ?_⟩
  rw [readBetween, length, Nat.add_assoc, readInThrough told rfl small]

theorem readNext {r : Record} {rs : List Record} (told : Told t fs (r :: rs) t')
    (small : ∀ f ∈ fs, f.Small) (before after : List UInt8) :
    ∃ before' back between', Told between' back rs t' ∧ (∀ f ∈ back, f.Small) ∧
      read (between before (fs.flatMap Framed.octets ++ after) t) =
        .ok (some r) (between before' (back.flatMap Framed.octets ++ after) between') := by
  obtain ⟨rounds, length⟩ := roundsEnough fs after
  have enough : fs.length ≤ (fs.flatMap Framed.octets ++ after).length + 1 := by omega
  obtain ⟨front, back, table, split, remaining, reads⟩ :=
    readInNext told rfl small enough before after
  refine ⟨_, back, table, remaining, fun f mem => small f ?_, (readBetween _ _ _).trans reads⟩
  rw [split]
  exact List.mem_append_right _ mem

theorem yieldsTold {rs : List Record} (told : Told t fs rs t') (small : ∀ f ∈ fs, f.Small)
    (before : List UInt8) : Yields (between before (fs.flatMap Framed.octets) t) rs := by
  rw [← List.append_nil (fs.flatMap Framed.octets)]
  induction rs generalizing fs t before with
  | nil =>
    obtain ⟨rounds, through⟩ := readThrough told small before []
    refine .ended (through.trans (bindOk frameHead?AtEnd)) ?_
    simp only [between, Wire.sizeOfBytes, List.append_nil]
  | cons r rs ih =>
    obtain ⟨before', back, table, remaining, fits, reads⟩ := readNext told small before []
    exact .next reads (ih remaining fits before')

theorem recordsOfYields {r : Reader} {rs : List Record} (yields : Yields r rs) {rounds : Nat}
    (enough : rs.length < rounds) : recordsIn rounds r = (rs, none) := by
  induction yields generalizing rounds with
  | ended nothing all =>
    cases rounds with
    | zero => cases enough
    | succ rounds => simp only [recordsIn, nothing]
  | next reads rest ih =>
    cases rounds with
    | zero => cases enough
    | succ rounds =>
      simp only [recordsIn, reads, ih (Nat.lt_of_succ_lt_succ enough)]

theorem recordsTold {rs : List Record} (told : Told t fs rs t') (small : ∀ f ∈ fs, f.Small)
    (before : List UInt8) :
    (between before (fs.flatMap Framed.octets) t).records = (rs, none) := by
  refine recordsOfYields (yieldsTold told small before) ?_
  have fewer := toldFewer told
  have shorter := fewerThanOctets fs
  simp only [between, Wire.sizeOfBytes, List.length_append]
  omega

/-! ### The front of a file -/

def preamble : List UInt8 :=
  magic.toUTF8.data.toList ++ (Framed.ofFields .header (Header.toFields formatVersion)).octets

theorem headerSmall : (Framed.ofFields .header (Header.toFields formatVersion)).Small := by
  simp only [Framed.Small, Framed.ofFields, Wire.encodeFields, Wire.sizeOfBytes, Header.toFields,
    Wire.numberField, formatVersion]
  simp [Wire.Field.octets, Wire.varint, maxMessageSize]

theorem preambleWritten : magic.toUTF8 ++ headerBytes = Wire.ofBytes preamble := by
  rw [headerBytes, framedBytes headerSmall, preamble, ← Wire.ofBytesAppend, Wire.ofBytesToList]

def fileWith (frames : List Framed) : ByteArray :=
  Wire.ofBytes (preamble ++ frames.flatMap Framed.octets)

structure MadeOf (bytes : ByteArray) (frames : List Framed) : Prop where
  bytes : bytes = fileWith frames
  small : ∀ f ∈ frames, f.Small

theorem headerRead (after : List UInt8) :
    ofFile.header (between magic.toUTF8.data.toList
      ((Framed.ofFields .header (Header.toFields formatVersion)).octets ++ after) #[]) =
      .ok () (between preamble after #[]) :=
  headerAtFrame (Framed.frameType _ headerSmall)
    (headerReadsBack _ (Nat.lt_of_le_of_lt headerSmall (by decide))) _ after

theorem extractFront (bytes : List UInt8) (n : Nat) :
    (Wire.ofBytes bytes).extract 0 n = Wire.ofBytes (bytes.take n) := by
  apply ByteArray.ext
  rw [ByteArray.data_extract]
  apply Array.toList_inj.mp
  simp only [Wire.ofBytes, List.extract_toArray, List.extract_eq_take_drop, Nat.sub_zero,
    List.drop_zero]

theorem magicSize : magic.toUTF8.data.toList.length = magic.utf8ByteSize := Wire.toListLength _

theorem magicInFront (after : List UInt8) :
    (Wire.ofBytes (magic.toUTF8.data.toList ++ after)).extract 0 magic.utf8ByteSize =
      magic.toUTF8 := by
  rw [extractFront, ← magicSize, List.take_left, Wire.ofBytesToList]

theorem ofFileMagic (after : List UInt8) :
    ofFile (Wire.ofBytes (magic.toUTF8.data.toList ++ after)) =
      match ofFile.header (between magic.toUTF8.data.toList after #[]) with
      | .ok _ r => .ok r
      | .error e _ => .error e := by
  have fresh : (⟨Wire.ofBytes (magic.toUTF8.data.toList ++ after), magic.utf8ByteSize, #[]⟩ :
      Reader) = between magic.toUTF8.data.toList after #[] := by
    rw [between, magicSize]
  have begins : ((Wire.ofBytes (magic.toUTF8.data.toList ++ after)).extract 0 magic.utf8ByteSize ==
      magic.toUTF8) = true := by
    rw [magicInFront]
    decide
  rw [← fresh]
  exact if_pos begins

theorem ofFilePreamble (after : List UInt8) :
    ofFile (Wire.ofBytes (preamble ++ after)) = .ok (between preamble after #[]) := by
  have split : preamble ++ after = magic.toUTF8.data.toList ++
      ((Framed.ofFields .header (Header.toFields formatVersion)).octets ++ after) :=
    List.append_assoc _ _ _
  rw [split, ofFileMagic, headerRead]

theorem fileTold {bytes : ByteArray} {rs : List Record} (made : MadeOf bytes fs)
    (told : Told #[] fs rs t') :
    ∃ reader, ofFile bytes = .ok reader ∧ reader.Yields rs ∧ reader.records = (rs, none) := by
  refine ⟨between preamble (fs.flatMap Framed.octets) #[], ?_, yieldsTold told made.small _,
    recordsTold told made.small _⟩
  rw [made.bytes]
  exact ofFilePreamble _

end Reader
end CxxSymbols.Store
