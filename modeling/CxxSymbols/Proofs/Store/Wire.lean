import CxxSymbols.Store.Wire
/-! Reading back what the encoding of fields writes. Every statement allows for bytes behind the
piece that is read, so the pieces can be put one behind the other. A number fits 64 bits, and so
does the length of a run; nothing else is asked of a field. -/
namespace CxxSymbols.Store.Wire

/-! ### Numbers -/

theorem varintNotEmpty (n : Nat) : varint n ≠ [] := by
  rw [varint]
  split <;> simp

theorem varintSizePositive (n : Nat) : 0 < (varint n).length :=
  List.length_pos_iff.mpr (varintNotEmpty n)

def room : Nat → Nat
  | 0 => 1
  | bytes + 1 => 128 * room bytes

theorem varintInReadsBack {left n : Nat} (fits : n < 2 * room left) (rest : List UInt8) :
    varintIn? (left + 1) (varint n ++ rest) = some (n, rest) := by
  induction left generalizing n with
  | zero =>
    -- the last byte has room for one bit, which doubles what the others are enough for
    have bit : n < 2 := fits
    rw [varint, if_pos (by omega)]
    simp only [List.cons_append, List.nil_append, varintIn?,
      UInt8.toNat_ofNat_of_lt' (by omega : n < 256)]
    simp [show n < 128 by omega, bit]
  | succ left ih =>
    rw [varint]
    split
    · rename_i small
      simp only [List.cons_append, List.nil_append, varintIn?,
        UInt8.toNat_ofNat_of_lt' (by omega : n < 256)]
      simp [small]
    · have fewer : n / 128 < 2 * room left := by
        rw [room] at fits
        omega
      have byte := UInt8.toNat_ofNat_of_lt' (by omega : n % 128 + 128 < 256)
      rw [List.cons_append, varintIn?, byte, if_neg (by omega), ih fewer]
      simp only [Option.some.injEq, Prod.mk.injEq, and_true]
      omega

theorem varintReadsBack {n : Nat} (fits : n < UInt64.size) (rest : List UInt8) :
    varint? (varint n ++ rest) = some (n, rest) := by
  have word : UInt64.size = 2 * room 9 := by decide
  rw [word] at fits
  exact varintInReadsBack fits rest

theorem varintsReadBack {ns : List Nat} (fit : ∀ n ∈ ns, n < UInt64.size) :
    varints? (ns.flatMap varint) = some ns := by
  induction ns with
  | nil => rw [varints?]; rfl
  | cons n ns ih =>
    have here := varintReadsBack (fit n List.mem_cons_self) (ns.flatMap varint)
    have there := ih fun m mem => fit m (List.mem_cons_of_mem _ mem)
    rw [List.flatMap_cons, varints?, if_neg (by simp [varintNotEmpty])]
    split
    · rename_i found
      cases Option.some.inj (here.symm.trans found)
      rw [there]
      rfl
    · rename_i missing
      cases here.symm.trans missing

theorem zigzagFits (n : Int64) : zigzag n < UInt64.size := by
  have low := n.minValue_le_toInt
  have high := n.toInt_lt
  rw [Int64.toInt_minValue] at low
  unfold zigzag
  split <;> simp only [UInt64.size] <;> omega

theorem zigzagReadsBack (n : Int64) : unzigzag (zigzag n) = n := by
  unfold unzigzag zigzag
  by_cases positive : 0 ≤ n.toInt
  · have even : (2 * n.toInt).toNat % 2 = 0 := by omega
    have half : (((2 * n.toInt).toNat : Int)) / 2 = n.toInt := by omega
    rw [if_pos positive, if_pos even, half, Int64.ofInt_toInt]
  · have odd : ¬(-2 * n.toInt - 1).toNat % 2 = 0 := by omega
    have half : -((((-2 * n.toInt - 1).toNat : Int)) / 2) - 1 = n.toInt := by omega
    rw [if_neg positive, if_neg odd, half, Int64.ofInt_toInt]

/-! ### Fields -/

theorem ofBytesToList (bytes : ByteArray) : ofBytes bytes.data.toList = bytes := rfl

theorem toListOfBytes (bytes : List UInt8) : (ofBytes bytes).data.toList = bytes := rfl

theorem sizeOfBytes (bytes : List UInt8) : (ofBytes bytes).size = bytes.length := by
  rw [ByteArray.size, ofBytes, List.size_toArray]

theorem toListLength (bytes : ByteArray) : bytes.data.toList.length = bytes.size :=
  Array.length_toList

theorem ofBytesAppend (a b : List UInt8) : ofBytes a ++ ofBytes b = ofBytes (a ++ b) := by
  apply ByteArray.ext
  simp [ofBytes]

def Field.octets (f : Field) : List UInt8 :=
  match f.value with
  | .varint n => varint (f.tag * 8) ++ varint n
  | .delimited bytes => varint (f.tag * 8 + 2) ++ varint bytes.size ++ bytes.data.toList
  | .fixed | .group => []

theorem encodeField (f : Field) : f.encode = ofBytes f.octets := by
  obtain ⟨tag, value⟩ := f
  cases value with
  | varint n => rfl
  | delimited bytes =>
    rw [Field.encode, Field.octets, ← ofBytesAppend, ofBytesToList]
  | fixed => rfl
  | group => rfl

theorem encodeFields (fields : List Field) :
    encode fields = ofBytes (fields.flatMap Field.octets) := by
  have step (out : List UInt8) : fields.foldl (fun out f => out ++ f.encode) (ofBytes out) =
      ofBytes (out ++ fields.flatMap Field.octets) := by
    induction fields generalizing out with
    | nil => simp
    | cons f fields ih =>
      rw [List.foldl_cons, encodeField, ofBytesAppend, ih, List.flatMap_cons, List.append_assoc]
  exact step []

/- A field that a message may hold: the tag is not zero and has 29 bits, and numbers have 64. -/
inductive Field.Sound : Field → Prop where
  | varint {tag n : Nat} (positive : 0 < tag) (small : tag < 0x20000000) (fits : n < UInt64.size) :
      Field.Sound ⟨tag, .varint n⟩
  | delimited {tag : Nat} {bytes : ByteArray} (positive : 0 < tag) (small : tag < 0x20000000) :
      Field.Sound ⟨tag, .delimited bytes⟩

theorem keyReadsBack {tag code : Nat} {type : WireType} (positive : 0 < tag)
    (small : tag < 0x20000000) (known : WireType.ofCode? code = some type) (octal : code < 8)
    (rest : List UInt8) : key? (varint (tag * 8 + code) ++ rest) = some ((tag, type), rest) := by
  have fits : tag * 8 + code < UInt64.size := by simp only [UInt64.size]; omega
  have bounds : 8 ≤ tag * 8 + code ∧ tag * 8 + code < UInt32.size := by
    simp only [UInt32.size]
    omega
  have low : (tag * 8 + code) % 8 = code := by omega
  have high : (tag * 8 + code) / 8 = tag := by omega
  simp only [key?, varintReadsBack fits, if_pos bounds, low, high, known, Option.map_some]

theorem runReadsBack {bytes : ByteArray} (fits : bytes.size < UInt64.size) (rest : List UInt8) :
    scalar? .delimited (varint bytes.size ++ bytes.data.toList ++ rest) =
      some (.delimited bytes, rest) := by
  have length := toListLength bytes
  have enough : bytes.size ≤ (bytes.data.toList ++ rest).length := by
    rw [List.length_append, length]
    omega
  rw [scalar?, List.append_assoc, varintReadsBack fits]
  simp only [dropExactly?, if_pos enough, Option.map_some]
  rw [← length, List.take_left, List.drop_left, ofBytesToList]

theorem fieldInFront {limit tag : Nat} {type : WireType} {value : Value}
    {bytes behind rest : List UInt8} (key : key? bytes = some ((tag, type), behind))
    (scalar : scalar? type behind = some (value, rest)) :
    fields? limit bytes = (fields? limit rest).map (⟨tag, value⟩ :: ·) := by
  have nonempty : ¬bytes.isEmpty = true := by
    intro empty
    have shorter := key?Shorter key
    rw [List.isEmpty_iff.mp empty] at shorter
    exact Nat.not_lt_zero _ shorter
  rw [fields?, if_neg nonempty]
  split
  · rename_i missing
    cases missing.symm.trans key
  · rename_i group
    cases group.symm.trans key
    simp [scalar?] at scalar
  · rename_i found
    cases found.symm.trans key
    split
    · rename_i value' behind' read
      cases read.symm.trans scalar
      rfl
    · rename_i missing
      cases missing.symm.trans scalar

theorem runWithinMessage {fields : List Field} {tag : Nat} {bytes : ByteArray}
    (mem : ⟨tag, .delimited bytes⟩ ∈ fields) : bytes.size ≤ (encode fields).size := by
  rw [encodeFields, sizeOfBytes]
  induction fields with
  | nil => cases mem
  | cons f fields ih =>
    rw [List.flatMap_cons, List.length_append]
    rcases List.mem_cons.mp mem with rfl | later
    · simp only [Field.octets, List.length_append, toListLength]
      omega
    · have shorter := ih later
      omega

theorem fieldReadsBack {f : Field} (sound : f.Sound) (short : f.octets.length < UInt64.size)
    (limit : Nat) (rest : List UInt8) :
    fields? limit (f.octets ++ rest) = (fields? limit rest).map (f :: ·) := by
  cases sound with
  | @varint tag n positive small fits =>
    have key : key? (varint (tag * 8) ++ (varint n ++ rest)) =
        some ((tag, .varint), varint n ++ rest) :=
      @keyReadsBack tag 0 .varint positive small rfl (by omega) _
    rw [Field.octets, List.append_assoc]
    exact fieldInFront key (by rw [scalar?, varintReadsBack fits]; rfl)
  | @delimited tag bytes positive small =>
    have fits : bytes.size < UInt64.size := by
      simp only [Field.octets, List.length_append, toListLength] at short
      omega
    have key : key? (varint (tag * 8 + 2) ++ (varint bytes.size ++ bytes.data.toList ++ rest)) =
        some ((tag, .delimited), varint bytes.size ++ bytes.data.toList ++ rest) :=
      keyReadsBack positive small rfl (by omega) _
    rw [Field.octets, List.append_assoc, List.append_assoc, ← List.append_assoc (varint bytes.size)]
    exact fieldInFront key (runReadsBack fits rest)

theorem fieldsReadBack {fields : List Field} (sound : ∀ f ∈ fields, f.Sound)
    (short : (encode fields).size < UInt64.size) (limit : Nat) :
    fields? limit (encode fields).data.toList = some fields := by
  rw [encodeFields, sizeOfBytes] at short
  rw [encodeFields, toListOfBytes]
  induction fields with
  | nil => rw [fields?]; rfl
  | cons f fields ih =>
    rw [List.flatMap_cons, List.length_append] at short
    rw [List.flatMap_cons, fieldReadsBack (sound f List.mem_cons_self) (by omega),
      ih (fun g mem => sound g (List.mem_cons_of_mem _ mem)) (by omega)]
    rfl

end CxxSymbols.Store.Wire
