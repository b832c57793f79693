import CxxSymbols.Proofs.Store.Wire
import CxxSymbols.Store.Message
/-! Every message reads back as it was written. A field that is left out has the value with which
reading begins, so each field puts its value into the message whether or not it is written. -/
namespace CxxSymbols.Store
open Wire (Field Value)

/-! ### Fields of a message -/

theorem decodedFields {α : Type} {set : α → Field → Option α} {empty : α} {fields : List Field}
    (sound : ∀ f ∈ fields, f.Sound) (short : (Wire.encode fields).size < UInt64.size)
    (limit : Nat) : decodeWith limit set empty (Wire.encode fields).data.toList =
      fields.foldlM set empty := by
  rw [decodeWith, Wire.fieldsReadBack sound short]
  rfl

section Parts
variable {α : Type} {set : α → Field → Option α} {m : α} {tag : Nat}

theorem numberSound {n : Nat} (positive : 0 < tag) (small : tag < 0x20000000)
    (fits : n < UInt64.size) : ∀ f ∈ Wire.numberField tag n, f.Sound := by
  intro f mem
  rw [Wire.numberField] at mem
  split at mem
  · cases mem
  · cases List.mem_singleton.mp mem
    exact .varint positive small fits

theorem textSound (s : String) (positive : 0 < tag) (small : tag < 0x20000000) :
    ∀ f ∈ Wire.textField tag s, f.Sound := by
  intro f mem
  rw [Wire.textField] at mem
  split at mem
  · cases mem
  · cases List.mem_singleton.mp mem
    exact .delimited positive small

theorem numbersSound (ns : List Nat) (positive : 0 < tag) (small : tag < 0x20000000) :
    ∀ f ∈ Wire.numbersField tag ns, f.Sound := by
  intro f mem
  rw [Wire.numbersField] at mem
  split at mem
  · cases mem
  · cases List.mem_singleton.mp mem
    exact .delimited positive small

theorem soundAppend {a b : List Field} (left : ∀ f ∈ a, f.Sound) (right : ∀ f ∈ b, f.Sound) :
    ∀ f ∈ a ++ b, f.Sound := by
  intro f mem
  exact (List.mem_append.mp mem).elim (left f) (right f)

theorem setNumber (m' : α) {n : Nat} (written : set m ⟨tag, .varint n⟩ = some m')
    (omitted : n = 0 → m' = m) (rest : List Field) :
    (Wire.numberField tag n ++ rest).foldlM set m = rest.foldlM set m' := by
  rw [Wire.numberField]
  split
  · rename_i zero
    rw [omitted zero, List.nil_append]
  · rw [List.cons_append, List.nil_append, List.foldlM_cons, written]
    rfl

theorem setText (m' : α) {s : String} (written : set m ⟨tag, .delimited s.toUTF8⟩ = some m')
    (omitted : s = "" → m' = m) (rest : List Field) :
    (Wire.textField tag s ++ rest).foldlM set m = rest.foldlM set m' := by
  rw [Wire.textField]
  split
  · rename_i empty
    rw [omitted (by simpa using empty), List.nil_append]
  · rw [List.cons_append, List.nil_append, List.foldlM_cons, written]
    rfl

theorem setNumbers (m' : α) {ns : List Nat}
    (written : set m ⟨tag, .delimited (Wire.ofBytes (ns.flatMap Wire.varint))⟩ = some m')
    (omitted : ns = [] → m' = m) :
    (Wire.numbersField tag ns).foldlM set m = some m' := by
  rw [Wire.numbersField]
  split
  · rename_i empty
    rw [omitted (by simpa using empty)]
    rfl
  · rw [List.foldlM_cons, written]
    rfl

end Parts

theorem textReadsBack (s : String) : Wire.text? (.delimited s.toUTF8) = some s := by
  have valid : s.toUTF8.IsValidUTF8 := s.isValidUTF8
  rw [Wire.text?, String.fromUTF8?, dif_pos valid]
  rfl

theorem numbersReadBack {ns : List Nat} (fit : ∀ n ∈ ns, n < UInt64.size) :
    Wire.numbers? (.delimited (Wire.ofBytes (ns.flatMap Wire.varint))) = some ns := by
  rw [Wire.numbers?, Wire.toListOfBytes, Wire.varintsReadBack fit]

theorem word32Fits (n : UInt32) : n.toNat < UInt64.size :=
  Nat.lt_trans n.toNat_lt (by decide)

theorem word64Fits (n : UInt64) : n.toNat < UInt64.size := n.toNat_lt

theorem word32Zero {n : UInt32} (zero : n.toNat = 0) : n = 0 := UInt32.toNat_inj.mp zero

theorem word64Zero {n : UInt64} (zero : n.toNat = 0) : n = 0 := UInt64.toNat_inj.mp zero

theorem words32ReadBack (ns : List UInt32) : (ns.map UInt32.toNat).map UInt32.ofNat = ns := by
  induction ns with
  | nil => rfl
  | cons n ns ih => simp only [List.map_cons, ih, UInt32.ofNat_toNat]

theorem words64ReadBack (ns : List UInt64) : (ns.map UInt64.toNat).map UInt64.ofNat = ns := by
  induction ns with
  | nil => rfl
  | cons n ns ih => simp only [List.map_cons, ih, UInt64.ofNat_toNat]

/-! ### Messages -/

theorem headerReadsBack (version : UInt32)
    (short : (Wire.encode (Header.toFields version)).size < UInt64.size) :
    Header.decode? (Wire.encode (Header.toFields version)).data.toList = some version := by
  have sound : ∀ f ∈ Header.toFields version, f.Sound :=
    numberSound (by decide) (by decide) (word32Fits version)
  rw [Header.decode?, decodedFields sound short, Header.toFields,
    ← List.append_nil (Wire.numberField _ _),
    setNumber version]
  · rfl
  · simp [Header.set, Wire.number?]
  · intro zero
    exact word32Zero zero

theorem stringTableReadsBack (strings : List String)
    (short : (Wire.encode (StringTable.toFields strings)).size < UInt64.size) :
    StringTable.decode? (Wire.encode (StringTable.toFields strings)).data.toList =
      some strings.toArray := by
  have sound : ∀ f ∈ StringTable.toFields strings, f.Sound := by
    intro f mem
    obtain ⟨s, _, rfl⟩ := List.mem_map.mp mem
    exact .delimited (by decide) (by decide)
  have collected (before : Array String) :
      (StringTable.toFields strings).foldlM StringTable.set before =
        some (before ++ strings.toArray) := by
    clear short sound
    induction strings generalizing before with
    | nil => simp [StringTable.toFields]
    | cons s strings ih =>
      have here : StringTable.set before ⟨1, .delimited s.toUTF8⟩ = some (before.push s) := by
        rw [StringTable.set, textReadsBack]
        rfl
      rw [StringTable.toFields, List.map_cons, List.foldlM_cons, here]
      refine (ih (before.push s)).trans ?_
      simp
  rw [StringTable.decode?, decodedFields sound short, collected]
  simp

/- The key is the first field, and the only one that tells apart what is missing from what is zero
or empty. -/
theorem keySound (key : KeyField) : ∀ f ∈ key.toFields, f.Sound := by
  intro f mem
  cases key with
  | ref index =>
    cases List.mem_singleton.mp mem
    exact .varint (by decide) (by decide) (word32Fits index)
  | text key =>
    cases List.mem_singleton.mp mem
    exact .delimited (by decide) (by decide)

theorem setKey (key : KeyField) (rest : List Field) :
    (key.toFields ++ rest).foldlM SymbolMessage.set {} =
      rest.foldlM SymbolMessage.set { key := some key } := by
  cases key with
  | ref index => simp [KeyField.toFields, SymbolMessage.set, Wire.number?]
  | text key =>
    simp only [KeyField.toFields, List.cons_append, List.nil_append, List.foldlM_cons,
      SymbolMessage.set, textReadsBack]
    rfl

theorem setBehindKey (key : Option KeyField) (raw demangled : String) (kind origin : UInt32)
    (address : UInt64) :
    (Wire.textField 3 raw ++ (Wire.textField 4 demangled ++ (Wire.numberField 5 kind.toNat ++
      (Wire.numberField 6 origin.toNat ++ Wire.numberField 7 address.toNat)))).foldlM
        SymbolMessage.set { key } = some ⟨key, raw, demangled, kind, origin, address⟩ := by
  rw [setText { key, raw }, setText { key, raw, demangled },
    setNumber { key, raw, demangled, kind },
    setNumber { key, raw, demangled, kind, origin },
    ← List.append_nil (Wire.numberField 7 _),
    setNumber { key, raw, demangled, kind, origin, address }]
  · rfl
  · simp [SymbolMessage.set, Wire.number?]
  · intro zero
    rw [word64Zero zero]
  · simp [SymbolMessage.set, Wire.number?]
  · intro zero
    rw [word32Zero zero]
  · simp [SymbolMessage.set, Wire.number?]
  · intro zero
    rw [word32Zero zero]
  · rw [SymbolMessage.set, textReadsBack]
    rfl
  · rintro rfl
    rfl
  · rw [SymbolMessage.set, textReadsBack]
    rfl
  · rintro rfl
    rfl

theorem symbolSound (m : SymbolMessage) : ∀ f ∈ m.toFields, f.Sound := by
  obtain ⟨key, raw, demangled, kind, origin, address⟩ := m
  refine soundAppend (soundAppend (soundAppend (soundAppend (soundAppend ?_
    (textSound raw (by decide) (by decide))) (textSound demangled (by decide) (by decide)))
    (numberSound (by decide) (by decide) (word32Fits kind)))
    (numberSound (by decide) (by decide) (word32Fits origin)))
    (numberSound (by decide) (by decide) (word64Fits address))
  cases key with
  | none => intro f mem; cases mem
  | some key => exact keySound key

theorem symbolReadsBack (m : SymbolMessage)
    (short : (Wire.encode m.toFields).size < UInt64.size) :
    SymbolMessage.decode? (Wire.encode m.toFields).data.toList = some m := by
  rw [SymbolMessage.decode?, decodedFields (symbolSound m) short]
  obtain ⟨key, raw, demangled, kind, origin, address⟩ := m
  simp only [SymbolMessage.toFields, List.append_assoc]
  cases key with
  | none => exact setBehindKey none raw demangled kind origin address
  | some key =>
    refine (setKey key _).trans ?_
    exact setBehindKey (some key) raw demangled kind origin address

theorem baseReadsBack (b : Rtti.Base)
    (short : (Wire.encode (BaseMessage.toFields b)).size < UInt64.size) :
    BaseMessage.decode? (Wire.encode (BaseMessage.toFields b)).data.toList = some b := by
  obtain ⟨address, offset, flags⟩ := b
  have sound : ∀ f ∈ BaseMessage.toFields ⟨address, offset, flags⟩, f.Sound :=
    soundAppend (soundAppend (numberSound (by decide) (by decide) (word64Fits address))
      (numberSound (by decide) (by decide) (Wire.zigzagFits offset)))
      (numberSound (by decide) (by decide) (word32Fits flags))
  rw [BaseMessage.decode?, decodedFields sound short, BaseMessage.toFields, List.append_assoc,
    setNumber ⟨address, 0, 0⟩, setNumber ⟨address, offset, 0⟩,
    ← List.append_nil (Wire.numberField 3 _), setNumber ⟨address, offset, flags⟩]
  · rfl
  · simp [BaseMessage.set, Wire.number?]
  · intro zero
    exact congrArg (Rtti.Base.mk address offset) (word32Zero zero)
  · simp [BaseMessage.set, Wire.number?, Wire.zigzagReadsBack]
  · intro zero
    have same := Wire.zigzagReadsBack offset
    rw [zero] at same
    rw [← same]
    rfl
  · simp [BaseMessage.set, Wire.number?]
  · intro zero
    exact congrArg (Rtti.Base.mk · 0 0) (word64Zero zero)

def baseField (b : Rtti.Base) : Field := ⟨4, .delimited (Wire.encode (BaseMessage.toFields b))⟩

theorem basesReadBack {bases : List Rtti.Base} (m : TypeInfoMessage)
    (short : ∀ b ∈ bases, (Wire.encode (BaseMessage.toFields b)).size < UInt64.size) :
    (bases.map baseField).foldlM TypeInfoMessage.set m =
      some { m with bases := m.bases ++ bases } := by
  induction bases generalizing m with
  | nil => simp
  | cons b bases ih =>
    have here : TypeInfoMessage.set m (baseField b) =
        some { m with bases := m.bases ++ [b] } := by
      simp [TypeInfoMessage.set, baseField, Wire.bytes?,
        baseReadsBack b (short b List.mem_cons_self)]
    rw [List.map_cons, List.foldlM_cons, here]
    refine (ih _ fun c mem => short c (List.mem_cons_of_mem _ mem)).trans ?_
    simp

theorem typeInfoReadsBack (m : TypeInfoMessage)
    (short : (Wire.encode m.toFields).size < UInt64.size) :
    TypeInfoMessage.decode? (Wire.encode m.toFields).data.toList = some m := by
  obtain ⟨address, kind, flags, bases⟩ := m
  have sound : ∀ f ∈ TypeInfoMessage.toFields ⟨address, kind, flags, bases⟩, f.Sound := by
    refine soundAppend (soundAppend (soundAppend
      (numberSound (by decide) (by decide) (word64Fits address))
      (numberSound (by decide) (by decide) (word32Fits kind)))
      (numberSound (by decide) (by decide) (word64Fits flags))) ?_
    intro f mem
    obtain ⟨b, _, rfl⟩ := List.mem_map.mp mem
    exact .delimited (by decide) (by decide)
  have inner : ∀ b ∈ bases, (Wire.encode (BaseMessage.toFields b)).size < UInt64.size := by
    intro b mem
    have inside : baseField b ∈ TypeInfoMessage.toFields ⟨address, kind, flags, bases⟩ :=
      List.mem_append_right _ (List.mem_map.mpr ⟨b, mem, rfl⟩)
    exact Nat.lt_of_le_of_lt (Wire.runWithinMessage inside) short
  rw [TypeInfoMessage.decode?, decodedFields sound short, TypeInfoMessage.toFields,
    List.append_assoc, List.append_assoc, setNumber { address },
    setNumber { address, kind }, setNumber { address, kind, flags }]
  · exact basesReadBack { address, kind, flags } inner
  · simp [TypeInfoMessage.set, Wire.number?]
  · intro zero
    exact congrArg (TypeInfoMessage.mk address kind · []) (word64Zero zero)
  · simp [TypeInfoMessage.set, Wire.number?]
  · intro zero
    exact congrArg (TypeInfoMessage.mk address · 0 []) (word32Zero zero)
  · simp [TypeInfoMessage.set, Wire.number?]
  · intro zero
    exact congrArg (TypeInfoMessage.mk · 0 0 []) (word64Zero zero)

theorem vtableReadsBack (t : Rtti.VTable)
    (short : (Wire.encode (VTableMessage.toFields t)).size < UInt64.size) :
    VTableMessage.decode? (Wire.encode (VTableMessage.toFields t)).data.toList = some t := by
  obtain ⟨address, entries⟩ := t
  have sound : ∀ f ∈ VTableMessage.toFields ⟨address, entries⟩, f.Sound :=
    soundAppend (numberSound (by decide) (by decide) (word64Fits address))
      (numbersSound _ (by decide) (by decide))
  have fit : ∀ n ∈ entries.map UInt64.toNat, n < UInt64.size := by
    intro n mem
    obtain ⟨a, _, rfl⟩ := List.mem_map.mp mem
    exact word64Fits a
  rw [VTableMessage.decode?, decodedFields sound short, VTableMessage.toFields,
    setNumber ⟨address, []⟩, setNumbers ⟨address, entries⟩]
  · simp only [VTableMessage.set, numbersReadBack fit, Option.map_some, words64ReadBack,
      List.nil_append]
  · intro empty
    have none : entries = [] := List.map_eq_nil_iff.mp empty
    rw [none]
  · simp [VTableMessage.set, Wire.number?]
  · intro zero
    exact congrArg (Rtti.VTable.mk · []) (word64Zero zero)

theorem indexReadsBack (m : IndexMessage)
    (short : (Wire.encode m.toFields).size < UInt64.size) :
    IndexMessage.decode? (Wire.encode m.toFields).data.toList = some m := by
  obtain ⟨token, deltas⟩ := m
  have sound : ∀ f ∈ IndexMessage.toFields ⟨token, deltas⟩, f.Sound :=
    soundAppend (textSound token (by decide) (by decide))
      (numbersSound _ (by decide) (by decide))
  have fit : ∀ n ∈ deltas.map UInt32.toNat, n < UInt64.size := by
    intro n mem
    obtain ⟨a, _, rfl⟩ := List.mem_map.mp mem
    exact word32Fits a
  rw [IndexMessage.decode?, decodedFields sound short, IndexMessage.toFields,
    setText { token }, setNumbers ⟨token, deltas⟩]
  · simp only [IndexMessage.set, numbersReadBack fit, Option.map_some, words32ReadBack,
      List.nil_append]
  · intro empty
    have none : deltas = [] := List.map_eq_nil_iff.mp empty
    rw [none]
  · rw [IndexMessage.set, textReadsBack]
    rfl
  · rintro rfl
    rfl

end CxxSymbols.Store
