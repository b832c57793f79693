import CxxSymbols.Proofs.Rtti.View
import CxxSymbols.Rtti.TypeInfo
/-! Type information as it lies in memory. A record that can be laid out is read back from wherever it
lies, offsets below zero included; and whatever the bytes are, reading fails where a field of the
record does not lie in the view, and nowhere else. -/
namespace CxxSymbols.Rtti
open View (Answers Field)
open Text (FitsSigned byteBound toLittleEndian twosComplement)

/-! ### The layout -/

def Base.word (b : Base) : Int := b.offset.toInt * 256 + b.flags.toNat

def Base.layout (width : PointerWidth) (b : Base) : List UInt8 :=
  toLittleEndian width.bytes b.address.toNat ++
    toLittleEndian width.bytes (twosComplement width.bytes b.word)

def TypeInfo.body (width : PointerWidth) (info : TypeInfo) : List UInt8 :=
  match info.kind with
  | .noInherit => []
  | .singleInherit => info.bases.flatMap fun b => toLittleEndian width.bytes b.address.toNat
  | .virtualMultiInherit => toLittleEndian 4 info.flags.toNat ++
      (toLittleEndian 4 info.bases.length ++ info.bases.flatMap (Base.layout width))

def TypeInfo.layout (width : PointerWidth) (table name : Nat) (info : TypeInfo) : List UInt8 :=
  toLittleEndian width.bytes table ++ toLittleEndian width.bytes name ++ info.body width

structure Base.Fits (width : PointerWidth) (b : Base) : Prop where
  address : b.address.toNat < byteBound width.bytes
  flags : b.flags.toNat < 256
  word : FitsSigned width.bytes b.word

inductive TypeInfo.Fits (width : PointerWidth) : TypeInfo → Prop where
  | noInherit (address : Address) : Fits width ⟨address, .noInherit, 0, []⟩
  | singleInherit (address : Address) {base : Address}
      (fits : base.toNat < byteBound width.bytes) :
      Fits width ⟨address, .singleInherit, 0, [⟨base, 0, 0⟩]⟩
  | virtualMultiInherit (address : Address) {flags : UInt64} {bases : List Base}
      (flagsFit : flags.toNat < byteBound 4) (few : bases.length < byteBound 4)
      (basesFit : ∀ b ∈ bases, b.Fits width) :
      Fits width ⟨address, .virtualMultiInherit, flags, bases⟩

/-! ### Fields -/

def baseFields (width : PointerWidth) (address : Nat) : Nat → List Field
  | 0 => []
  | count + 1 => (address, width.bytes) :: (address + width.bytes, width.bytes) ::
      baseFields width (address + 2 * width.bytes) count

def fieldsFrom (width : PointerWidth) (body count : Nat) : TypeInfoKind → List Field
  | .noInherit => []
  | .singleInherit => [(body, width.bytes)]
  | .virtualMultiInherit => (body, 4) :: (body + 4, 4) :: baseFields width (body + 8) count

def TypeInfo.bodyAt (v : View) (address : Address) : Nat := address.toNat + 2 * v.width.bytes

def baseCount (v : View) (address : Address) : Nat := v.numberAt (TypeInfo.bodyAt v address + 4) 4

def TypeInfo.fields (v : View) (address : Address) : TypeInfoKind → List Field :=
  fieldsFrom v.width (bodyAt v address) (baseCount v address)

/-! ### Reading back -/

section ReadingBack
variable {v : View} {address : Nat} {b : Base} {bases : List Base} {info : TypeInfo}

theorem baseOfWord (flags : b.flags.toNat < 256) : Base.ofWords b.address.toNat b.word = b := by
  have high : b.word / 256 = b.offset.toInt := by
    rw [Base.word]
    omega
  have low : (b.word % 256).toNat = b.flags.toNat := by
    rw [Base.word]
    omega
  rw [Base.ofWords, high, low, UInt64.ofNat_toNat, Int64.ofInt_toInt, UInt32.ofNat_toNat]

theorem readBasesBack (fits : ∀ b ∈ bases, b.Fits v.width)
    (lies : v.Lies address (bases.flatMap (Base.layout v.width))) :
    readBases v address bases.length = .ok bases := by
  induction bases generalizing address with
  | nil => rfl
  | cons b bases ih =>
    obtain ⟨fit, others⟩ := List.forall_mem_cons.mp fits
    rw [List.flatMap_cons, Base.layout] at lies
    have first : v.readWord address = .ok b.address.toNat :=
      View.sliceNumber fit.address (View.liesFront (View.liesFront lies))
    have word : v.readWord (address + v.width.bytes) =
        .ok (twosComplement v.width.bytes b.word) := by
      have second := View.liesBehind (View.liesFront lies)
      rw [Text.toLittleEndianLength] at second
      exact View.sliceNumber (Text.twosComplementFits _ _) second
    have second : v.readSigned (address + v.width.bytes) = .ok b.word := by
      rw [View.readSigned, word]
      exact congrArg Except.ok (Text.signedReadsBack fit.word)
    have rest : readBases v (address + 2 * v.width.bytes) bases.length = .ok bases := by
      have behind := View.liesBehind lies
      rw [List.length_append, Text.toLittleEndianLength, Text.toLittleEndianLength,
        ← Nat.two_mul] at behind
      exact ih others behind
    rw [List.length_cons, readBases, first, second, rest]
    exact congrArg (fun b => Except.ok (b :: bases)) (baseOfWord fit.flags)

theorem readBack (fits : info.Fits v.width) {table name : Nat}
    (lies : v.Lies info.address.toNat (info.layout v.width table name)) :
    TypeInfo.read v info.address info.kind = .ok info := by
  have body : v.Lies (TypeInfo.bodyAt v info.address) (info.body v.width) := by
    have behind := View.liesBehind lies
    rwa [List.length_append, Text.toLittleEndianLength, Text.toLittleEndianLength,
      ← Nat.two_mul] at behind
  cases fits with
  | noInherit address => rfl
  | singleInherit address fits =>
    have word : v.readWord (TypeInfo.bodyAt v address) = .ok _ :=
      View.sliceNumber fits (View.liesFront body)
    simp only [TypeInfo.bodyAt] at word
    simp only [TypeInfo.read, word, bind, Except.bind, pure, Except.pure, UInt64.ofNat_toNat]
  | virtualMultiInherit address flagsFit few basesFit =>
    have flags : v.readU32 (TypeInfo.bodyAt v address) = .ok _ :=
      View.sliceNumber flagsFit (View.liesFront body)
    have behind := View.liesBehind body
    rw [Text.toLittleEndianLength] at behind
    have count : v.readU32 (TypeInfo.bodyAt v address + 4) = .ok _ :=
      View.sliceNumber few (View.liesFront behind)
    have bases := View.liesBehind behind
    rw [Text.toLittleEndianLength, Nat.add_assoc] at bases
    simp only [TypeInfo.bodyAt] at flags count bases
    simp only [TypeInfo.read, flags, count, readBasesBack basesFit bases, bind, Except.bind, pure,
      Except.pure, UInt64.ofNat_toNat]

end ReadingBack

/-! ### Reading whatever is there -/

theorem basesAnswer (v : View) (address count : Nat) :
    Answers v (fun bases : List Base => bases.length = count) (baseFields v.width address count)
      (readBases v address count) := by
  induction count generalizing address with
  | zero => exact .done rfl
  | succ count ih =>
    refine View.answersNext View.readWordHeld View.readWordOutside ?_
    refine View.answersNext View.readSignedHeld View.readSignedOutside ?_
    exact View.answersMap (ih _) fun bases length => by rw [List.length_cons, length]

structure TypeInfo.Read (place : Address) (form : TypeInfoKind) (count : Nat) (info : TypeInfo) :
    Prop where
  address : info.address = place
  kind : info.kind = form
  bases : form = .virtualMultiInherit → info.bases.length = count

theorem typeInfoAnswers (v : View) (address : Address) (kind : TypeInfoKind) :
    Answers v (TypeInfo.Read address kind (baseCount v address)) (TypeInfo.fields v address kind)
      (TypeInfo.read v address kind) := by
  cases kind with
  | noInherit => exact .done ⟨rfl, rfl, nofun⟩
  | singleInherit =>
    exact View.answersNext View.readWordHeld View.readWordOutside (.done ⟨rfl, rfl, nofun⟩)
  | virtualMultiInherit =>
    refine View.answersNext View.readU32Held View.readU32Outside ?_
    refine View.answersNext View.readU32Held View.readU32Outside ?_
    exact View.answersMap (basesAnswer v _ _) fun bases length => ⟨rfl, rfl, fun _ => length⟩

/- Reading inverts the layout: a record that can be laid out is read back as it is. Of whatever bytes
there are, reading fails exactly where a field behind the first two words does not lie in the view,
and otherwise a record of the general form has as many bases as it says. -/
theorem layoutInverted :
    (∀ (v : View) (info : TypeInfo) (table name : Nat), info.Fits v.width →
      v.Lies info.address.toNat (info.layout v.width table name) →
      TypeInfo.read v info.address info.kind = .ok info) ∧
    ∀ (v : View) (address : Address) (kind : TypeInfoKind),
      ((∃ place, TypeInfo.read v address kind = .error (.outOfBounds place)) ↔
        ∃ f ∈ TypeInfo.fields v address kind, ¬v.Holds f.1 f.2) ∧
      ((∀ f ∈ TypeInfo.fields v address kind, v.Holds f.1 f.2) →
        ∃ info, TypeInfo.read v address kind = .ok info ∧
          TypeInfo.Read address kind (baseCount v address) info) := by
  refine ⟨fun v info table name fits lies => readBack fits lies, fun v address kind => ?_⟩
  have answers := typeInfoAnswers v address kind
  exact ⟨View.answersFail answers, View.answersInside answers⟩

theorem virtualBaseReadsBack :
    let info : TypeInfo :=
      ⟨0x1003, .virtualMultiInherit, 1, [⟨0x2000, -24, 3⟩, ⟨0xfffff000, 8, 2⟩]⟩
    let bytes : List UInt8 := [1, 2, 3] ++ info.layout .bits32 0x9008 0x9100
    let whole : View := ⟨0x1000, ⟨(bytes ++ [7]).toArray⟩, .bits32⟩
    let cut : View := ⟨0x1000, ⟨bytes.dropLast.toArray⟩, .bits32⟩
    TypeInfo.read whole 0x1003 .virtualMultiInherit = .ok info ∧
      ∃ place, TypeInfo.read cut 0x1003 .virtualMultiInherit = .error (.outOfBounds place) := by
  intro info bytes whole cut
  have fits : info.Fits whole.width := by
    refine .virtualMultiInherit _ (by decide) (by decide) fun b mem => ?_
    rcases List.mem_cons.mp mem with rfl | mem
    · exact ⟨by decide, by decide, by decide, by decide⟩
    · cases List.mem_singleton.mp mem
      exact ⟨by decide, by decide, by decide, by decide⟩
  refine ⟨layoutInverted.1 whole info 0x9008 0x9100 fits ⟨[1, 2, 3], [7], rfl, rfl⟩, ?_⟩
  exact (layoutInverted.2 cut 0x1003 .virtualMultiInherit).1.mpr
    ⟨(0x101f, 4), by decide, by decide⟩

end CxxSymbols.Rtti
