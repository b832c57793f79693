import CxxSymbols.Store.Error
import CxxSymbols.Store.Record
import CxxSymbols.Store.Wire
/-!
The messages of a store file. Each is turned into fields and back; fields of a number or text that
is zero or empty are left out, and of a field that is written more than once the last one counts.
-/
namespace CxxSymbols.Store
open Wire (Field Value)

inductive KeyField where
  | ref (index : UInt32)
  | text (key : String)
  deriving DecidableEq, Repr, Inhabited

structure SymbolMessage where
  key : Option KeyField := none
  raw : String := ""
  demangled : String := ""
  kind : UInt32 := 0
  origin : UInt32 := 0
  address : UInt64 := 0
  deriving DecidableEq, Repr, Inhabited

structure TypeInfoMessage where
  address : UInt64 := 0
  kind : UInt32 := 0
  flags : UInt64 := 0
  bases : List Rtti.Base := []
  deriving DecidableEq, Repr, Inhabited

/- The ordinals are given as the first and the distances from each to the next. -/
structure IndexMessage where
  token : String := ""
  deltas : List UInt32 := []
  deriving DecidableEq, Repr, Inhabited

def decodeWith {α : Type} (limit : Nat) (set : α → Field → Option α) (empty : α)
    (bytes : List UInt8) : Option α := do
  (← Wire.fields? limit bytes).foldlM set empty

namespace Header

def toFields (version : UInt32) : List Field := Wire.numberField 1 version.toNat

def set (version : UInt32) (f : Field) : Option UInt32 :=
  match f.tag with
  | 1 => (Wire.number? f.value).map .ofNat
  | _ => some version

def decode? (bytes : List UInt8) : Option UInt32 := decodeWith Wire.nestingLimit set 0 bytes

end Header

namespace StringTable

def toFields (strings : List String) : List Field :=
  strings.map fun s => ⟨1, .delimited s.toUTF8⟩

def set (strings : Array String) (f : Field) : Option (Array String) :=
  match f.tag with
  | 1 => (Wire.text? f.value).map strings.push
  | _ => some strings

def decode? (bytes : List UInt8) : Option (Array String) :=
  decodeWith Wire.nestingLimit set #[] bytes

end StringTable

namespace KeyField

/- The chosen field is written even if it is zero or empty. -/
def toFields : KeyField → List Field
  | ref index => [⟨1, .varint index.toNat⟩]
  | text key => [⟨2, .delimited key.toUTF8⟩]

end KeyField

namespace SymbolMessage

def toFields (m : SymbolMessage) : List Field :=
  (match m.key with
    | some key => key.toFields
    | none => []) ++
  Wire.textField 3 m.raw ++ Wire.textField 4 m.demangled ++ Wire.numberField 5 m.kind.toNat ++
  Wire.numberField 6 m.origin.toNat ++ Wire.numberField 7 m.address.toNat

def set (m : SymbolMessage) (f : Field) : Option SymbolMessage :=
  match f.tag with
  | 1 => (Wire.number? f.value).map fun n => { m with key := some (.ref (.ofNat n)) }
  | 2 => (Wire.text? f.value).map fun s => { m with key := some (.text s) }
  | 3 => (Wire.text? f.value).map fun s => { m with raw := s }
  | 4 => (Wire.text? f.value).map fun s => { m with demangled := s }
  | 5 => (Wire.number? f.value).map fun n => { m with kind := .ofNat n }
  | 6 => (Wire.number? f.value).map fun n => { m with origin := .ofNat n }
  | 7 => (Wire.number? f.value).map fun n => { m with address := .ofNat n }
  | _ => some m

def decode? (bytes : List UInt8) : Option SymbolMessage := decodeWith Wire.nestingLimit set {} bytes

end SymbolMessage

namespace BaseMessage

def toFields (b : Rtti.Base) : List Field :=
  Wire.numberField 1 b.address.toNat ++ Wire.numberField 2 (Wire.zigzag b.offset) ++
  Wire.numberField 3 b.flags.toNat

def set (b : Rtti.Base) (f : Field) : Option Rtti.Base :=
  match f.tag with
  | 1 => (Wire.number? f.value).map fun n => { b with address := .ofNat n }
  | 2 => (Wire.number? f.value).map fun n => { b with offset := Wire.unzigzag n }
  | 3 => (Wire.number? f.value).map fun n => { b with flags := .ofNat n }
  | _ => some b

def decode? (bytes : List UInt8) : Option Rtti.Base :=
  decodeWith (Wire.nestingLimit - 1) set ⟨0, 0, 0⟩ bytes

end BaseMessage

namespace TypeInfoMessage

def toFields (m : TypeInfoMessage) : List Field :=
  Wire.numberField 1 m.address.toNat ++ Wire.numberField 2 m.kind.toNat ++
  Wire.numberField 3 m.flags.toNat ++
  m.bases.map fun b => ⟨4, .delimited (Wire.encode (BaseMessage.toFields b))⟩

def set (m : TypeInfoMessage) (f : Field) : Option TypeInfoMessage :=
  match f.tag with
  | 1 => (Wire.number? f.value).map fun n => { m with address := .ofNat n }
  | 2 => (Wire.number? f.value).map fun n => { m with kind := .ofNat n }
  | 3 => (Wire.number? f.value).map fun n => { m with flags := .ofNat n }
  | 4 => do
    let base ← BaseMessage.decode? (← Wire.bytes? f.value).data.toList
    some { m with bases := m.bases ++ [base] }
  | _ => some m

def decode? (bytes : List UInt8) : Option TypeInfoMessage :=
  decodeWith Wire.nestingLimit set {} bytes

def ofRecord (info : Rtti.TypeInfo) : TypeInfoMessage :=
  ⟨info.address, info.kind.code, info.flags, info.bases⟩

def toRecord (m : TypeInfoMessage) : Except StoreError Rtti.TypeInfo :=
  match Rtti.TypeInfoKind.ofCode? m.kind with
  | some kind => .ok ⟨m.address, kind, m.flags, m.bases⟩
  | none => .error (.invalidEnumValue "kind" m.kind)

end TypeInfoMessage

namespace VTableMessage

def toFields (t : Rtti.VTable) : List Field :=
  Wire.numberField 1 t.address.toNat ++ Wire.numbersField 2 (t.entries.map UInt64.toNat)

def set (t : Rtti.VTable) (f : Field) : Option Rtti.VTable :=
  match f.tag with
  | 1 => (Wire.number? f.value).map fun n => { t with address := .ofNat n }
  | 2 => (Wire.numbers? f.value).map fun ns => { t with entries := t.entries ++ ns.map .ofNat }
  | _ => some t

def decode? (bytes : List UInt8) : Option Rtti.VTable :=
  decodeWith Wire.nestingLimit set ⟨0, []⟩ bytes

end VTableMessage

namespace IndexMessage

def toFields (m : IndexMessage) : List Field :=
  Wire.textField 1 m.token ++ Wire.numbersField 2 (m.deltas.map UInt32.toNat)

def set (m : IndexMessage) (f : Field) : Option IndexMessage :=
  match f.tag with
  | 1 => (Wire.text? f.value).map fun s => { m with token := s }
  | 2 => (Wire.numbers? f.value).map fun ns => { m with deltas := m.deltas ++ ns.map .ofNat }
  | _ => some m

def decode? (bytes : List UInt8) : Option IndexMessage := decodeWith Wire.nestingLimit set {} bytes

def deltasAfter (before : UInt32) : List UInt32 → Option (List UInt32)
  | [] => some []
  | n :: rest =>
    if before < n then (deltasAfter n rest).map ((n - before) :: ·) else none

def deltas? : List UInt32 → Option (List UInt32)
  | [] => some []
  | n :: rest => (deltasAfter n rest).map (n :: ·)

/- The ordinals at distances from one before them. A distance is never zero, and no sum passes 32
bits. -/
def sumsAfter (before : UInt32) : List UInt32 → Option (List UInt32)
  | [] => some []
  | d :: rest =>
    if d ≠ 0 ∧ before.toNat + d.toNat < UInt32.size then
      (sumsAfter (before + d) rest).map ((before + d) :: ·)
    else none

def sums? : List UInt32 → Option (List UInt32)
  | [] => some []
  | d :: rest => (sumsAfter d rest).map (d :: ·)

def ofRecord (entry : IndexEntry) : Except StoreError IndexMessage :=
  match deltas? entry.ordinals with
  | some deltas => .ok ⟨entry.token, deltas⟩
  | none => .error .postingsNotSorted

def toRecord (m : IndexMessage) : Except StoreError IndexEntry :=
  match sums? m.deltas with
  | some ordinals => .ok ⟨m.token, ordinals⟩
  | none => .error .postingsNotSorted

end IndexMessage

end CxxSymbols.Store
