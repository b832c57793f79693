import CxxSymbols.Store.Message
import CxxSymbols.Store.Writer
/-!
Reading a store. After an error that lies in one message the next message can be read. Messages of
unknown types are passed over.
-/
namespace CxxSymbols.Store

structure Reader where
  file : ByteArray
  position : Nat := 0
  strings : Array String := #[]

/- A step of a reader, which goes on from where it is after an error too. -/
abbrev Reading := EStateM StoreError Reader

def leb128In : Nat → List UInt8 → Except StoreError (Nat × Nat)
  | 0, _ => .error .varintTooLong
  | _ + 1, [] => .error .io
  | left + 1, b :: rest =>
    if b.toNat < 128 then .ok (b.toNat, 1)
    else (leb128In left rest).map fun (n, size) => (b.toNat - 128 + 128 * n, size + 1)

def leb128Size : Nat := 10

/- A number in front of a message. Bits past the 64th are lost. -/
def leb128 (bytes : List UInt8) : Except StoreError (Nat × Nat) :=
  (leb128In leb128Size bytes).map fun (n, size) => (n % UInt64.size, size)

namespace Reader

def ofExcept {α : Type} : Except StoreError α → Reading α
  | .ok a => pure a
  | .error e => throw e

def window (r : Reader) (count : Nat) : List UInt8 :=
  (r.file.extract r.position (r.position + count)).data.toList

def skip (count : Nat) : Reading Unit :=
  modify fun r => { r with position := min r.file.size (r.position + count) }

def number? : Reading (Option Nat) := do
  let bytes := (← get).window leb128Size
  if bytes.isEmpty then return none
  match leb128 bytes with
  | .ok (n, size) =>
    skip size
    return some n
  | .error e =>
    skip bytes.length
    throw e

def frameHead? : Reading (Option (Nat × Option MessageType)) := do
  match ← number? with
  | none => return none
  | some length =>
    if maxMessageSize < length then throw (.maximumSizeExceeded length)
    match ← number? with
    | none => throw .truncatedMessage
    | some code =>
      if 0x80000000 ≤ code then throw .invalidMessageType
      return some (length, MessageType.ofCode? code)

/- The bytes of a message. A message that is cut off takes what there is. -/
def payload (length : Nat) : Reading (List UInt8) := do
  let r ← get
  skip length
  if r.file.size < r.position + length then throw .truncatedMessage
  return r.window length

def decoded {α : Type} : Option α → Reading α
  | some a => pure a
  | none => throw .decoding

def row (strings : Array String) (m : SymbolMessage) : Except StoreError SymbolRow := do
  let key ←
    match m.key with
    | some (.ref index) =>
      match strings[index.toNat]? with
      | some key => .ok key
      | none => .error .invalidStringTableIndex
    | some (.text key) => .ok key
    | none => .error (.missingRequiredField "key")
  match Canonical.Kind.ofCode? m.kind with
  | none => .error (.invalidEnumValue "kind" m.kind)
  | some kind =>
    match Origin.ofCode? m.origin with
    | none => .error (.invalidEnumValue "origin" m.origin)
    | some origin => .ok ⟨key, m.raw, m.demangled, kind, origin, m.address⟩

/- The record of one message. A message without one, such as a string table, is taken in. -/
def message (type : Option MessageType) (length : Nat) : Reading (Option Record) := do
  match type with
  | some .invalid | some .header => throw .invalidMessageType
  | some .stringTable =>
    let strings ← decoded (StringTable.decode? (← payload length))
    modify fun r => { r with strings }
    return none
  | some .symbol =>
    let m ← decoded (SymbolMessage.decode? (← payload length))
    return some (.symbol (← ofExcept (row (← get).strings m)))
  | some .typeInfo =>
    let m ← decoded (TypeInfoMessage.decode? (← payload length))
    return some (.typeInfo (← ofExcept m.toRecord))
  | some .vtable => return some (.vtable (← decoded (VTableMessage.decode? (← payload length))))
  | some .index =>
    let m ← decoded (IndexMessage.decode? (← payload length))
    return some (.index (← ofExcept m.toRecord))
  | none =>
    let _ ← payload length
    return none

/- Reads messages until one has a record. Every message takes at least one byte. -/
def readIn : Nat → Reading (Option Record)
  | 0 => return none
  | rounds + 1 => do
    match ← frameHead? with
    | none => return none
    | some (length, type) =>
      match ← message type length with
      | some record => return some record
      | none => readIn rounds

def read : Reading (Option Record) := do
  let r ← get
  readIn (r.file.size - r.position + 1)

def ofFile (file : ByteArray) : Except StoreError Reader :=
  let start := magic.utf8ByteSize
  if (file.extract 0 start) == magic.toUTF8 then
    match header { file, position := start } with
    | .ok _ r => .ok r
    | .error e _ => .error e
  else .error .invalidMagic
where
  header : Reading Unit := do
    match ← frameHead? with
    | none => throw .truncatedMessage
    | some (length, type) =>
      if type ≠ some .header then throw (.unexpectedType .header type)
      let version ← decoded (Header.decode? (← payload length))
      if version ≠ formatVersion then throw (.unsupportedVersion version)

def recordsIn : Nat → Reader → List Record × Option StoreError
  | 0, _ => ([], none)
  | rounds + 1, r =>
    match read r with
    | .ok none _ => ([], none)
    | .ok (some record) r =>
      let (records, stop) := recordsIn rounds r
      (record :: records, stop)
    | .error e _ => ([], some e)

def records (r : Reader) : List Record × Option StoreError :=
  recordsIn (r.file.size - r.position + 1) r

end Reader

end CxxSymbols.Store
