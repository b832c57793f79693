import CxxSymbols.Store.Message
import CxxSymbols.Store.StringTable
/-!
Writing a store. The file is a magic and then messages, each behind its length and its type; the
first is a header. Records are kept back so that the keys of a batch can share a string table. A
batch that cannot be written is gone as a whole from the record on that is too large.
-/
namespace CxxSymbols.Store

def magic : String := "symdbase"

def formatVersion : UInt32 := 1

/- A batch ends when its strings reach this size, which leaves room for the rest of a message. -/
def stringTableThreshold : Nat := maxMessageSize - 64 * 1024

def pendingLimit : Nat := 64 * 1024 * 1024

/- The memory that a message takes while it is kept, as it is laid out for addresses of 64 bits. -/
def pendingSize : Nat := 88

inductive Pending where
  | symbol (number : Nat) (row : SymbolMessage)
  | typeInfo (message : TypeInfoMessage)
  | vtable (table : Rtti.VTable)
  | index (message : IndexMessage)
  deriving DecidableEq, Repr, Inhabited

structure Framed where
  type : MessageType
  payload : ByteArray

def Framed.ofFields (type : MessageType) (fields : List Wire.Field) : Framed :=
  ⟨type, Wire.encode fields⟩

def Framed.bytes (f : Framed) : Except StoreError ByteArray :=
  if f.payload.size ≤ maxMessageSize then
    .ok (Wire.ofBytes (Wire.varint f.payload.size ++ Wire.varint f.type.code) ++ f.payload)
  else .error (.maximumSizeExceeded f.payload.size)

def headerBytes : ByteArray :=
  match (Framed.ofFields .header (Header.toFields formatVersion)).bytes with
  | .ok bytes => bytes
  | .error _ => ByteArray.empty

structure Writer where
  out : ByteArray := magic.toUTF8 ++ headerBytes
  pool : StringPool := {}
  pending : Array Pending := #[]

abbrev Writing := EStateM StoreError Writer

def Pending.resolve (resolutions : Array Resolution) : Pending → Except StoreError Framed
  | symbol number row =>
    match resolutions[number]? with
    | some (.inline key) =>
      .ok (.ofFields .symbol { row with key := some (.text key) }.toFields)
    | some (.entry place) =>
      .ok (.ofFields .symbol { row with key := some (.ref (.ofNat place)) }.toFields)
    | none => .error .invalidStringTableIndex
  | typeInfo message => .ok (.ofFields .typeInfo message.toFields)
  | vtable table => .ok (.ofFields .vtable (VTableMessage.toFields table))
  | index message => .ok (.ofFields .index message.toFields)

namespace Writer

def ofExcept {α : Type} : Except StoreError α → Writing α
  | .ok a => pure a
  | .error e => throw e

def put (f : Framed) : Writing Unit := do
  let bytes ← ofExcept f.bytes
  modify fun w => { w with out := w.out ++ bytes }

/- Ends the batch. It is taken out before anything of it is written. -/
def flush : Writing Unit := do
  let w ← get
  set { w with pool := {}, pending := #[] }
  let frames ← ofExcept (w.pending.toList.mapM (Pending.resolve w.pool.resolutions))
  let strings := w.pool.table
  unless strings.isEmpty do put (.ofFields .stringTable (StringTable.toFields strings))
  frames.forM put

def stage : Record → Writing Unit
  | .symbol row => do
    let w ← get
    let (number, pool) := w.pool.intern row.key
    let message : SymbolMessage :=
      ⟨none, row.raw, row.demangled, row.kind.code, row.origin.code, row.address⟩
    set { w with pool, pending := w.pending.push (.symbol number message) }
  | .typeInfo info => push (.typeInfo (.ofRecord info))
  | .vtable table => push (.vtable table)
  | .index entry => do push (.index (← ofExcept (IndexMessage.ofRecord entry)))
where
  push (p : Pending) : Writing Unit := modify fun w => { w with pending := w.pending.push p }

def isFull (w : Writer) : Bool :=
  stringTableThreshold ≤ w.pool.size || pendingLimit ≤ w.pending.size * pendingSize

def write (record : Record) : Writing Unit := do
  stage record
  if (← get).isFull then flush

def writeAll (records : List Record) : Writing Unit := do
  records.forM write
  flush

end Writer

def fileOf (records : List Record) : Except StoreError ByteArray :=
  match Writer.writeAll records {} with
  | .ok _ w => .ok w.out
  | .error e _ => .error e

end CxxSymbols.Store
