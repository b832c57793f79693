import CxxSymbols.Text.Number
/-!
Parts of a file: runs of bytes, and records of numbers.
-/
namespace CxxSymbols.Image

inductive ByteOrder where
  | little
  | big
  deriving DecidableEq, Repr, Inhabited

def ByteOrder.number : ByteOrder → List UInt8 → Nat
  | little => Text.littleEndian
  | big => Text.bigEndian

def slice? (file : ByteArray) (start count : Nat) : Option ByteArray :=
  if start + count ≤ file.size then some (file.extract start (start + count)) else none

def record? (order : ByteOrder) (file : ByteArray) (start : Nat) : List Nat → Option (List Nat)
  | [] => some []
  | width :: rest => do
    let bytes ← slice? file start width
    let numbers ← record? order file (start + width) rest
    return order.number bytes.data.toList :: numbers

def records? (order : ByteOrder) (bytes : ByteArray) (widths : List Nat) :
    Option (List (List Nat)) :=
  let size := Text.total widths
  if bytes.size % size = 0 then
    (List.range (bytes.size / size)).mapM fun i => record? order bytes (i * size) widths
  else none

def terminated? (file : ByteArray) (start stop : Nat) : Option ByteArray := do
  guard (start ≤ stop)
  let bytes ← slice? file start (stop - start)
  let size ← bytes.data.findIdx? (· = 0)
  return bytes.extract 0 size

end CxxSymbols.Image
