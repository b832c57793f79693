import CxxSymbols.Text.Number
/-!
Bytes as a string of bits, the lowest of each byte first, and reading it from its end.
-/
namespace CxxSymbols.Compression

/- The number that so many bits from a place on form, the lowest first. What lies past the end is
zero. -/
def bitsAt (bytes : ByteArray) (start count : Nat) : Nat :=
  let covered := bytes.extract (start / 8) ((start + count + 7) / 8)
  (Text.littleEndian covered.data.toList >>> (start % 8)) % (1 <<< count)

structure Backward where
  bytes : ByteArray
  /- the bits that are left; negative once more have been read than there are -/
  left : Int

namespace Backward

/- The highest bit that is set marks the end. -/
def ofBytes? (bytes : ByteArray) : Option Backward :=
  match bytes.data.back? with
  | some last =>
    if last = 0 then none else some ⟨bytes, 8 * (bytes.size - 1 : Nat) + last.toNat.log2⟩
  | none => none

def peek (b : Backward) (count : Nat) : Nat :=
  let here := min count b.left.toNat
  bitsAt b.bytes (b.left.toNat - here) here <<< (count - here)

def skip (b : Backward) (count : Nat) : Backward := { b with left := b.left - count }

def read (b : Backward) (count : Nat) : Nat × Backward := (b.peek count, b.skip count)

def isDone (b : Backward) : Bool := b.left = 0

end Backward

end CxxSymbols.Compression
