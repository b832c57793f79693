import CxxSymbols.Rtti.View
/-!
A section of an image as it lies in memory.
-/
namespace CxxSymbols.Image

structure Section where
  address : Address
  /- the size in memory, which the data need not have -/
  size : UInt64
  width : PointerWidth
  data : ByteArray

namespace Section

def offsetOf? (s : Section) (address : Address) : Option Nat :=
  let offset := address.toNat - s.address.toNat
  if s.address ≤ address ∧ offset < s.data.size then some offset else none

def addressOf? (s : Section) (offset : Nat) : Option Address :=
  if offset < s.data.size then some (s.address + .ofNat offset) else none

def stop (s : Section) : Address := s.address + s.size

def view (s : Section) : Rtti.View := ⟨s.address, s.data, s.width⟩

end Section

end CxxSymbols.Image
