import CxxSymbols.Rtti.View
import Std.Data.ExtTreeSet
/-!
Tables of virtual functions. Two words stand in front of the functions. No length is written, so
a table ends at the first word that is zero, unless its slot is one that the loader will fill.
-/
namespace CxxSymbols.Rtti

structure VTable where
  address : Address
  /- zero where a slot is filled by the loader -/
  entries : List Address
  deriving DecidableEq, Repr, Inhabited

def entriesFrom (v : View) (pending : Std.ExtTreeSet Address) (slot : Nat) :
    Nat → List Address
  | 0 => []
  | slots + 1 =>
    match v.readWord slot with
    | .error _ => []
    | .ok target =>
      if target = 0 ∧ ¬pending.contains (.ofNat slot) then []
      else .ofNat target :: entriesFrom v pending (slot + v.width.bytes) slots

/- A view has fewer slots than bytes, so it ends before their number runs out. -/
def VTable.read (v : View) (address : Address) (pending : Std.ExtTreeSet Address) :
    Except RttiError VTable := do
  let _ ← v.readWord address.toNat
  let _ ← v.readWord (address.toNat + v.width.bytes)
  return ⟨address, entriesFrom v pending (address.toNat + 2 * v.width.bytes) v.bytes.size⟩

end CxxSymbols.Rtti
