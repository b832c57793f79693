/-!
Addresses of the machine that an image is made for.
-/
namespace CxxSymbols

/- Sums of addresses are formed as natural numbers, which do not start over from zero where those of
words do. No record and no table is taken to reach that far. -/
abbrev Address := UInt64

inductive PointerWidth where
  | bits32
  | bits64
  deriving DecidableEq, Repr, Inhabited

def PointerWidth.bytes : PointerWidth → Nat
  | bits32 => 4
  | bits64 => 8

end CxxSymbols
