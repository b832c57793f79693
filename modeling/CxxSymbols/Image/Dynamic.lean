import CxxSymbols.Address
/-!
What an image says to the loader: the symbols that it exports and imports, and the places that
the loader patches.
-/
namespace CxxSymbols.Image

structure DynamicSymbol where
  index : Nat
  name : ByteArray
  /- zero for an import -/
  address : Address
  deriving Inhabited

structure Relocation where
  offset : Address
  type : UInt32
  symbol : Option Nat
  deriving DecidableEq, Repr, Inhabited

/- Whether the patch is the address of the symbol: `R_X86_64_64` and `R_AARCH64_ABS64`. -/
def isAbsolute (type : UInt32) : Bool := type = 1 || type = 257

end CxxSymbols.Image
