import CxxSymbols.Address
import CxxSymbols.Text.Number
/-!
A view of the bytes of a section as they lie in memory, least significant byte first.
-/
namespace CxxSymbols.Rtti

inductive RttiError where
  | missingRuntimeSymbol (name : String)
  | badSymbolIndex (offset : Address) (symbol : Nat)
  | outOfBounds (address : Nat)
  deriving DecidableEq, Repr, Inhabited

def RttiError.message : RttiError → String
  | missingRuntimeSymbol name =>
    "runtime support symbol `" ++ name ++ "` not found: not linked against a C++ runtime?"
  | badSymbolIndex offset symbol =>
    "relocation at " ++ Text.hex offset.toNat ++ " references unknown symbol #" ++ toString symbol
  | outOfBounds address => "address " ++ Text.hex address ++ " is outside of the data section"

structure View where
  base : Address
  bytes : ByteArray
  width : PointerWidth

namespace View

def contains (v : View) (address : Address) : Bool :=
  v.base ≤ address && (address - v.base).toNat < v.bytes.size

def slice (v : View) (address count : Nat) : Except RttiError (List UInt8) :=
  let start := address - v.base.toNat
  if v.base.toNat ≤ address ∧ start + count ≤ v.bytes.size then
    .ok (v.bytes.extract start (start + count)).data.toList
  else .error (.outOfBounds address)

def readU32 (v : View) (address : Nat) : Except RttiError Nat :=
  (v.slice address 4).map Text.littleEndian

def readWord (v : View) (address : Nat) : Except RttiError Nat :=
  (v.slice address v.width.bytes).map Text.littleEndian

def readSigned (v : View) (address : Nat) : Except RttiError Int :=
  (v.readWord address).map (Text.signed v.width.bytes)

end View

end CxxSymbols.Rtti
