/-!
Decompression. A decoder reads bits, the lowest of a byte first, and adds to its output. It stops
early when there is as much output as it was asked for, when its input ends, or at a fault.
-/
namespace CxxSymbols.Compression

inductive Stop where
  | enough
  | exhausted
  | corrupt
  deriving DecidableEq, Repr, Inhabited

structure Progress where
  input : ByteArray
  position : Nat := 0
  output : ByteArray := ByteArray.empty
  bound : Nat

abbrev Decoder := EStateM Stop Progress

namespace Decoder

def corrupt {α : Type} : Decoder α := throw .corrupt

def bit : Decoder Nat := do
  let p ← get
  match p.input[p.position / 8]? with
  | some b =>
    set { p with position := p.position + 1 }
    return (b.toNat >>> (p.position % 8)) % 2
  | none => throw .exhausted

def bits : Nat → Decoder Nat
  | 0 => return 0
  | count + 1 => do
    let low ← bit
    let high ← bits count
    return low + 2 * high

def align : Decoder Unit := modify fun p => { p with position := (p.position + 7) / 8 * 8 }

def emit (b : UInt8) : Decoder Unit := do
  modify fun p => { p with output := p.output.push b }
  let p ← get
  if p.bound ≤ p.output.size then throw .enough

def copyInput : Nat → Decoder Unit
  | 0 => return
  | count + 1 => do
    emit (.ofNat (← bits 8))
    copyInput count

def copyOutput (distance : Nat) : Nat → Decoder Unit
  | 0 => return
  | count + 1 => do
    let output := (← get).output
    emit (if distance ≤ output.size then output.get! (output.size - distance) else 0)
    copyOutput distance count

end Decoder

end CxxSymbols.Compression
