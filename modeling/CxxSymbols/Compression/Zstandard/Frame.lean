import CxxSymbols.Compression.Output
import CxxSymbols.Compression.XxHash
import CxxSymbols.Compression.Zstandard.Literals
import CxxSymbols.Compression.Zstandard.Sequences
/-!
Zstandard data: frames, one behind the other, some of which are passed over. A frame is a header,
blocks and perhaps a checksum.
-/
namespace CxxSymbols.Compression.Zstandard
open Decoder

structure Memory where
  code : Option WordTable := none
  tables : SequenceTables := {}
  distances : Distances := {}

def maxBlockSize : Nat := 128 * 1024

def maxWindowSize : Nat := 0x8000001

structure FrameHeader where
  windowSize : Nat
  contentSize : Option Nat
  hasChecksum : Bool
  deriving DecidableEq, Repr, Inhabited

def FrameHeader.blockSize (h : FrameHeader) : Nat := min h.windowSize maxBlockSize

def repeatFrom (out : ByteArray) (distance : Nat) : Nat → ByteArray
  | 0 => out
  | count + 1 => repeatFrom (out.push (out.get! (out.size - distance))) distance count

def execute (out literals : ByteArray) (place : Nat) (distances : Distances) :
    List Sequence → Option (ByteArray × Distances)
  | [] => some (out ++ literals.extract place literals.size, distances)
  | s :: rest => do
    guard (place + s.literals ≤ literals.size)
    let out := out ++ literals.extract place (place + s.literals)
    let (distance, distances) := distances.next s
    guard (0 < distance ∧ distance ≤ out.size)
    execute (repeatFrom out distance s.matched) literals (place + s.literals) distances rest

def codedBlock? (content history : ByteArray) (m : Memory) : Option (ByteArray × Memory) := do
  let literals ← Literals.read? content m.code
  let (sequences, tables) ← Sequence.readAll? content literals.stop m.tables
  let (out, distances) ← execute history literals.bytes 0 m.distances sequences
  return (out.extract history.size out.size, ⟨literals.code, tables, distances⟩)

def emitAll (bytes : ByteArray) : Decoder Unit := bytes.data.toList.forM emit

def takeBytes (count : Nat) : Decoder ByteArray := do
  let p ← get
  let start := p.position / 8
  if p.input.size < start + count then throw .exhausted
  set { p with position := p.position + 8 * count }
  return p.input.extract start (start + count)

def takeNumber (count : Nat) : Decoder Nat :=
  return Text.littleEndian (← takeBytes count).data.toList

def block (h : FrameHeader) (start : Nat) (m : Memory) : Decoder (Bool × Memory) := do
  let head ← takeNumber 3
  let last := head % 2 = 1
  let size := head / 8
  if h.blockSize < size then corrupt
  match head / 2 % 4 with
  | 0 =>
    copyInput size
    return (last, m)
  | 1 =>
    emitAll ⟨Array.replicate size ((← takeBytes 1).get! 0)⟩
    return (last, m)
  | 2 =>
    let content ← takeBytes size
    let output := (← get).output
    match codedBlock? content (output.extract start output.size) m with
    | some (added, m) =>
      if h.blockSize < added.size then corrupt
      emitAll added
      return (last, m)
    | none => corrupt
  | _ => corrupt

def blocks (h : FrameHeader) (start : Nat) (m : Memory) : Nat → Decoder Unit
  | 0 => corrupt
  | rounds + 1 => do
    let (last, m) ← block h start m
    unless last do blocks h start m rounds

/- The window is a power of two and some eighths of it. -/
def windowSize (descriptor : Nat) : Nat :=
  let base := 1 <<< (10 + descriptor / 8)
  base + base / 8 * (descriptor % 8)

def frameHeader : Decoder FrameHeader := do
  let descriptor ← takeNumber 1
  let single := descriptor / 32 % 2 = 1
  if descriptor / 8 % 2 = 1 then corrupt
  let window ← if single then pure 0 else takeNumber 1
  let dictionary ← takeNumber ([0, 1, 2, 4].getD (descriptor % 4) 0)
  if dictionary ≠ 0 then corrupt
  let width := [if single then 1 else 0, 2, 4, 8].getD (descriptor / 64) 0
  let content ← takeNumber width
  let content := if width = 2 then content + 256 else content
  let windowSize := if single then content else windowSize window
  if maxWindowSize < windowSize then corrupt
  return ⟨windowSize, if width = 0 then none else some content, descriptor / 4 % 2 = 1⟩

def frame : Decoder Unit := do
  let header ← frameHeader
  let start := (← get).output.size
  blocks header start {} (← get).input.size
  let output := (← get).output
  if header.contentSize.any (· ≠ output.size - start) then corrupt
  if header.hasChecksum then
    let sum ← takeNumber 4
    let hash := XxHash.hash (output.extract start output.size)
    if sum ≠ hash.toNat % UInt32.size then corrupt

def frameMagic : Nat := 0xFD2FB528

def skippableMagic : Nat := 0x184D2A50

def frames (size : Nat) : Nat → Decoder Unit
  | 0 => corrupt
  | rounds + 1 => do
    let magic ← takeNumber 4
    if magic = frameMagic then frame
    else if magic / 16 = skippableMagic / 16 then
      let length ← takeNumber 4
      let _ ← takeBytes length
    else corrupt
    let p ← get
    if p.output.size < size ∧ p.position < 8 * p.input.size then frames size rounds

/- The first `size` bytes of the output, or all of it if there is less. Faults up to the block
behind them are met, but an end of the input there is not. -/
def decode? (size : Nat) (input : ByteArray) : Option ByteArray :=
  if size = 0 then some ByteArray.empty
  else
    match frames size input.size { input, bound := size + 1 } with
    | .ok _ p | .error .enough p => some (p.output.extract 0 size)
    | .error .exhausted p =>
      if size ≤ p.output.size then some (p.output.extract 0 size) else none
    | .error .corrupt _ => none

end CxxSymbols.Compression.Zstandard
