import CxxSymbols.Compression.PrefixCode
import CxxSymbols.Text.Number
/-!
Deflated data in a zlib stream. Blocks hold literals and references back into the output. Behind
them stands a checksum.
-/
namespace CxxSymbols.Compression.Zlib
open Decoder

/- Output is made in windows of this size, and faults are met a window at a time. -/
def windowSize : Nat := 32768

def lengths : List (Nat × Nat) := [
  (3, 0), (4, 0), (5, 0), (6, 0), (7, 0), (8, 0), (9, 0), (10, 0), (11, 1), (13, 1), (15, 1),
  (17, 1), (19, 2), (23, 2), (27, 2), (31, 2), (35, 3), (43, 3), (51, 3), (59, 3), (67, 4),
  (83, 4), (99, 4), (115, 4), (131, 5), (163, 5), (195, 5), (227, 5), (258, 0)]

def distances : List (Nat × Nat) := [
  (1, 0), (2, 0), (3, 0), (4, 0), (5, 1), (7, 1), (9, 2), (13, 2), (17, 3), (25, 3), (33, 4),
  (49, 4), (65, 5), (97, 5), (129, 6), (193, 6), (257, 7), (385, 7), (513, 8), (769, 8),
  (1025, 9), (1537, 9), (2049, 10), (3073, 10), (4097, 11), (6145, 11), (8193, 12), (12289, 12),
  (16385, 13), (24577, 13)]

def extended (table : List (Nat × Nat)) (symbol : Nat) : Decoder Nat := do
  match table[symbol]? with
  | some (least, extra) => return least + (← bits extra)
  | none => corrupt

def symbols (literals distanceCode : PrefixCode) : Nat → Decoder Unit
  | 0 => corrupt
  | rounds + 1 => do
    let symbol ← literals.read
    if symbol < 256 then
      emit (.ofNat symbol)
      symbols literals distanceCode rounds
    else if symbol = 256 then return
    else
      let length ← extended lengths (symbol - 257)
      let distance ← extended distances (← distanceCode.read)
      copyOutput distance length
      symbols literals distanceCode rounds

def fixedLiterals : List Nat :=
  List.replicate 144 8 ++ List.replicate 112 9 ++ List.replicate 24 7 ++ List.replicate 8 8

def fixedDistances : List Nat := List.replicate 32 5

def codeOf (lengths : List Nat) : Decoder PrefixCode :=
  match PrefixCode.ofLengths? lengths with
  | some code => pure code
  | none => corrupt

def lengthOrder : List Nat := [16, 17, 18, 0, 8, 7, 9, 6, 10, 5, 11, 4, 12, 3, 13, 2, 14, 1, 15]

def codeLengths (code : PrefixCode) (count : Nat) : Nat → List Nat → Decoder (List Nat)
  | 0, _ => corrupt
  | rounds + 1, known => do
    if known.length = count then return known.reverse
    if count < known.length then corrupt
    let symbol ← code.read
    if symbol < 16 then codeLengths code count rounds (symbol :: known)
    else if symbol = 16 then
      match known.head? with
      | none => corrupt
      | some last =>
        let times := 3 + (← bits 2)
        codeLengths code count rounds (List.replicate times last ++ known)
    else if symbol = 17 then
      let times := 3 + (← bits 3)
      codeLengths code count rounds (List.replicate times 0 ++ known)
    else
      let times := 11 + (← bits 7)
      codeLengths code count rounds (List.replicate times 0 ++ known)

def dynamicCodes : Decoder (PrefixCode × PrefixCode) := do
  let literalCount := 257 + (← bits 5)
  let distanceCount := 1 + (← bits 5)
  let given := 4 + (← bits 4)
  if 257 + lengths.length < literalCount ∨ distances.length < distanceCount then corrupt
  let values ← (lengthOrder.take given).mapM fun symbol => do return (symbol, ← bits 3)
  let lengthCode ← codeOf ((List.range 19).map fun symbol => (values.lookup symbol).getD 0)
  let count := literalCount + distanceCount
  let all ← codeLengths lengthCode count (count + 1) []
  return (← codeOf (all.take literalCount), ← codeOf (all.drop literalCount))

def storedBlock : Decoder Unit := do
  align
  let size ← bits 16
  let complement ← bits 16
  if size + complement ≠ 65535 then corrupt
  copyInput size

def block : Decoder Bool := do
  let last ← bit
  let rounds := 8 * (← get).input.size
  match ← bits 2 with
  | 0 => storedBlock
  | 1 => symbols (← codeOf fixedLiterals) (← codeOf fixedDistances) rounds
  | 2 =>
    let (literals, distanceCode) ← dynamicCodes
    symbols literals distanceCode rounds
  | _ => corrupt
  return last = 1

def blocks : Nat → Decoder Unit
  | 0 => corrupt
  | rounds + 1 => do unless ← block do blocks rounds

def adler32 (bytes : ByteArray) : Nat :=
  let (a, b) := bytes.foldl (fun (a, b) byte =>
    let a := (a + byte.toNat) % 65521
    (a, (b + a) % 65521)) (1, 0)
  65536 * b + a

def header : Decoder Unit := do
  let method ← bits 8
  let flags ← bits 8
  if (256 * method + flags) % 31 ≠ 0 ∨ method % 16 ≠ 8 ∨ 7 < method / 16 ∨ flags / 32 % 2 = 1 then
    corrupt

def stream : Decoder Unit := do
  header
  blocks (8 * (← get).input.size)
  align
  let sum ← (List.range 4).mapM fun _ => bits 8
  if Text.bigEndian (sum.map .ofNat) ≠ adler32 (← get).output then corrupt

/- The first `size` bytes of the output, or all of it if there is less. Faults in the window where
the last of them lies are met, but an end of the input behind them is not. -/
def decode? (size : Nat) (input : ByteArray) : Option ByteArray :=
  if size = 0 then some ByteArray.empty
  else
    let bound := (size + windowSize - 1) / windowSize * windowSize
    match stream { input, bound } with
    | .ok _ p | .error .enough p => some (p.output.extract 0 size)
    | .error .exhausted p =>
      if size ≤ p.output.size then some (p.output.extract 0 size) else none
    | .error .corrupt _ => none

end CxxSymbols.Compression.Zlib
