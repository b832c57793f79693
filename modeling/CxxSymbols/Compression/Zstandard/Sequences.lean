import CxxSymbols.Compression.Zstandard.StateTable
/-!
The sequences of a block. Each says how many literals to take, and then how much of the output to
repeat from which distance. Small numbers in place of a distance mean one of the last distances.
-/
namespace CxxSymbols.Compression.Zstandard

structure Sequence where
  literals : Nat
  matched : Nat
  /- a distance and three, or which of the last distances -/
  offset : Nat
  deriving DecidableEq, Repr, Inhabited

structure SequenceTables where
  literals : Option StateTable := none
  offsets : Option StateTable := none
  matched : Option StateTable := none

structure NumberFormat where
  maxLog : Nat
  numbers : Array (Nat × Nat)
  usual : StateTable

namespace NumberFormat

def shares (counts : List Int) : List Share :=
  counts.map fun n => if n < 0 then .rare else .states n.toNat

def literals : NumberFormat where
  maxLog := 9
  numbers := ((List.range 16).map (·, 0) ++ [(16, 1), (18, 1), (20, 1), (22, 1), (24, 2), (28, 2),
    (32, 3), (40, 3), (48, 4), (64, 6), (128, 7), (256, 8), (512, 9), (1024, 10), (2048, 11),
    (4096, 12), (8192, 13), (16384, 14), (32768, 15), (65536, 16)]).toArray
  usual := .ofShares 6 (shares [4, 3, 2, 2, 2, 2, 2, 2, 2, 2, 2, 2, 2, 1, 1, 1, 2, 2, 2, 2, 2, 2,
    2, 2, 2, 3, 2, 1, 1, 1, 1, 1, -1, -1, -1, -1])

def matched : NumberFormat where
  maxLog := 9
  numbers := ((List.range' 3 32).map (·, 0) ++ [(35, 1), (37, 1), (39, 1), (41, 1), (43, 2),
    (47, 2), (51, 3), (59, 3), (67, 4), (83, 4), (99, 5), (131, 7), (259, 8), (515, 9), (1027, 10),
    (2051, 11), (4099, 12), (8195, 13), (16387, 14), (32771, 15), (65539, 16)]).toArray
  usual := .ofShares 6 (shares [1, 4, 3, 2, 2, 2, 2, 2, 2, 1, 1, 1, 1, 1, 1, 1, 1, 1, 1, 1, 1, 1,
    1, 1, 1, 1, 1, 1, 1, 1, 1, 1, 1, 1, 1, 1, 1, 1, 1, 1, 1, 1, 1, 1, 1, 1, -1, -1, -1, -1, -1, -1,
    -1])

def offsets : NumberFormat where
  maxLog := 8
  numbers := ((List.range 32).map fun symbol => (1 <<< symbol, symbol)).toArray
  usual := .ofShares 5 (shares [1, 1, 1, 1, 1, 1, 2, 2, 2, 1, 1, 1, 1, 1, 1, 1, 1, 1, 1, 1, 1, 1,
    1, 1, -1, -1, -1, -1, -1])

def table? (format : NumberFormat) (known : Option StateTable) (block : ByteArray)
    (start : Nat) : Nat → Option (StateTable × Nat)
  | 0 => some (format.usual, start)
  | 1 => do
    guard (start < block.size)
    let symbol := (block.get! start).toNat
    guard (symbol < format.numbers.size)
    return (.single symbol, start + 1)
  | 2 => StateTable.read? format.maxLog format.numbers.size block start
  | _ => known.map (·, start)

def read (format : NumberFormat) (table : StateTable) (state : Nat) (input : Backward) :
    Nat × Backward :=
  let (least, extra) := format.numbers.getD (table.entry state).symbol (0, 0)
  let (more, input) := input.read extra
  (least + more, input)

end NumberFormat

namespace Sequence

def readFrom (literals offsets matchTable : StateTable) (l o m : Nat) (input : Backward) :
    Nat → List Sequence × Backward
  | 0 => ([], input)
  | count + 1 =>
    let (offset, input) := NumberFormat.offsets.read offsets o input
    let (matched, input) := NumberFormat.matched.read matchTable m input
    let (taken, input) := NumberFormat.literals.read literals l input
    if count = 0 then ([⟨taken, matched, offset⟩], input)
    else
      let (l, input) := literals.next l input
      let (m, input) := matchTable.next m input
      let (o, input) := offsets.next o input
      let (rest, input) := readFrom literals offsets matchTable l o m input count
      (⟨taken, matched, offset⟩ :: rest, input)

def count? (block : ByteArray) (start : Nat) : Option (Nat × Nat) := do
  guard (start < block.size)
  let first := (block.get! start).toNat
  let size := if first < 128 then 1 else if first < 255 then 2 else 3
  guard (start + size ≤ block.size)
  let count :=
    if first < 128 then first
    else if first < 255 then 256 * (first - 128) + bitsAt block (8 * start + 8) 8
    else bitsAt block (8 * start + 8) 16 + 32512
  return (count, start + size)

def readAll? (block : ByteArray) (start : Nat) (known : SequenceTables) :
    Option (List Sequence × SequenceTables) := do
  let (count, place) ← count? block start
  if count = 0 then
    guard (place = block.size)
    return ([], known)
  guard (place < block.size)
  let modes := (block.get! place).toNat
  guard (modes % 4 = 0)
  let (literals, place) ←
    NumberFormat.literals.table? known.literals block (place + 1) (modes / 64)
  let (offsets, place) ← NumberFormat.offsets.table? known.offsets block place (modes / 16 % 4)
  let (matchTable, place) ← NumberFormat.matched.table? known.matched block place (modes / 4 % 4)
  let input ← Backward.ofBytes? (block.extract place block.size)
  let (l, input) := literals.start input
  let (o, input) := offsets.start input
  let (m, input) := matchTable.start input
  let (sequences, input) := readFrom literals offsets matchTable l o m input count
  guard input.isDone
  return (sequences, ⟨some literals, some offsets, some matchTable⟩)

end Sequence

structure Distances where
  first : Nat := 1
  second : Nat := 4
  third : Nat := 8
  deriving DecidableEq, Repr, Inhabited

/- The distance of a sequence, and the last distances after it. Without literals the latest
distance is not meant, so the numbers stand for the ones behind it. -/
def Distances.next (d : Distances) (s : Sequence) : Nat × Distances :=
  if 3 < s.offset then (s.offset - 3, ⟨s.offset - 3, d.first, d.second⟩)
  else
    match s.offset + (if s.literals = 0 then 1 else 0) with
    | 1 => (d.first, d)
    | 2 => (d.second, ⟨d.second, d.first, d.third⟩)
    | 3 => (d.third, ⟨d.third, d.first, d.second⟩)
    | _ => (d.first - 1, ⟨d.first - 1, d.first, d.second⟩)

end CxxSymbols.Compression.Zstandard
