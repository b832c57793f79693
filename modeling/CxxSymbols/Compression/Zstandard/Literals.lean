import CxxSymbols.Compression.Zstandard.StateTable
/-!
The literals of a block: as they are, one byte many times, or in a prefix code whose words are
read backward. The code is given by weights: a word is the shorter the higher its weight. Its bits
are numbered so that words with all bits fill a table.
-/
namespace CxxSymbols.Compression.Zstandard

structure WordTable where
  log : Nat
  entries : Array (UInt8 × Nat)
  deriving DecidableEq, Repr, Inhabited

namespace WordTable

def maxLog : Nat := 12

def lastWeight? (weights : List Nat) : Option (Nat × Nat) :=
  let sum := Text.total (weights.map fun w => (1 <<< w) / 2)
  let log := sum.log2 + 1
  let room := (1 <<< log) - sum
  if sum ≠ 0 ∧ log ≤ maxLog ∧ room = 1 <<< room.log2 then some (log, room.log2 + 1) else none

/- The weights are those of all bytes but the last that has a word. Words of the lowest weight
come in pairs. -/
def ofWeights? (weights : List Nat) : Option WordTable := do
  let (log, last) ← lastWeight? weights
  let all := (weights ++ [last]).zipIdx
  guard (all.length ≤ 256)
  let longest := (all.filter fun entry => entry.1 = 1).length
  guard (2 ≤ longest ∧ longest % 2 = 0)
  let entries := (List.range' 1 log).flatMap fun weight =>
    (all.filter fun entry => entry.1 = weight).flatMap fun entry =>
      List.replicate (1 <<< (weight - 1)) (UInt8.ofNat entry.2, log + 1 - weight)
  return ⟨log, entries.toArray⟩

def plainWeights (bytes : ByteArray) (start count : Nat) : List Nat :=
  (List.range count).map fun i =>
    let b := (bytes.get! (start + i / 2)).toNat
    if i % 2 = 0 then b / 16 else b % 16

def stateWeights (table : StateTable) (now later : Nat) (input : Backward) : Nat → List Nat
  | 0 => []
  | rounds + 1 =>
    let (following, input) := table.next now input
    (table.entry now).symbol ::
      if input.left < 0 then [(table.entry later).symbol]
      else stateWeights table later following input rounds

def maxWeightLog : Nat := 6

def read? (bytes : ByteArray) (start : Nat) : Option (WordTable × Nat) := do
  guard (start < bytes.size)
  let head := (bytes.get! start).toNat
  if 128 ≤ head then
    let count := head - 127
    let stop := start + 1 + (count + 1) / 2
    guard (stop ≤ bytes.size)
    return (← ofWeights? (plainWeights bytes (start + 1) count), stop)
  else
    let stop := start + 1 + head
    guard (stop ≤ bytes.size)
    let content := bytes.extract (start + 1) stop
    let (table, place) ← StateTable.read? maxWeightLog 256 content 0
    let input ← Backward.ofBytes? (content.extract place content.size)
    let (now, input) := table.start input
    let (later, input) := table.start input
    guard (0 ≤ input.left)
    let weights := stateWeights table now later input 256
    guard (weights.length ≤ 255)
    return (← ofWeights? weights, stop)

def words (table : WordTable) (out : ByteArray) (input : Backward) : Nat → ByteArray × Backward
  | 0 => (out, input)
  | count + 1 =>
    let (byte, bits) := table.entries.getD (input.peek table.log) (0, 0)
    words table (out.push byte) (input.skip bits) count

def stream? (table : WordTable) (out bytes : ByteArray) (count : Nat) : Option ByteArray := do
  let input ← Backward.ofBytes? bytes
  let (out, input) := table.words out input count
  guard input.isDone
  return out

/- Four streams, whose sizes but the last are in front. All but the last have as many words. -/
def fourStreams? (table : WordTable) (bytes : ByteArray) (size : Nat) : Option ByteArray := do
  guard (6 ≤ bytes.size)
  let first := 6 + bitsAt bytes 0 16
  let second := first + bitsAt bytes 16 16
  let third := second + bitsAt bytes 32 16
  guard (third ≤ bytes.size)
  let each := (size + 3) / 4
  guard (3 * each ≤ size)
  let out ← table.stream? ByteArray.empty (bytes.extract 6 first) each
  let out ← table.stream? out (bytes.extract first second) each
  let out ← table.stream? out (bytes.extract second third) each
  table.stream? out (bytes.extract third bytes.size) (size - 3 * each)

end WordTable

structure Literals where
  bytes : ByteArray
  code : Option WordTable
  stop : Nat

namespace Literals

def plain? (block : ByteArray) (code : Option WordTable) (repeated : Bool) :
    Option Literals := do
  let (head, size) := match bitsAt block 2 2 with
    | 1 => (2, bitsAt block 4 12)
    | 3 => (3, bitsAt block 4 20)
    | _ => (1, bitsAt block 3 5)
  let stop := head + (if repeated then 1 else size)
  guard (stop ≤ block.size)
  let bytes :=
    if repeated then ⟨Array.replicate size (block.get! head)⟩ else block.extract head stop
  return ⟨bytes, code, stop⟩

def coded? (block : ByteArray) (code : Option WordTable) (own : Bool) : Option Literals := do
  let format := bitsAt block 2 2
  let (head, width) := match format with
    | 2 => (4, 14)
    | 3 => (5, 18)
    | _ => (3, 10)
  let size := bitsAt block 4 width
  let stop := head + bitsAt block (4 + width) width
  guard (stop ≤ block.size)
  let content := block.extract head stop
  let (table, start) ← if own then WordTable.read? content 0 else code.map (·, 0)
  let words := content.extract start content.size
  let bytes ←
    if format = 0 then table.stream? ByteArray.empty words size else table.fourStreams? words size
  return ⟨bytes, some table, stop⟩

def read? (block : ByteArray) (code : Option WordTable) : Option Literals := do
  guard (0 < block.size)
  match bitsAt block 0 2 with
  | 0 => plain? block code false
  | 1 => plain? block code true
  | 2 => coded? block code true
  | _ => coded? block code false

end Literals

end CxxSymbols.Compression.Zstandard
