import CxxSymbols.Compression.BitString
/-!
Entropy coding by finite states. Each state stands for a symbol, and tells how many bits to read
for the next state. A symbol has states in proportion to how often it is expected.
-/
namespace CxxSymbols.Compression.Zstandard

structure StateEntry where
  symbol : Nat
  bits : Nat
  base : Nat
  deriving DecidableEq, Repr, Inhabited

structure StateTable where
  log : Nat
  entries : Array StateEntry
  deriving DecidableEq, Repr, Inhabited

/- How many states each symbol has. A symbol that is rarer than one state still has one, in which
the whole next state is read. -/
inductive Share where
  | states (count : Nat)
  | rare
  deriving DecidableEq, Repr, Inhabited

def Share.count : Share → Nat
  | states count => count
  | rare => 1

namespace StateTable

def single (symbol : Nat) : StateTable := ⟨0, #[⟨symbol, 0, 0⟩]⟩

/- The symbol of each state. Rare symbols have the last states. The others are spread in steps
that reach all states. -/
def spread (log : Nat) (shares : List Share) : Array Nat :=
  let size := 1 <<< log
  let rare := (shares.zipIdx.filter fun entry => entry.1 = .rare).map Prod.snd
  let common := shares.zipIdx.flatMap fun (share, symbol) =>
    if share = .rare then [] else List.replicate share.count symbol
  let step := size / 2 + size / 8 + 3
  let free := ((List.range size).map fun k => k * step % size).filter (· < size - rare.length)
  let places := (List.range rare.length).map (size - 1 - ·) ++ free
  (places.zip (rare ++ common)).foldl (fun states (place, symbol) => states.set! place symbol)
    (Array.replicate size 0)

def ofShares (log : Nat) (shares : List Share) : StateTable :=
  let (entries, _) := (spread log shares).foldl (fun (entries, next) symbol =>
    let rank := next.getD symbol 1
    let bits := log - rank.log2
    (entries.push ⟨symbol, bits, (rank <<< bits) - (1 <<< log)⟩, next.set! symbol (rank + 1)))
    ((#[] : Array StateEntry), (shares.map Share.count).toArray)
  ⟨log, entries⟩

/- Reads how many more symbols have no state: three at a time, as long as there are three. -/
def zeroRun (bytes : ByteArray) (position : Nat) : Nat → Nat × Nat
  | 0 => (0, position)
  | rounds + 1 =>
    let count := bitsAt bytes position 2
    if count = 3 then
      let (more, position) := zeroRun bytes (position + 2) rounds
      (more + 3, position)
    else (count, position + 2)

def sharesFrom (bytes : ByteArray) (left position : Nat) (known : List Share) :
    Nat → Option (List Share × Nat)
  | 0 => none
  | rounds + 1 =>
    if left = 0 then some (known.reverse, position)
    else
      let width := (left + 1).log2
      let low := bitsAt bytes position width
      let short := (1 <<< (width + 1)) - 1 - (left + 1)
      let value :=
        if low < short then low
        else if bitsAt bytes (position + width) 1 = 0 then low
        else low + (1 <<< width) - short
      let position := position + (if low < short then width else width + 1)
      match value with
      | 0 => sharesFrom bytes (left - 1) position (.rare :: known) rounds
      | 1 =>
        let (run, position) := zeroRun bytes position (8 * bytes.size)
        sharesFrom bytes left position (List.replicate (run + 1) (.states 0) ++ known) rounds
      | count + 2 =>
        if left < count + 1 then none
        else sharesFrom bytes (left - (count + 1)) position (.states (count + 1) :: known) rounds

def read? (maxLog maxSymbols : Nat) (bytes : ByteArray) (start : Nat) :
    Option (StateTable × Nat) := do
  let log := 5 + bitsAt bytes (8 * start) 4
  guard (log ≤ maxLog)
  let (shares, position) ← sharesFrom bytes (1 <<< log) (8 * start + 4) [] (maxSymbols + 1)
  let stop := (position + 7) / 8
  guard (shares.length ≤ maxSymbols ∧ stop ≤ bytes.size)
  return (ofShares log shares, stop)

def entry (table : StateTable) (state : Nat) : StateEntry := table.entries.getD state default

def start (table : StateTable) (input : Backward) : Nat × Backward := input.read table.log

def next (table : StateTable) (state : Nat) (input : Backward) : Nat × Backward :=
  let entry := table.entry state
  let (low, input) := input.read entry.bits
  (entry.base + low, input)

end StateTable

end CxxSymbols.Compression.Zstandard
