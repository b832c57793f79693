import CxxSymbols.Compression.Output
import CxxSymbols.Text.Number
/-!
Canonical prefix codes. A code is given by the lengths of its words: words of one length are
consecutive numbers in the order of their symbols, and shorter words come first.
-/
namespace CxxSymbols.Compression

structure PrefixCode where
  counts : List Nat
  symbols : Array Nat
  deriving DecidableEq, Repr, Inhabited

namespace PrefixCode

def maxLength : Nat := 15

def ofLength (lengths : List Nat) (length : Nat) : List Nat :=
  (lengths.zipIdx.filter fun entry => entry.1 = length).map Prod.snd

def weight (counts : List Nat) : Rat :=
  counts.foldr (fun (count : Nat) (longer : Rat) => (count + longer) / 2) 0

/- The lengths have to fill the code, unless there is one word at most. Zero is for a symbol
without a word. -/
def ofLengths? (lengths : List Nat) : Option PrefixCode :=
  let classes := (List.range' 1 maxLength).map (ofLength lengths)
  let counts := classes.map List.length
  if weight counts = 1 ∨ Text.total counts ≤ 1 then some ⟨counts, classes.flatten.toArray⟩ else none

/- Reads a word on from `word`, which is longer than the words seen so far. `first` is the least
word of its length, and `index` is the place of its symbol. -/
def readFrom (symbols : Array Nat) (word first index : Nat) : List Nat → Decoder Nat
  | [] => Decoder.corrupt
  | count :: longer => do
    let word := 2 * word + (← Decoder.bit)
    if word < first + count then
      match symbols[index + (word - first)]? with
      | some symbol => return symbol
      | none => Decoder.corrupt
    else readFrom symbols word (2 * (first + count)) (index + count) longer

def read (code : PrefixCode) : Decoder Nat := readFrom code.symbols 0 0 0 code.counts

end PrefixCode

end CxxSymbols.Compression
