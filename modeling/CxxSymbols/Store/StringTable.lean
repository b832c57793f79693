import Std.Data.HashMap
/-!
Strings that messages share. While messages are collected each string has a number of its own.
Then a string that came once is given back as it is, and the others make up a table, in the order
in which they first came.
-/
namespace CxxSymbols.Store

structure StringCount where
  string : String
  count : Nat
  deriving DecidableEq, Repr, Inhabited

structure StringPool where
  numbers : Std.HashMap String Nat := {}
  strings : Array StringCount := #[]
  /- no less than the bytes that the strings would take in a table -/
  size : Nat := 0

inductive Resolution where
  | inline (string : String)
  | entry (index : Nat)
  deriving DecidableEq, Repr, Inhabited

namespace StringPool

/- A length takes at most five bytes. Numbers go out as words of 32 bits, and a batch ends long before
there are as many strings. -/
def intern (pool : StringPool) (s : String) : Nat × StringPool :=
  match pool.numbers[s]? with
  | some n =>
    (n, { pool with strings := pool.strings.modify n fun e => { e with count := e.count + 1 } })
  | none =>
    let n := pool.strings.size
    (n, ⟨pool.numbers.insert s n, pool.strings.push ⟨s, 1⟩, pool.size + 5 + s.utf8ByteSize⟩)

def table (pool : StringPool) : List String :=
  (pool.strings.toList.filter fun e => 1 < e.count).map (·.string)

def resolutionsFrom (entries : Nat) : List StringCount → List Resolution
  | [] => []
  | e :: rest =>
    if 1 < e.count then .entry entries :: resolutionsFrom (entries + 1) rest
    else .inline e.string :: resolutionsFrom entries rest

def resolutions (pool : StringPool) : Array Resolution :=
  (resolutionsFrom 0 pool.strings.toList).toArray

end StringPool

end CxxSymbols.Store
