import CxxSymbols.Text.Utf8
/-!
Scanners over mangled names. A scanner takes bytes from the front of what is still to be read and
may keep things in a memory of the grammar's own. What is to be read is a list: nothing is read past
its end, and whatever would skip past it says so. A scanner that refuses leaves the state as it was
when it met the fault.
-/
namespace CxxSymbols

structure Cursor (Memory : Type) where
  rest : List UInt8
  memory : Memory

inductive Refusal where
  /- the input does not match the grammar, or passes one of its limits -/
  | mismatch
  /- the scan was started with too few steps for its input -/
  | exhausted
  /- bytes were to be skipped that are not there -/
  | overrun
  deriving DecidableEq, Repr, Inhabited

abbrev Scanner (Memory : Type) := EStateM Refusal (Cursor Memory)

namespace Scanner

variable {μ α : Type}

def refuse : Scanner μ α := throw .mismatch

def ofOption : Option α → Scanner μ α
  | some a => pure a
  | none => refuse

def rest : Scanner μ (List UInt8) := return (← get).rest

def setRest (rest : List UInt8) : Scanner μ Unit := modify fun s => { s with rest }

def memory : Scanner μ μ := return (← get).memory

def alter (f : μ → μ) : Scanner μ Unit := modify fun s => { s with memory := f s.memory }

def peek : Scanner μ (Option Char) := return (← rest).head?.map Char.ofUInt8

def peekAt (n : Nat) : Scanner μ (Option Char) := return (← rest)[n]?.map Char.ofUInt8

def current : Scanner μ Char := do ofOption (← peek)

def skip (n : Nat) : Scanner μ Unit := do
  let input ← rest
  if n ≤ input.length then setRest (input.drop n) else throw .overrun

def next : Scanner μ Char := do
  let c ← current
  skip 1
  return c

def after? : List Char → List UInt8 → Option (List UInt8)
  | [], rest => some rest
  | _ :: _, [] => none
  | c :: cs, b :: rest => if Char.ofUInt8 b = c then after? cs rest else none

def accept (text : String) : Scanner μ Bool := do
  match after? text.toList (← rest) with
  | some rest =>
    setRest rest
    return true
  | none => return false

def acceptAny : List String → Scanner μ Bool
  | [] => return false
  | text :: texts => do if ← accept text then return true else acceptAny texts

def expect (text : String) : Scanner μ Unit := do
  unless ← accept text do refuse

/- Runs an item again and again until `stop` answers `true`. Every item takes at least one byte,
so there are no more rounds than bytes. -/
def manyUntilIn (stop : Scanner μ Bool) (item : Scanner μ α) : Nat → Scanner μ (List α)
  | 0 => throw .exhausted
  | rounds + 1 => do
    if ← stop then return []
    let x ← item
    let xs ← manyUntilIn stop item rounds
    return x :: xs

def manyUntil (stop : Scanner μ Bool) (item : Scanner μ α) : Scanner μ (List α) := do
  manyUntilIn stop item ((← rest).length + 1)

def manyTo (stop : String) (item : Scanner μ α) : Scanner μ (List α) :=
  manyUntil (accept stop) item

def manyAfter (start : String) (item : Scanner μ α) : Scanner μ (List α) :=
  manyUntil (return !(← accept start)) item

def restoring (putBack : μ → μ → μ) (scanner : Scanner μ α) : Scanner μ α := fun s =>
  match scanner s with
  | .ok a t => .ok a { t with memory := putBack s.memory t.memory }
  | .error e t => .error e { t with memory := putBack s.memory t.memory }

def takeWhile (test : UInt8 → Bool) : Scanner μ (List UInt8) := do
  let s ← rest
  setRest (s.dropWhile test)
  return s.takeWhile test

def isDigit (b : UInt8) : Bool := 48 ≤ b && b ≤ 57

def decimal (digits : List UInt8) : Nat :=
  digits.foldl (fun n b => n * 10 + (b.toNat - 48)) 0

end Scanner

end CxxSymbols
