import CxxSymbols.Itanium.Instance
import CxxSymbols.Text.Scanner
/-!
The memory of the Itanium grammar and the rules that hold no other: numbers, identifiers,
qualifiers and references to what was seen before.
-/
namespace CxxSymbols.Itanium.Grammar
open Canonical (Qualifiers RefQualifier)
open Scanner

def maxNesting : Nat := 256

def maxTreeDepth : Nat := 256

def referenceBudget : Nat := 65536

inductive Reading where
  /- for a key: a parameter stands for its argument as soon as it is read -/
  | key
  /- for a spelling: a parameter stays what it is until the whole symbol that it belongs to is
  read. Then references to it in another symbol mean a parameter of that one. -/
  | spelling
  deriving DecidableEq, Repr, Inhabited

structure Memory where
  reading : Reading := .key
  candidates : Array Node := #[]
  arguments : List Node := []
  /- whether the next template argument list is that of the name being declared -/
  declaring : Bool := true
  /- whether a type may be followed by template arguments of its own -/
  applying : Bool := true
  lastIdentifier : String := ""
  nesting : Nat := 0
  budget : Nat := referenceBudget

abbrev Rule := Scanner Memory

def nested {α : Type} (rule : Rule α) : Rule α := fun s =>
  let s := { s with memory.nesting := s.memory.nesting + 1 }
  if s.memory.nesting ≤ maxNesting then
    restoring (fun _ after => { after with nesting := after.nesting - 1 }) rule s
  else .error .mismatch s

def number? : Rule (Option String) := do
  let input ← rest
  let isNegative := input.head? = some 110
  let body := if isNegative then input.drop 1 else input
  let digits := body.takeWhile isDigit
  if digits.isEmpty then return none
  setRest (body.dropWhile isDigit)
  return some ((if isNegative then "-" else "") ++ String.ofList (digits.map Char.ofUInt8))

def number : Rule String := do ofOption (← number?)

def natural? : Rule (Option Nat) := do
  let input ← rest
  let digits := input.takeWhile isDigit
  if digits.isEmpty || decimal digits ≥ UInt64.size then return none
  setRest (input.dropWhile isDigit)
  return some (decimal digits)

def natural : Rule Nat := do ofOption (← natural?)

def sequenceDigit? (b : UInt8) : Option Nat :=
  if isDigit b then some (b.toNat - 48)
  else if 65 ≤ b && b ≤ 90 then some (b.toNat - 55)
  else none

def sequenceId? : Rule (Option Nat) := do
  let digits ← takeWhile fun b => (sequenceDigit? b).isSome
  if digits.isEmpty then return none
  let value := (digits.filterMap sequenceDigit?).foldl (fun n d => n * 36 + d) 0
  if value < UInt64.size then return some value else refuse

def anonymousNamespace : String := "(anonymous namespace)"

def identifier : Rule String := do
  let length ← natural
  let input ← rest
  if input.length < length then refuse
  setRest (input.drop length)
  let bytes := input.take length
  let identifier :=
    if (after? "_GLOBAL__N".toList bytes).isSome then anonymousNamespace
    else Text.decodeLossy bytes
  alter fun m => { m with lastIdentifier := identifier }
  return identifier

def aside {α : Type} (rule : Rule α) : Rule α :=
  restoring (fun before after => { after with lastIdentifier := before.lastIdentifier }) rule

/- The number of an unnamed entity: none is zero, and each written one counts from one. -/
def ordinal : Rule Nat := do
  match ← natural? with
  | none => return 0
  | some n => if n + 1 < UInt64.size then return n + 1 else refuse

def qualifiers : Rule Qualifiers := do
  let isRestrict ← accept "r"
  let isVolatile ← accept "V"
  let isConst ← accept "K"
  return ⟨isConst, isVolatile, isRestrict⟩

def refQualifier : Rule RefQualifier := do
  if ← accept "O" then return .rvalue
  if ← accept "R" then return .lvalue
  return .none

def discriminator : Rule Unit := do
  if (← peek) = some '_' then
    match ← peekAt 1 with
    | some '_' =>
      let input ← rest
      skip 2
      match ← number? with
      | some _ => unless ← accept "_" do setRest input
      | none => setRest input
    | some c => if c.isDigit then skip 2
    | none => pure ()

def atEncodingEnd : Rule Bool := do
  match ← peek with
  | none | some 'E' | some '.' => return true
  | _ => return false

def remember (node : Node) : Rule Unit :=
  alter fun m => { m with candidates := m.candidates.push node }

def refer (node : Node) : Rule Node := do
  if node.depthWithin maxTreeDepth then
    let (isPaid, budget) := node.charge (← memory).budget
    alter fun m => { m with budget }
    if isPaid then return node else refuse
  else refuse

def stdAbbreviation? : Char → Option StdAbbreviation
  | 'a' => some .allocator
  | 'b' => some .basicString
  | 's' => some .string
  | 'i' => some .istream
  | 'o' => some .ostream
  | 'd' => some .iostream
  | _ => none

def candidate (index : Nat) : Rule Node := do
  refer (← ofOption (← memory).candidates[index]?)

def substitution : Rule Node := do
  expect "S"
  match stdAbbreviation? (← current) with
  | some abbr =>
    skip 1
    return .abbreviation abbr
  | none =>
    if ← accept "_" then candidate 0
    else
      let id ← ofOption (← sequenceId?)
      expect "_"
      candidate (id + 1)

def argument (index : Nat) : Rule Node := do
  let memory ← memory
  match memory.reading, memory.arguments[index]? with
  | .key, some argument => refer argument
  | _, _ => return .templateParam index

def templateParam : Rule Node := do
  expect "T"
  if ← accept "_" then argument 0
  else
    let n ← natural
    expect "_"
    if n + 1 < UInt64.size then argument (n + 1) else refuse

def withAbiTags (name : Node) : Rule Node := do
  let tags ← aside (manyAfter "B" identifier)
  return tags.foldl .abiTag name

def functionParamTail : Rule Node := do
  let _ ← qualifiers
  let index ← natural?
  expect "_"
  return .expr .parameter (toString (index.elim 1 (· + 2))) []

def functionParam : Rule Node := do
  if ← accept "fp" then functionParamTail
  else
    expect "fL"
    let _ ← natural
    expect "p"
    functionParamTail

end CxxSymbols.Itanium.Grammar
