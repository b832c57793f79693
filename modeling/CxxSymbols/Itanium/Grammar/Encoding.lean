import CxxSymbols.Itanium.Grammar.TypeName
import CxxSymbols.Itanium.Grammar.Expression
/-!
Encodings, which are whole symbols without their `_Z`, and the grammar tied together.
-/
namespace CxxSymbols.Itanium

namespace Grammar
open Scanner

def callOffset : Rule Unit := do
  if ← accept "h" then
    let _ ← number
    expect "_"
  else
    expect "v"
    let _ ← number
    expect "_"
    let _ ← number
    expect "_"

def specialName (below : Below) : Rule Node := do
  let c₀ ← current
  let c₁ ← ofOption (← peekAt 1)
  skip 2
  match c₀, c₁ with
  | 'T', 'V' => return .special .virtualTable (← below .type)
  | 'T', 'T' => return .special .vtt (← below .type)
  | 'T', 'I' => return .special .typeInfo (← below .type)
  | 'T', 'S' => return .special .typeInfoName (← below .type)
  | 'T', 'h' =>
    let _ ← number
    expect "_"
    return .special .nonVirtualThunk (← below .encoding)
  | 'T', 'v' =>
    let _ ← number
    expect "_"
    let _ ← number
    expect "_"
    return .special .virtualThunk (← below .encoding)
  | 'T', 'c' =>
    callOffset
    callOffset
    return .special .covariantThunk (← below .encoding)
  | 'T', 'C' =>
    let first ← below .type
    let _ ← number
    expect "_"
    return .constructionVTable first (← below .type)
  | 'T', 'W' => return .special .tlsWrapper (← plainName below)
  | 'T', 'H' => return .special .tlsInit (← plainName below)
  | 'G', 'V' => return .special .guardVariable (← plainName below)
  | 'G', 'R' =>
    let name ← plainName below
    let _ ← sequenceId?
    expect "_"
    return .special .referenceTemporary name
  | 'G', 'T' =>
    if ← accept "n" then return .special .nonTransactionClone (← below .encoding)
    expect "t"
    return .special .transactionClone (← below .encoding)
  | _, _ => refuse

def parameters (below : Below) : Rule (List Node) := do
  let next ← peekAt 1
  if (← peek) = some 'v' ∧ (next = none ∨ next = some 'E' ∨ next = some '.') then
    skip 1
    return []
  manyUntil atEncodingEnd (below .type)

def completed (symbol : Node) : Rule Node := do
  let memory ← memory
  match memory.reading with
  | .key => return symbol
  | .spelling => ofOption (symbol.instance? memory.arguments)

def declaration (below : Below) : Rule Node := do
  let (name, shape) ← below .name
  alter fun m => { m with declaring := false }
  if ← atEncodingEnd then
    match (← memory).reading with
    | .key => return name
    | .spelling => return ← completed (shape.apply name)
  let _ ← manyAfter "Ua9enable_if" (templateArgs below)
  let ret ←
    if shape.endsWithArgs ∧ ¬shape.lacksReturn then pure (some (← below .type))
    else pure none
  let params ← parameters below
  completed (.function ret name params shape.quals shape.refQual)

/- The template arguments that an encoding declares are not seen outside it. -/
def encodingRule (below : Below) : Rule Node := nested do
  let c₀ ← peek
  if c₀ = some 'G' ∨ c₀ = some 'T' then specialName below
  else
    restoring (fun before after =>
        { after with arguments := before.arguments, declaring := before.declaring }) do
      alter fun m => { m with arguments := [], declaring := true }
      declaration below

def step (below : Below) : (p : Production) → Rule p.Result
  | .encoding => encodingRule below
  | .name => nameRule below
  | .type => typeRule below
  | .templateArg => templateArgRule below
  | .expression => expressionRule below
  | .braced => bracedRule below

def run : Nat → (p : Production) → Rule p.Result
  | 0, _ => throw .exhausted
  | levels + 1, p => step (run levels) p

/- No three rules in a row leave the input as it is, so this many levels are enough. -/
def levelsFor (input : List UInt8) : Nat := 3 * (input.length + 1)

end Grammar

/- How many underscores may stand in front of a mangled name. Three mark the code of a block,
which has a key but is not spelled as a function. -/
def Grammar.Reading.maxUnderscores : Grammar.Reading → Nat
  | key => 3
  | spelling => 2

def Node.ofMangledFor? (reading : Grammar.Reading) (mangled : List UInt8) : Option Node :=
  let underscores := (mangled.takeWhile (· = 95)).length
  if 1 ≤ underscores ∧ underscores ≤ reading.maxUnderscores ∧ mangled[underscores]? = some 90 then
    let input := mangled.drop (underscores + 1)
    match Grammar.run (Grammar.levelsFor input) .encoding ⟨input, { reading }⟩ with
    | .error _ _ => none
    | .ok node s =>
      match s.rest with
      | [] => if node.depthWithin Grammar.maxTreeDepth then some node else none
      | 46 :: _ =>
        let node := .clone node (Text.decodeLossy s.rest)
        if node.depthWithin Grammar.maxTreeDepth then some node else none
      | _ => none
  else none

def Node.ofMangled? (mangled : List UInt8) : Option Node := ofMangledFor? .key mangled

end CxxSymbols.Itanium
