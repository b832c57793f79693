import CxxSymbols.Itanium.Grammar.Production
/-!
Names: operators, constructors, closures, scopes and entities in the body of a function.
-/
namespace CxxSymbols.Itanium.Grammar
open Canonical (Qualifiers RefQualifier)
open Scanner

/- The name of an operator, and whether it is a conversion. The target of a conversion takes no
template arguments: they belong to the conversion. -/
def operatorName (below : Below) : Rule (Node × Bool) := do
  let c₀ ← current
  let c₁ ← ofOption (← peekAt 1)
  if c₀ = 'c' ∧ c₁ = 'v' then
    skip 2
    let target ← restoring (fun before after => { after with applying := before.applying }) do
      alter fun m => { m with applying := false }
      below .type
    return (.conversion target, true)
  if c₀ = 'l' ∧ c₁ = 'i' then
    skip 2
    return (.name ("operator\"\" " ++ (← identifier)), false)
  if c₀ = 'v' ∧ c₁.isDigit then
    skip 2
    return (.name ("operator " ++ (← identifier)), false)
  let (spelling, _) ← ofOption (operator? (c₀, c₁))
  skip 2
  let separator := if spelling.front.isAlpha then " " else ""
  return (.name ("operator" ++ separator ++ spelling), false)

/- The number that tells which of the functions made for a constructor or destructor is meant. The
number for all of them is no function, so it has no spelling. -/
def structorNumber (allowed : List Char) : Rule Unit := do
  let number ← next
  unless allowed.contains number do refuse
  if number = '5' ∧ (← memory).reading = .spelling then refuse

/- What the constructors and destructors of an unnamed class go by the name of: the identifier
that was read last. -/
def namesake? (cls : Node) : Rule (Option Node) := do
  if cls.ownName.isEmpty then return some (.name (← memory).lastIdentifier)
  return none

def structor (below : Below) (scope : Node) : Rule Node := do
  if ← accept "CI" then
    structorNumber ['1', '2', '3', '4', '5']
    return .structor scope false (some (← below .type))
  else if ← accept "C" then
    structorNumber ['1', '2', '3', '4', '5']
    return .structor scope false (← namesake? scope)
  else
    expect "D"
    structorNumber ['0', '1', '2', '4', '5']
    return .structor scope true (← namesake? scope)

def unnamedName (below : Below) : Rule Node := do
  if ← accept "Ut" then
    let index ← ordinal
    expect "_"
    return .unnamedType index
  expect "Ul"
  let params ←
    if ← accept "v" then pure []
    else manyUntil (return (← peek) = some 'E') (below .type)
  expect "E"
  let index ← ordinal
  expect "_"
  return .closure params index

def unqualifiedName (below : Below) (scope : Option Node) : Rule (Node × Bool) := do
  if (← peek) = some 'L' ∧ (← peekAt 1).any Char.isDigit then skip 1
  let c₀ ← current
  let c₁ ← peekAt 1
  let (name, lacksReturn) ←
    if c₀.isDigit then pure (.name (← identifier), false)
    else if c₀ = 'U' then pure (← unnamedName below, false)
    else if c₀ = 'D' ∧ c₁ = some 'C' then do
      skip 2
      let items ← manyTo "E" identifier
      pure (.binding (items.map .name), false)
    else if c₀ = 'C' ∨ c₀ = 'D' then do
      let cls ← ofOption scope
      pure (← structor below cls, true)
    else operatorName below
  return (← withAbiTags name, lacksReturn)

def unscopedName (below : Below) : Rule (Node × NameShape) := do
  let isStd ← accept "St"
  let (name, lacksReturn) ← unqualifiedName below none
  return (if isStd then .std name else name, { lacksReturn })

def within (scope : Option Node) (entity : Node) : Node :=
  match scope with
  | some scope => .nested scope entity
  | none => entity

/- The components of a nested name up to its `E`, with what has been read of it so far. Each
scope that is spelled out becomes a candidate. -/
def nestedComponents (below : Below) :
    Nat → Option Node → NameShape → Rule (Option Node × NameShape)
  | 0, _, _ => throw .exhausted
  | rounds + 1, scope, shape => do
    if ← accept "E" then return (scope, shape)
    let _ ← accept "L"
    if ← accept "M" then
      let _ ← ofOption scope
      nestedComponents below rounds scope shape
    else
      let c₀ ← current
      let c₁ ← peekAt 1
      if c₀ = 'I' then
        let base ← ofOption scope
        let args ← templateArgs below
        let node := .template base args
        remember node
        nestedComponents below rounds (some node) { shape with endsWithArgs := true }
      else if c₀ = 'S' ∧ c₁ ≠ some 't' then
        let node := within scope (← substitution)
        if scope.isSome then remember node
        nestedComponents below rounds (some node) shape
      else
        let (component, lacksReturn) ←
          if c₀ = 'T' then pure (← templateParam, false)
          else if c₀ = 'D' ∧ (c₁ = some 't' ∨ c₁ = some 'T') then
            pure (← decltypeName below, false)
          else if c₀ = 'C' ∨ (c₀ = 'D' ∧ c₁ ≠ some 'C') then do
            let cls ← ofOption scope
            pure (← withAbiTags (← structor below cls), true)
          else unqualifiedName below scope
        let node := within scope component
        remember node
        nestedComponents below rounds (some node)
          { shape with endsWithArgs := false, lacksReturn := shape.lacksReturn || lacksReturn }
where
  decltypeName (below : Below) : Rule Node := do
    expect "D"
    unless ← acceptAny ["t", "T"] do refuse
    let expression ← below .expression
    expect "E"
    return .decltype expression

/- `N quals ref components E`. The whole name is no candidate unless it is used as a type, so
the last one is taken back. -/
def nestedName (below : Below) : Rule (Node × NameShape) := do
  expect "N"
  let quals ← qualifiers
  let refQual ← refQualifier
  let scope := if ← accept "St" then some (Node.name "std") else none
  let (name, shape) ←
    nestedComponents below ((← rest).length + 1) scope { quals, refQual }
  let name ← ofOption name
  if (← memory).candidates.isEmpty then refuse
  alter fun m => { m with candidates := m.candidates.pop }
  return (name, shape)

def localName (below : Below) : Rule (Node × NameShape) := do
  expect "Z"
  let encoding ← below .encoding
  expect "E"
  if ← accept "s" then
    discriminator
    return (.inBody encoding (.name "string literal"), {})
  if ← accept "d" then
    let _ ← number?
    expect "_"
  let (entity, shape) ← below .name
  discriminator
  return (.inBody encoding entity, shape)

def plainName (below : Below) : Rule Node := do
  let (name, shape) ← below .name
  match (← memory).reading with
  | .key => return name
  | .spelling => return shape.apply name

def nameRule (below : Below) : Rule (Node × NameShape) := nested do
  let c₀ ← current
  let c₁ ← peekAt 1
  if c₀ = 'N' then nestedName below
  else if c₀ = 'Z' then localName below
  else if c₀ = 'S' ∧ c₁ ≠ some 't' then
    let base ← substitution
    let args ← templateArgs below
    return (.template base args, { endsWithArgs := true })
  else
    let (name, shape) ← unscopedName below
    if (← peek) = some 'I' then
      remember name
      let args ← templateArgs below
      return (.template name args, { shape with endsWithArgs := true })
    return (name, shape)

end CxxSymbols.Itanium.Grammar
