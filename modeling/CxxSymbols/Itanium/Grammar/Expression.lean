import CxxSymbols.Itanium.Grammar.Name
/-!
Expressions. They are read for their form, and for the candidates that they leave.
-/
namespace CxxSymbols.Itanium.Grammar
open Scanner

def literal (below : Below) : Rule Node := do
  expect "L"
  if ← acceptAny ["_Z", "Z"] then
    let entity ← below .encoding
    expect "E"
    return .literal entity ""
  let type ← below .type
  let value ← takeWhile (· ≠ 69)
  expect "E"
  return .literal type (Text.decodeLossy value)

def simpleId (below : Below) : Rule Node := do
  withTemplateArgs below (.name (← identifier))

def unresolvedType (below : Below) : Rule Node := do
  match ← current with
  | 'T' => remembered (← templateParam)
  | 'D' => remembered (← nestedComponents.decltypeName below)
  | 'S' => substitution
  | _ => refuse
where
  remembered (node : Node) : Rule Node := do
    remember node
    return node

def destructorOf (cls : Node) : Node := .structor cls true none

def baseUnresolvedName (below : Below) : Rule Node := do
  if (← current).isDigit then simpleId below
  else if ← accept "dn" then
    if (← current).isDigit then return destructorOf (← simpleId below)
    else return destructorOf (← unresolvedType below)
  else
    let _ ← accept "on"
    withTemplateArgs below (← operatorName below).1

def unresolvedScope (below : Below) : Rule (Option Node) := do
  if ← accept "srN" then
    let type ← unresolvedType below
    let type ← withTemplateArgs below type
    return some ((← manyTo "E" (simpleId below)).foldl .nested type)
  else if ← accept "sr" then
    if (← current).isDigit then
      match ← manyTo "E" (simpleId below) with
      | [] => return none
      | first :: rest => return some (rest.foldl .nested first)
    else
      let type ← unresolvedType below
      return some (← withTemplateArgs below type)
  else return none

def unresolvedName (below : Below) : Rule Node := do
  let scope ← unresolvedScope below
  let form := if scope.isNone ∧ (← peek) = some 'o' then .operatorName else .name
  return .expr form "" [within scope (← baseUnresolvedName below)]

def bracedRule (below : Below) : Rule Node := do
  if ← accept "di" then
    let (field, _) ← unqualifiedName below none
    return .expr .designated "" [field, ← below .braced]
  else if ← accept "dx" then
    let index ← below .expression
    return .expr .designatedIndex "" [index, ← below .braced]
  else if ← accept "dX" then
    let first ← below .expression
    let last ← below .expression
    return .expr .designatedRange "" [first, last, ← below .braced]
  else below .expression

def operands (below : Below) : Nat → Rule (List Node)
  | 0 => return []
  | n + 1 => do
    let first ← below .expression
    return first :: (← operands below n)

/- `fl` and `fr` fold one operand, `fL` and `fR` two. The side tells where the pack is. -/
def fold (below : Below) (isBinary : Bool) : Rule Node := do
  skip 1
  let side ← next
  let c₀ ← current
  let c₁ ← ofOption (← peekAt 1)
  let (spelling, _) ← ofOption (operator? (c₀, c₁))
  skip 2
  return .expr .fold (String.ofList [side] ++ spelling)
    (← operands below (if isBinary then 2 else 1))

def newInitializer (below : Below) : Rule (List Node) := do
  if ← accept "pi" then
    return [.expr .castList "" (← manyTo "E" (below .expression))]
  else if ← accept "il" then
    return [.expr .braces "" (← manyTo "E" (below .braced))]
  else
    expect "E"
    return []

def keyword : Char → Char → String
  | 't', 'i' | 't', 'e' => "typeid "
  | 's', 't' | 's', 'z' => "sizeof "
  | 'a', 't' | 'a', 'z' => "alignof "
  | 'n', 'x' => "noexcept"
  | 't', 'w' => "throw "
  | 'd', 'c' => "dynamic_cast"
  | 's', 'c' => "static_cast"
  | 'c', 'c' => "const_cast"
  | _, _ => "reinterpret_cast"

def coded (below : Below) (c₀ c₁ : Char) : Rule Node := do
  skip 2
  match c₀, c₁ with
  | 'd', 't' | 'p', 't' =>
    let object ← below .expression
    return .expr .member (if c₀ = 'd' then "." else "->") [object, ← unresolvedName below]
  | 'd', 's' => return .expr .memberPointer ".*" (← operands below 2)
  | 'c', 'l' =>
    let function ← below .expression
    return .expr .call "" (function :: (← manyTo "E" (below .expression)))
  | 'c', 'v' =>
    let type ← below .type
    if ← accept "_" then
      return .expr .cast "" [type, .expr .castList "" (← manyTo "E" (below .expression))]
    return .expr .cast "" [type, ← below .expression]
  | 't', 'l' =>
    let type ← below .type
    return .expr .typedBraces "" (type :: (← manyTo "E" (below .braced)))
  | 'i', 'l' => return .expr .braces "" (← manyTo "E" (below .braced))
  | 'n', 'w' | 'n', 'a' =>
    let placement ← manyTo "_" (below .expression)
    let type ← below .type
    let initial ← newInitializer below
    return .expr .allocation "" (.expr .castList "" placement :: type :: initial)
  | 'd', 'c' | 's', 'c' | 'c', 'c' | 'r', 'c' =>
    let type ← below .type
    return .expr .namedCast (keyword c₀ c₁) [type, ← below .expression]
  | 't', 'i' | 's', 't' | 'a', 't' =>
    return .expr .keywordType (keyword c₀ c₁) [← below .type]
  | 't', 'e' | 's', 'z' | 'a', 'z' | 'n', 'x' | 't', 'w' =>
    return .expr .keyword (keyword c₀ c₁) [← below .expression]
  | 's', 'p' => return .expr .spread "" [← below .expression]
  | 't', 'r' => return .expr .rethrow "" []
  | 's', 'Z' =>
    let pack ← if (← current) = 'T' then templateParam else functionParam
    return .expr .count "" [pack]
  | 's', 'P' => return .expr .count "" (← manyTo "E" (below .templateArg))
  | _, _ =>
    let (spelling, arity) ← ofOption (operator? (c₀, c₁))
    if (c₀, c₁) ∈ [('p', 'p'), ('m', 'm')] then
      if ← accept "_" then return .expr .stepped spelling [← below .expression]
    let xs ← operands below arity
    match arity with
    | 1 => return .expr .unary spelling xs
    | 2 => return .expr .binary spelling xs
    | 3 => return .expr .ternary spelling xs
    | _ => refuse

def vendorExpression (below : Below) : Rule Node := do
  skip 1
  let name ← identifier
  return .expr .vendor name (← manyTo "E" (below .templateArg))

def localExpression (below : Below) : Rule Node := do
  let c₀ ← current
  let c₁ ← peekAt 1
  let c₂ ← peekAt 2
  if c₀ = 'L' then literal below
  else if c₀ = 'T' then templateParam
  else if c₀ = 'f' ∧ (c₁ = some 'p' ∨ c₁ = some 'L' ∧ c₂.any Char.isDigit) then functionParam
  else if c₀ = 'f' ∧ (c₁ = some 'l' ∨ c₁ = some 'r') then fold below false
  else if c₀ = 'f' ∧ (c₁ = some 'L' ∨ c₁ = some 'R') then fold below true
  else if c₀.isDigit ∨ (c₀, c₁) ∈ [('s', some 'r'), ('o', some 'n'), ('d', some 'n')] then
    unresolvedName below
  else if c₀ = 'u' then vendorExpression below
  else coded below c₀ (← ofOption c₁)

def expressionRule (below : Below) : Rule Node := nested do
  if ← accept "gs" then
    let expression ← localExpression below
    match (← memory).reading with
    | .key => return expression
    | .spelling => return .expr .outermost "" [expression]
  localExpression below

def templateArgRule (below : Below) : Rule Node := do
  match ← current with
  | 'X' =>
    skip 1
    let expression ← below .expression
    expect "E"
    return expression
  | 'J' =>
    skip 1
    return .pack (← manyTo "E" (below .templateArg))
  | 'L' => literal below
  | 'I' =>
    if (← memory).reading = .key then refuse
    skip 1
    return .pack (← manyTo "E" (below .templateArg))
  | _ => below .type

end CxxSymbols.Itanium.Grammar
