import CxxSymbols.Itanium.Grammar.Name
/-!
Types. Builtin types are no candidates for later references, and neither is a reference that
stands alone; every other type is.
-/
namespace CxxSymbols.Itanium.Grammar
open Canonical (Qualifiers RefQualifier)
open Scanner

def builtinLetter? : Char → Option String
  | 'v' => some "void"
  | 'w' => some "wchar_t"
  | 'b' => some "bool"
  | 'c' => some "char"
  | 'a' => some "signed char"
  | 'h' => some "unsigned char"
  | 's' => some "short"
  | 't' => some "unsigned short"
  | 'i' => some "int"
  | 'j' => some "unsigned int"
  | 'l' => some "long"
  | 'm' => some "unsigned long"
  | 'x' => some "long long"
  | 'y' => some "unsigned long long"
  | 'n' => some "__int128"
  | 'o' => some "unsigned __int128"
  | 'f' => some "float"
  | 'd' => some "double"
  | 'e' => some "long double"
  | 'g' => some "__float128"
  | 'z' => some "..."
  | _ => none

def builtinAfterD? : Char → Option String
  | 'd' => some "decimal64"
  | 'e' => some "decimal128"
  | 'f' => some "decimal32"
  | 'h' => some "half"
  | 'i' => some "char32_t"
  | 's' => some "char16_t"
  | 'u' => some "char8_t"
  | 'a' => some "auto"
  | 'c' => some "decltype(auto)"
  | 'n' => some "std::nullptr_t"
  | _ => none

def sizedBuiltin? (bits : Nat) : Char → Option String
  | 'F' => some ("_Float" ++ toString bits)
  | 'B' => some ("_BitInt(" ++ toString bits ++ ")")
  | 'U' => some ("unsigned _BitInt(" ++ toString bits ++ ")")
  | _ => none

def builtin? : Rule (Option Node) := do
  let c₀ ← current
  match builtinLetter? c₀ with
  | some spelling =>
    skip 1
    return some (.name spelling)
  | none =>
    if c₀ = 'u' then
      skip 1
      return some (.name (← identifier))
    if c₀ = 'D' then
      let c₁ ← peekAt 1
      match c₁.bind builtinAfterD? with
      | some spelling =>
        skip 2
        return some (.name spelling)
      | none =>
        if c₁ = some 'F' ∨ c₁ = some 'B' ∨ c₁ = some 'U' then
          let input ← rest
          skip 2
          match (← natural?), c₁ with
          | some bits, some kind =>
            if ← accept "_" then return (sizedBuiltin? bits kind).map .name
            setRest input
            return none
          | _, _ =>
            setRest input
            return none
    return none

def exceptions (below : Below) : Rule (List Node) := do
  if ← accept "Do" then return [.expr .word "noexcept" []]
  if ← accept "DO" then
    let condition ← below .expression
    expect "E"
    return [.expr .keyword "noexcept" [condition]]
  if ← accept "Dw" then return [.expr .vendor "throw" (← manyTo "E" (below .type))]
  return []

def functionType (below : Below) : Rule Node := do
  let exceptions ← exceptions below
  let isTransactional ← accept "Dx"
  expect "F"
  let _ ← accept "Y"
  let ret ← below .type
  let (params, refQual) ← parameters ((← rest).length + 1)
  return .functionType ret params {} refQual
    (exceptions ++ if isTransactional then [.expr .word "transaction_safe" []] else [])
where
  parameters : Nat → Rule (List Node × RefQualifier)
    | 0 => throw .exhausted
    | rounds + 1 => do
      if ← accept "E" then return ([], .none)
      if ← accept "v" then parameters rounds
      else if ← accept "RE" then return ([], .lvalue)
      else if ← accept "OE" then return ([], .rvalue)
      else
        let param ← below .type
        let (params, refQual) ← parameters rounds
        return (param :: params, refQual)

def arrayType (below : Below) : Rule Node := do
  expect "A"
  let c₀ ← current
  let extent ←
    if c₀.isDigit then pure (.number (← number))
    else if c₀ = '_' then pure .unstated
    else pure (.computed (← below .expression))
  expect "_"
  return .array extent (← below .type)

def vectorType (below : Below) : Rule Node := do
  skip 2
  let extent ←
    if (← peek).any Char.isDigit then pure (.number (← number))
    else do
      expect "_"
      pure (.computed (← below .expression))
  expect "_"
  return .vector extent (← below .type)

def atFunctionType : Rule Bool := do
  match ← peek, ← peekAt 1 with
  | some 'F', _ => return true
  | some 'D', some c => return c ∈ ['o', 'O', 'w', 'x']
  | _, _ => return false

/- Qualifiers and what they qualify. The type of a qualified member function is one type: for a
spelling it is no candidate without them. -/
def qualifiedType (below : Below) : Rule Node := do
  let quals ← qualifiers
  if (← memory).reading = .spelling ∧ (← atFunctionType) then
    return .qualified (← functionType below) quals
  return .qualified (← below .type) quals

/- A template parameter, or what it stands for with arguments of its own. In the target of a
conversion the arguments are its own only if those of the conversion follow them. -/
def parameterType (below : Below) : Rule Node := do
  let param ← templateParam
  let memory ← memory
  if (← peek) ≠ some 'I' then return param
  if memory.applying then
    remember param
    return .template param (← templateArgs below)
  if memory.reading = .key then return param
  let before ← get
  remember param
  let applied := .template param (← templateArgs below)
  if (← peek) = some 'I' then return applied
  set before
  return param

def compoundType (below : Below) (c₀ : Char) (c₁ : Option Char) : Rule Node := do
  match c₀ with
  | 'r' | 'V' | 'K' => qualifiedType below
  | 'U' =>
    skip 1
    let vendor ← identifier
    let _ ← withTemplateArgs below (.name vendor)
    return .vendorQualified (← below .type) vendor
  | 'F' => functionType below
  | 'A' => arrayType below
  | 'M' =>
    skip 1
    let cls ← below .type
    return .memberPointer cls (← below .type)
  | 'T' =>
    if c₁ = some 's' ∨ c₁ = some 'u' ∨ c₁ = some 'e' then
      skip 2
      return (← plainName below)
    parameterType below
  | 'P' =>
    skip 1
    return .pointer (← below .type)
  | 'R' =>
    skip 1
    return .reference (← below .type) false
  | 'O' =>
    skip 1
    return .reference (← below .type) true
  | 'C' =>
    skip 1
    return .vendorQualified (← below .type) "_Complex"
  | 'G' =>
    skip 1
    return .vendorQualified (← below .type) "_Imaginary"
  | 'D' =>
    match c₁ with
    | some 'x' | some 'o' | some 'O' | some 'w' => functionType below
    | some 't' | some 'T' => nestedComponents.decltypeName below
    | some 'p' =>
      skip 2
      return .expansion (← below .type)
    | some 'v' => vectorType below
    | _ => refuse
  | c => if c = 'S' ∨ c = 'N' ∨ c = 'Z' ∨ c.isDigit then plainName below else refuse

/- Anything but a builtin type. A reference becomes a candidate again only with template
arguments behind it. -/
def otherType (below : Below) (c₀ : Char) (c₁ : Option Char) : Rule Node := do
  if c₀ = 'S' ∧ c₁ ≠ some 't' then
    let base ← substitution
    let memory ← memory
    if (memory.applying ∨ memory.reading = .spelling) ∧ (← peek) = some 'I' then
      let node := .template base (← templateArgs below)
      remember node
      return node
    return base
  else
    let node ← compoundType below c₀ c₁
    remember node
    return node

def typeRule (below : Below) : Rule Node :=
  nested <| restoring (fun before after => { after with declaring := before.declaring }) do
    alter fun m => { m with declaring := false }
    let c₀ ← current
    let c₁ ← peekAt 1
    match ← builtin? with
    | some node => return node
    | none => otherType below c₀ c₁

end CxxSymbols.Itanium.Grammar
