import CxxSymbols.Microsoft.Symbol
import CxxSymbols.Text.Scanner
/-!
The grammar of the Microsoft mangling. Names and types that have been read are remembered, ten of
each, and a digit stands for one of them; inside a template argument list the counting starts
anew. What follows a complete symbol is not looked at.
-/
namespace CxxSymbols.Microsoft

namespace Grammar
open Scanner

structure Memory where
  names : List Name := []
  types : List Ty := []

abbrev Rule := Scanner Memory

inductive Production where
  | symbol
  | template
  | type (storage : Storage)

abbrev Production.Result : Production → Type
  | symbol => Symbol
  | template => Name
  | type _ => Ty

abbrev Below := (p : Production) → Rule p.Result

def remembered : Nat := 10

def rememberName (name : Name) : Rule Unit :=
  alter fun m =>
    if m.names.length < remembered ∧ ¬m.names.any (Name.same name)
    then { m with names := m.names ++ [name] } else m

def rememberType (type : Ty) : Rule Unit :=
  alter fun m =>
    if m.types.length < remembered ∧ ¬m.types.any (Ty.same type)
    then { m with types := m.types ++ [type] } else m

def digit? : Rule (Option Nat) := do
  match ← peek with
  | some c =>
    if c.isDigit then
      skip 1
      return some (c.toNat - 48)
    return none
  | none => return none

def nameNumbered (n : Nat) : Rule Name := do ofOption (← memory).names[n]?

def typeNumbered (n : Nat) : Rule Ty := do ofOption (← memory).types[n]?

def wrapped (value : Int) : Int := Int.bmod value UInt32.size

/- A digit counts from one. Larger numbers are hexadecimal with the letters `A` to `P`, cut to 32
bits, and end with `@`. -/
def number : Rule Int := do
  let isNegative ← accept "?"
  let magnitude : Int ←
    match ← digit? with
    | some n => pure ((n : Int) + 1)
    | none => do
      let letters ← takeWhile fun b => 65 ≤ b && b ≤ 80
      expect "@"
      let value : Nat := letters.foldl (fun n b => n * 16 + (b.toNat - 65)) 0
      pure value
  return wrapped (if isNegative then -magnitude else magnitude)

def spelling : Rule Bytes := do
  let bytes ← takeWhile (· ≠ 64)
  expect "@"
  return bytes

def cv (isConst isVolatile : Bool) : Storage := { isConst, isVolatile }

def qualifier? : Char → Option Storage
  | 'A' => some (cv false false)
  | 'B' => some (cv true false)
  | 'C' => some (cv false true)
  | 'D' => some (cv true true)
  | _ => none

def nearStorage? : Char → Option Storage
  | 'Q' => qualifier? 'A'
  | 'R' => qualifier? 'B'
  | 'S' => qualifier? 'C'
  | 'T' => qualifier? 'D'
  | c => qualifier? c

def storage? : Char → Option Storage
  | 'E' => some { cv false false with isFar := true }
  | 'F' => some { cv true false with isFar := true }
  | 'G' => some { cv false true with isFar := true }
  | 'H' => some { cv true true with isFar := true }
  | c => nearStorage? c

def storageBy (meaning : Char → Option Storage) : Rule Storage := do
  match (← peek).bind meaning with
  | some s =>
    skip 1
    return s
  | none => return {}

def qualifier : Rule Storage := storageBy nearStorage?

def storage : Rule Storage := storageBy storage?

def returnStorage : Rule Storage := do
  if ← accept "?" then ofOption (qualifier? (← next)) else return {}

def convention? : Char → Option Convention
  | 'A' | 'B' => some .cdecl
  | 'C' => some .pascal
  | 'E' => some .thiscall
  | 'G' => some .stdcall
  | 'I' => some .fastcall
  | _ => none

def convention : Rule Convention := do ofOption (convention? (← next))

def objectStorage : Rule Storage := do
  let isPtr64 ← accept "E"
  let isRestrict ← accept "I"
  let isUnaligned ← accept "F"
  let isLvalue ← accept "G"
  let isRvalue ← if isLvalue then pure false else accept "H"
  let s ← qualifier
  return { s with isPtr64, isRestrict, isUnaligned, isLvalue, isRvalue }

def membership? : Char → Option (Membership × Bool)
  | 'A' => some (⟨.private, false, false, false, false⟩, false)
  | 'B' => some (⟨.private, false, false, false, true⟩, false)
  | 'C' => some (⟨.private, true, false, false, false⟩, false)
  | 'D' => some (⟨.private, true, false, false, true⟩, false)
  | 'E' => some (⟨.private, false, true, false, false⟩, false)
  | 'F' => some (⟨.private, false, true, false, true⟩, false)
  | 'G' => some (⟨.private, false, true, true, false⟩, true)
  | 'H' => some (⟨.private, false, true, true, true⟩, true)
  | 'I' => some (⟨.protected, false, false, false, false⟩, false)
  | 'J' => some (⟨.protected, false, false, false, true⟩, false)
  | 'K' => some (⟨.protected, true, false, false, false⟩, false)
  | 'L' => some (⟨.protected, true, false, false, true⟩, false)
  | 'M' => some (⟨.protected, false, true, false, false⟩, false)
  | 'N' => some (⟨.protected, false, true, false, true⟩, false)
  | 'O' => some (⟨.protected, false, true, true, false⟩, true)
  | 'P' => some (⟨.protected, false, true, true, true⟩, true)
  | 'Q' => some (⟨.public, false, false, false, false⟩, false)
  | 'R' => some (⟨.public, false, false, false, true⟩, false)
  | 'S' => some (⟨.public, true, false, false, false⟩, false)
  | 'T' => some (⟨.public, true, false, false, true⟩, false)
  | 'U' => some (⟨.public, false, true, false, false⟩, false)
  | 'V' => some (⟨.public, false, true, false, true⟩, false)
  | 'W' => some (⟨.public, false, true, true, false⟩, true)
  | 'X' => some (⟨.public, false, true, true, true⟩, true)
  | 'Y' => some (⟨.none, false, false, false, false⟩, false)
  | 'Z' => some (⟨.none, false, false, false, true⟩, false)
  | _ => none

def membership : Rule Membership := do
  let (m, isAdjusted) ← ofOption (membership? (← next))
  if isAdjusted then
    let _ ← number
  return m

def intrinsic? : Char → Option Intrinsic
  | '0' => some .ctor
  | '1' => some .dtor
  | '2' => some .new
  | '3' => some .delete
  | '4' => some .equal
  | '5' => some .rshift
  | '6' => some .lshift
  | '7' => some .bang
  | '8' => some .equalEqual
  | '9' => some .bangEqual
  | 'A' => some .subscript
  | 'B' => some .conversion
  | 'C' => some .arrow
  | 'D' => some .star
  | 'E' => some .plusPlus
  | 'F' => some .minusMinus
  | 'G' => some .minus
  | 'H' => some .plus
  | 'I' => some .amp
  | 'J' => some .arrowStar
  | 'K' => some .slash
  | 'L' => some .percent
  | 'M' => some .less
  | 'N' => some .lessEqual
  | 'O' => some .greater
  | 'P' => some .greaterEqual
  | 'Q' => some .comma
  | 'R' => some .call
  | 'S' => some .tilde
  | 'T' => some .caret
  | 'U' => some .pipe
  | 'V' => some .ampAmp
  | 'W' => some .pipePipe
  | 'X' => some .starEqual
  | 'Y' => some .plusEqual
  | 'Z' => some .minusEqual
  | _ => none

def underscored? : Char → Option Intrinsic
  | '0' => some .slashEqual
  | '1' => some .percentEqual
  | '2' => some .rshiftEqual
  | '3' => some .lshiftEqual
  | '4' => some .ampEqual
  | '5' => some .pipeEqual
  | '6' => some .caretEqual
  | '7' => some .vftable
  | '8' => some .vbtable
  | '9' => some .vcall
  | 'A' => some .typeof
  | 'C' => some .string
  | 'D' => some .vbaseDtor
  | 'E' => some .vectorDeletingDtor
  | 'F' => some .defaultCtorClosure
  | 'G' => some .scalarDeletingDtor
  | 'H' => some .vectorCtorIterator
  | 'I' => some .vectorDtorIterator
  | 'J' => some .vectorVBaseCtorIterator
  | 'K' => some .virtualDisplacementMap
  | 'L' => some .ehVectorCtorIterator
  | 'M' => some .ehVectorDtorIterator
  | 'N' => some .ehVectorVBaseCtorIterator
  | 'O' => some .copyCtorClosure
  | 'S' => some .localVFTable
  | 'T' => some .localVFTableCtorClosure
  | 'U' => some .arrayNew
  | 'V' => some .arrayDelete
  | 'X' => some .placementDeleteClosure
  | 'Y' => some .placementArrayDeleteClosure
  | _ => none

def descriptor (below : Below) : Rule Name := do
  match ← next with
  | '0' =>
    expect "?"
    let s ← storage
    return .typeDescriptor s (← below (.type s))
  | '1' =>
    let a ← number
    let b ← number
    let c ← number
    let d ← number
    return .baseClassDescriptor [a, b, c, d]
  | '2' => return .intrinsic .baseClassArray
  | '3' => return .intrinsic .classHierarchyDescriptor
  | '4' => return .intrinsic .completeObjectLocator
  | _ => refuse

def twiceUnderscored : Rule Name := do
  match ← next with
  | 'L' => return .intrinsic .coroutineAwait
  | 'E' => return .intrinsic .dynamicInitializer
  | 'F' => return .intrinsic .dynamicAtexitDtor
  | 'J' => return .localStaticThreadGuard none
  | 'K' => return .intrinsic .literalOperator
  | _ => refuse

def specialName (below : Below) : Rule Name := do
  let c ← next
  if c = '_' then
    match ← next with
    | 'B' => return .localStaticGuard none
    | 'R' => descriptor below
    | '_' => twiceUnderscored
    | c => return .intrinsic (← ofOption (underscored? c))
  else return .intrinsic (← ofOption (intrinsic? c))

/- A name without its scopes. A template that is the name of a function is not remembered. -/
def unqualified (below : Below) (isFunction : Bool) : Rule Name := do
  match ← digit? with
  | some n => nameNumbered n
  | none =>
    if ← accept "?$" then
      let name ← below .template
      unless isFunction do rememberName name
      return name
    if ← accept "?" then specialName below
    else
      let name := .plain (← spelling)
      rememberName name
      return name

def isHexDigit (b : UInt8) : Bool :=
  isDigit b || (97 ≤ b && b ≤ 102) || (65 ≤ b && b ≤ 70)

def scopeName (below : Below) : Rule Name := do
  match ← digit? with
  | some n => nameNumbered n
  | none =>
    if ← accept "?" then
      if (← peek) = some '?' then return .symbol (← below .symbol)
      if ← accept "$" then
        let name ← below .template
        rememberName name
        return name
      if ← accept "A" then
        if ← accept "0x" then
          let name := .anonymousNamespace (some (← takeWhile isHexDigit))
          expect "@"
          rememberName name
          return name
        expect "@"
        return .anonymousNamespace none
      if ← accept "Q" then
        let name := .interface (← spelling)
        expect "@"
        rememberName name
        return name
      return .discriminator (← number)
    else
      let name := .plain (← spelling)
      rememberName name
      return name

def scope (below : Below) : Rule (List Name) := manyTo "@" (scopeName below)

def scopedName (below : Below) (isFunction : Bool) : Rule ScopedName := do
  let name ← unqualified below isFunction
  return ⟨name, ← scope below⟩

/- Types up to the end of their list. A type that takes more than one byte is remembered. -/
def paramsIn (below : Below) : Nat → Rule (List Ty)
  | 0 => throw .exhausted
  | rounds + 1 => do
    match ← peek with
    | none => return []
    | some '@' =>
      skip 1
      return []
    | some 'Z' =>
      skip 1
      return [.varArgs]
    | some _ =>
      let type ←
        match ← digit? with
        | some n => typeNumbered n
        | none => do
          let before := (← rest).length
          let type ← below (.type {})
          if before - (← rest).length > 1 then rememberType type
          pure type
      return type :: (← paramsIn below rounds)

def params (below : Below) : Rule (List Ty) := do
  paramsIn below ((← rest).length + 1)

def functionParams (below : Below) : Rule (List Ty) := do
  let types ← if ← accept "X" then pure [.primitive .void {}] else params below
  expect "Z"
  return types

def memberReturn (below : Below) : Rule Ty := do
  let s ← returnStorage
  if ← accept "@" then return .absent
  below (.type s)

def functionType (below : Below) (hasObject : Bool) : Rule Ty := do
  let s ← if hasObject then objectStorage else pure {}
  let conv ← convention
  let retStorage ← if ← accept "?" then storage else pure {}
  let ret ← below (.type retStorage)
  return .function conv (← functionParams below) s ret

def pointee (below : Below) : Rule Ty := do
  let isPtr64 ← accept "E"
  let s ← storage
  below (.type { s with isPtr64 })

/- The qualifier of the elements of an array, of which `C` means the same as `D`. -/
def elementStorage : Rule Storage := do
  if ← accept "$$C" then
    let c ← next
    if c = 'C' then return cv true true
    ofOption (qualifier? c)
  else return {}

def arrayType (below : Below) : Rule Ty := do
  let dims ← number
  unless 0 < dims do refuse
  let lengths ← lengthsOf dims.toNat
  let s ← elementStorage
  let element ← below (.type s)
  return lengths.foldr (fun n t => .array n t s) element
where
  lengthsOf : Nat → Rule (List Int)
    | 0 => return []
    | n + 1 => do
      let first ← number
      return first :: (← lengthsOf n)

def memberPointer (below : Below) (isTemplateArg : Bool) : Rule Ty := do
  let cls ← scopedName below true
  let isPtr64 ← accept "E"
  let s ←
    if isTemplateArg then do
      let _ ← membership
      pure {}
    else qualifier
  let conv ← convention
  let ret ← memberReturn below
  return .memberFunctionPointer cls conv (← functionParams below) { s with isPtr64 } ret

def primitive? : Char → Option Primitive
  | 'X' => some .void
  | 'D' => some .char
  | 'C' => some .schar
  | 'E' => some .uchar
  | 'F' => some .short
  | 'G' => some .ushort
  | 'H' => some .int
  | 'I' => some .uint
  | 'J' => some .long
  | 'K' => some .ulong
  | 'M' => some .float
  | 'N' => some .double
  | 'O' => some .ldouble
  | _ => none

def extended? : Char → Option Primitive
  | 'N' => some .bool
  | 'J' => some .int64
  | 'K' => some .uint64
  | 'L' => some .int128
  | 'M' => some .uint128
  | 'W' => some .wchar
  | 'Q' => some .char8
  | 'S' => some .char16
  | 'U' => some .char32
  | _ => none

def letterType (below : Below) (s : Storage) : Rule Ty := do
  match ← next with
  | 'T' => return .tagged .union (← scopedName below false) s
  | 'U' => return .tagged .struct (← scopedName below false) s
  | 'V' => return .tagged .class (← scopedName below false) s
  | 'A' => return .indirect .reference (← pointee below) s
  | 'B' => return .indirect .reference (← pointee below) (cv false true)
  | 'P' => return .indirect .pointer (← pointee below) s
  | 'Q' => return .indirect .pointer (← pointee below) (cv true false)
  | 'R' => return .indirect .pointer (← pointee below) (cv false true)
  | 'S' => return .indirect .pointer (← pointee below) (cv true true)
  | 'Y' => arrayType below
  | '_' => return .primitive (← ofOption (extended? (← next))) s
  | c => return .primitive (← ofOption (primitive? c)) s

def plainType (below : Below) (s : Storage) : Rule Ty := do
  if ← accept "?" then return .templateParam (wrapped (-(← number)))
  match ← digit? with
  | some n => typeNumbered n
  | none => letterType below s

def afterDollar (below : Below) (s : Storage) : Rule Ty := do
  if ← acceptAny ["1", "H", "I", "J"] then
    expect "?"
    memberPointer below true
  else plainType below s

def typeRule (below : Below) (s : Storage) : Rule Ty := do
  if ← accept "W4" then return .tagged .enum (← scopedName below false) s
  if ← accept "A6" then return .indirect .reference (← functionType below false) s
  if ← accept "P6" then return .indirect .pointer (← functionType below false) s
  if ← accept "P8" then memberPointer below false
  else if ← accept "$" then
    if ← accept "0" then return .constant (← number)
    if ← accept "D" then return .templateParam (← number)
    if ← accept "$BY" then arrayType below
    else if ← accept "$Q" then return .indirect .rvalueReference (← pointee below) s
    else if ← acceptAny ["S", "$V", "$Z", "$$V"] then
      return .emptyPack
    else if ← accept "$T" then return .nullptr
    else if ← accept "$A6" then functionType below false
    else if ← accept "$A8@@" then functionType below true
    else if ← accept "$Y" then return .tagged .typeAlias (← scopedName below true) s
    else if ← accept "$C" then plainType below (← qualifier)
    else afterDollar below s
  else plainType below s

def templateRule (below : Below) : Rule Name :=
  restoring (fun before _ => before) do
    alter fun _ => {}
    let base ← unqualified below false
    return .template base (← params below)

def constantString : Rule Ty := do
  let width ←
    match ← next with
    | '0' => pure 1
    | '1' => pure 2
    | _ => refuse
  let length ← number
  let _ ← number
  return .constantString (← characters (min length (32 * width)).toNat)
where
  character : Rule UInt8 := do
    if ← accept "?" then
      if ← accept "$" then
        let high ← next
        let low ← next
        return UInt8.ofNat ((← hexValue high) * 16 + (← hexValue low))
      let c ← next
      match c with
      | '0' => return 44
      | '1' => return 47
      | '2' => return 92
      | '3' => return 58
      | '4' => return 46
      | '5' => return 32
      | '6' => return 10
      | '7' => return 9
      | '8' => return 39
      | '9' => return 45
      | c => if c.isAlpha then return UInt8.ofNat (c.toNat + 128) else refuse
    else
      let c ← next
      if c.isAlphanum || c = '_' || c = '$' then return UInt8.ofNat c.toNat else refuse
  hexValue (c : Char) : Rule Nat :=
    if 'A' ≤ c ∧ c ≤ 'P' then return c.toNat - 65 else refuse
  characters : Nat → Rule Bytes
    | 0 => return []
    | n + 1 => do
      let first ← character
      return first :: (← characters n)

def variableKind? : Char → Option VariableKind
  | '0' => some .privateStatic
  | '1' => some .protectedStatic
  | '2' => some .publicStatic
  | '3' => some .global
  | '4' => some .functionStatic
  | _ => none

def symbolType (below : Below) : Rule Ty := do
  match ← peek with
  | none => return .absent
  | some c =>
    match variableKind? c with
    | some kind =>
      skip 1
      let type ← below (.type {})
      return .variableOf kind type (← storage)
    | none =>
      if ← accept "6" then
        let s ← qualifier
        return .vftable (← scope below) s
      if ← accept "7" then
        let s ← qualifier
        return .vbtable (← scope below) s
      if ← accept "8" then return .rttiType
      if ← accept "9" then return .absent
      if ← accept "_" then constantString
      else if ← accept "$B" then
        let offset ← number
        expect "A"
        return .vcallThunk offset (← convention)
      else if ← accept "Y" then
        let conv ← convention
        let ret ← below (.type (← returnStorage))
        return .function conv (← functionParams below) {} ret
      else
        let m ← membership
        let s ← if m.isStatic then pure {} else objectStorage
        let conv ← convention
        let ret ← memberReturn below
        return .memberFunction m conv (← functionParams below) s ret

def guardNumber : Rule (Option Int) := do
  unless ← acceptAny ["4IA", "5"] do refuse
  if (← rest).isEmpty then return none
  let n ← number
  if n < 0 then refuse
  return some n

def threadSafeStatic (below : Below) : Rule Symbol := do
  let digits ← takeWhile isDigit
  if digits.isEmpty then refuse
  expect "@"
  let name ← scopeName below
  let names ← scope below
  expect "4HA"
  return ⟨⟨name, names⟩, .threadSafeStaticGuard (wrapped (decimal digits))⟩

def hashedName : Rule Symbol := do
  let digits := (← rest).take 32
  unless digits.length = 32 ∧ digits.all isHexDigit do refuse
  skip 32
  expect "@"
  return ⟨⟨.hashed digits, []⟩, .absent⟩

def symbolRule (below : Below) : Rule Symbol := do
  expect "?"
  if ← accept "?@" then hashedName
  else if ← accept "$TSS" then threadSafeStatic below
  else if ← accept "$" then return ⟨⟨← below .template, []⟩, .absent⟩
  else
    let path ← scopedName below true
    let name ←
      match path.name with
      | .localStaticGuard _ => pure (.localStaticGuard (← guardNumber))
      | .localStaticThreadGuard _ => pure (.localStaticThreadGuard (← guardNumber))
      | name => pure name
    return ⟨{ path with name }, ← symbolType below⟩

def step (below : Below) : (p : Production) → Rule p.Result
  | .symbol => symbolRule below
  | .template => templateRule below
  | .type s => typeRule below s

def run : Nat → (p : Production) → Rule p.Result
  | 0, _ => throw .exhausted
  | levels + 1, p => step (run levels) p

/- Every level below the first has at least one byte less to read. -/
def levelsFor (input : Bytes) : Nat := input.length + 1

end Grammar

def Symbol.ofMangled? (mangled : Bytes) : Option Symbol :=
  match Grammar.run (Grammar.levelsFor mangled) .symbol ⟨mangled, {}⟩ with
  | .ok symbol _ => some symbol
  | .error _ _ => none

end CxxSymbols.Microsoft
