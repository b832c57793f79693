import CxxSymbols.Itanium.Node
/-!
The usual spelling of Itanium trees, as declarations in the language. A type is spelled around
what it declares: pointers, functions and arrays are modifiers, and those nearest to the base come
first. Packs are spelled element by element where they are expanded.
-/
namespace CxxSymbols.Itanium
open Canonical (Qualifiers RefQualifier)

/-! ### Modifiers -/

inductive Modifier where
  | pointer
  | reference (isRvalue : Bool)
  | word (spelling : String)
  | memberOf (cls : String)
  | function (name params trailer : String)
  | array (dimension : String)
  deriving DecidableEq, Repr, Inhabited

namespace Modifier

/- Whether a function or an array has to be set in parentheses to be modified, and whether a blank
is to stand in front of them. -/
def parentheses : List Modifier → Option Bool
  | pointer :: _ | reference _ :: _ => some false
  | word _ :: _ | memberOf _ :: _ => some true
  | _ => none

/- The spelling of modifiers behind a character. Functions stand apart from their result unless
they are in parentheses with a modifier of it. -/
def text (isEnclosed : Bool) (last : Char) : List Modifier → String
  | [] => ""
  | pointer :: rest => "*" ++ text isEnclosed '*' rest
  | reference isRvalue :: rest => (if isRvalue then "&&" else "&") ++ text isEnclosed '&' rest
  | word spelling :: rest => " " ++ spelling ++ text isEnclosed 'a' rest
  | memberOf cls :: rest =>
    (if last = '(' then "" else " ") ++ cls ++ "::*" ++ text isEnclosed '*' rest
  | function name params trailer :: rest =>
    let apart := if isEnclosed then "" else " "
    let last := if isEnclosed then last else ' '
    let declared :=
      match parentheses rest with
      | some needsBlank =>
        let blank := needsBlank || (last ≠ '(' && last ≠ '*')
        (if blank && last ≠ ' ' then " " else "") ++ "(" ++ text true '(' rest ++ ")"
      | none => text true last rest
    apart ++ declared ++ name ++ "(" ++ params ++ ")" ++ trailer
  | array dimension :: rest =>
    let declared :=
      match rest with
      | [] => " "
      | array _ :: _ => text true last rest
      | _ => " (" ++ text true '(' rest ++ ") "
    declared ++ "[" ++ dimension ++ "]"

def addWord (spelling : String) (modifiers : List Modifier) : List Modifier :=
  if (modifiers.takeWhile (· matches word _)).contains (word spelling) then modifiers
  else word spelling :: modifiers

/- References to references are references; one to an lvalue prevails. -/
def addReference (isRvalue : Bool) : List Modifier → List Modifier
  | reference isRvalue' :: rest => reference (isRvalue && isRvalue') :: rest
  | rest => reference isRvalue :: rest

end Modifier

def withQualifiers (q : Qualifiers) (modifiers : List Modifier) : List Modifier :=
  let add (isSet : Bool) (word : String) (rest : List Modifier) :=
    if isSet then Modifier.addWord word rest else rest
  add q.isConst "const" (add q.isVolatile "volatile" (add q.isRestrict "restrict" modifiers))

def Modifier.isQualifier (modifier : Modifier) : Bool :=
  modifier ∈ [.word "const", .word "volatile", .word "restrict"]

def trailer (q : Qualifiers) (refQual : RefQualifier) : String :=
  (if q.isConst then " const" else "") ++ (if q.isVolatile then " volatile" else "") ++
    (if q.isRestrict then " restrict" else "") ++
    (match refQual with
      | .none => ""
      | .lvalue => " &"
      | .rvalue => " &&")

/-! ### Parts -/

def commaSeparated : List String → String
  | [] => ""
  | part :: parts =>
    let rest := commaSeparated parts
    if rest.isEmpty then part else part ++ ", " ++ rest

def angled (base inner : String) : String :=
  base ++ (if base.endsWith "<" then " <" else "<") ++ inner ++
    (if inner.endsWith ">" then " >" else ">")

def parenthesized (text : String) : String := "(" ++ text ++ ")"

def literalSuffix? : String → Option String
  | "int" => some ""
  | "unsigned int" => some "u"
  | "long" => some "l"
  | "unsigned long" => some "ul"
  | "long long" => some "ll"
  | "unsigned long long" => some "ull"
  | _ => none

def isFloating (type : String) : Bool :=
  type ∈ ["float", "double", "long double", "__float128"]

def literalText (type value : String) : String :=
  let (minus, digits) := match value.toList with
    | 'n' :: digits => ("-", String.ofList digits)
    | digits => ("", String.ofList digits)
  match literalSuffix? type with
  | some suffix => minus ++ digits ++ suffix
  | none =>
    if type = "bool" ∧ value = "0" then "false"
    else if type = "bool" ∧ value = "1" then "true"
    else if isFloating type then parenthesized type ++ minus ++ "[" ++ digits ++ "]"
    else parenthesized type ++ minus ++ digits

def cloneParts (suffix : String) : List String := (suffix.splitOn ".").drop 1

/- Whether all parts are words or numbers. Only the first may begin like a number and be none. -/
def isCloneSuffix (suffix : String) : Bool :=
  let parts := cloneParts suffix
  parts.all (fun part => !part.isEmpty && part.all fun c => c.isLower || c.isDigit || c = '_') &&
    (parts.drop 1).all fun part => !part.front.isDigit || part.all Char.isDigit

def cloneText (suffix : String) : String :=
  String.join ((words (cloneParts suffix)).map fun part => " [clone ." ++ part ++ "]")
where
  words : List String → List String
    | [] => []
    | first :: rest =>
      match words rest with
      | next :: others =>
        if next.front.isDigit then (first ++ "." ++ next) :: others else first :: next :: others
      | [] => [first]

def SpecialKind.spelling (kind : SpecialKind) (entity : String) : String :=
  match kind with
  | virtualTable => "\x7bvtable(" ++ entity ++ ")\x7d"
  | vtt => "VTT for " ++ entity
  | typeInfo => "typeinfo for " ++ entity
  | typeInfoName => "typeinfo name for " ++ entity
  | nonVirtualThunk => "non-virtual thunk to " ++ entity
  | virtualThunk => "virtual thunk to " ++ entity
  | covariantThunk => "covariant return thunk to " ++ entity
  | guardVariable => "guard variable for " ++ entity
  | referenceTemporary => "reference temporary #0 for " ++ entity
  | tlsInit => "TLS init function for " ++ entity
  | tlsWrapper => "TLS wrapper function for " ++ entity
  | transactionClone => "transaction clone for " ++ entity
  | nonTransactionClone => "non-transaction clone for " ++ entity

def StdAbbreviation.text (abbr : StdAbbreviation) (modifiers : List Modifier) : String :=
  if abbr = .istream ∨ abbr = .iostream then
    "std::" ++ abbr.className ++ "<char, std::char_traits<char> >" ++
      Modifier.text false '>' modifiers
  else "std::" ++ abbr.identifier ++ Modifier.text false 'a' modifiers

/-! ### Expressions -/

structure Operand where
  text : String
  elements : List String
  isPlain : Bool := false
  /- what is called, where it is a function: its name, and the qualifiers of its object -/
  function : Option String := none
  /- the name that is enough for the address of a function -/
  pointer : Option String := none

namespace Operand

def ofText (text : String) : Operand := { text, elements := [text] }

def ofElements (elements : List String) : Operand :=
  { text := commaSeparated elements, elements }

def spelling (x : Operand) : String := if x.isPlain then x.text else parenthesized x.text

def called (x : Operand) : String := x.function.getD x.spelling

def addressed (x : Operand) : String := x.pointer.getD x.spelling

/- A function by its declaration. Its name alone stands for it where it is called, and for its
address if it has a scope and no qualifiers. -/
def ofFunction (declaration name qualifiers : String) (isPlainName isScoped : Bool) : Operand :=
  { ofText declaration with
    function := some <|
      if isPlainName && qualifiers.isEmpty then name else parenthesized (name ++ qualifiers)
    pointer := if isScoped && qualifiers.isEmpty then some name else none }

end Operand

def listed (xs : List Operand) : String := commaSeparated (xs.map Operand.text)

def behind (xs : List Operand) : String :=
  String.join ((xs.flatMap Operand.elements).map fun x => " " ++ x)

def braced (xs : List Operand) : String := "\x7b" ++ listed xs ++ "\x7d"

def foldText (spelling : String) (xs : List Operand) : String :=
  let operator := (spelling.drop 1).toString
  match xs with
  | [x] =>
    if spelling.front = 'l' then "(..." ++ operator ++ x.spelling ++ ")"
    else "(" ++ x.spelling ++ operator ++ "...)"
  | [x, y] => "(" ++ x.spelling ++ operator ++ "..." ++ operator ++ y.spelling ++ ")"
  | _ => ""

def binaryText (spelling : String) (x y : Operand) : String :=
  if spelling = "[]" then x.spelling ++ "[" ++ y.text ++ "]"
  else if spelling = ">" then parenthesized (x.spelling ++ spelling ++ y.spelling)
  else x.spelling ++ spelling ++ y.spelling

def unaryText (spelling : String) (x : Operand) : String :=
  if spelling = "++" ∨ spelling = "--" then x.spelling ++ spelling
  else if spelling.front.isAlpha then spelling ++ " " ++ x.spelling
  else if spelling = "&" then spelling ++ x.addressed
  else spelling ++ x.spelling

def ExpressionForm.text (form : ExpressionForm) (spelling : String) (xs : List Operand) : String :=
  match form, xs with
  | word, _ => spelling
  | parameter, _ => "\x7bparm#" ++ spelling ++ "\x7d"
  | outermost, [x] => "::" ++ x.text
  | unary, [x] => unaryText spelling x
  | binary, [x, y] => binaryText spelling x y
  | ternary, [x, y, z] => x.spelling ++ "?" ++ y.spelling ++ " : " ++ z.spelling
  | stepped, [x] => spelling ++ x.spelling
  | keyword, [x] =>
    spelling ++ (if spelling = "noexcept" then parenthesized x.text else x.spelling)
  | keywordType, [x] => spelling ++ parenthesized x.text
  | cast, [x, y] => parenthesized x.text ++ y.spelling
  | namedCast, [x, y] => spelling ++ "<" ++ x.text ++ ">" ++ parenthesized y.text
  | call, f :: xs => f.called ++ parenthesized (listed xs)
  | member, [x, y] | memberPointer, [x, y] => x.spelling ++ spelling ++ y.spelling
  | braces, xs => braced xs
  | typedBraces, x :: xs => x.text ++ braced xs
  | designated, [x, y] => "." ++ x.text ++ "=" ++ y.spelling
  | designatedIndex, [x, y] => "[" ++ x.text ++ "]=" ++ y.spelling
  | designatedRange, [x, y, z] => "[" ++ x.text ++ " ... " ++ y.text ++ "]=" ++ z.spelling
  | allocation, placement :: type :: initial =>
    "new " ++ (if placement.elements.isEmpty then "" else placement.spelling ++ " ") ++ type.text ++
      String.join (initial.map Operand.spelling)
  | rethrow, _ => "throw"
  | count, xs => toString (xs.flatMap Operand.elements).length
  | fold, xs => foldText spelling xs
  | vendor, xs => spelling ++ parenthesized (listed xs)
  | _, xs => listed xs

namespace Node

def isPlainName : Node → Bool
  | .name _ => true
  | .nested _ x | .std x => x.isPlainName
  | _ => false

def isPlainOperand : Node → Bool
  | .expr .name _ [x] | .literal x "" => x.isPlainName
  | .expr form _ _ => form ∈ [.parameter, .braces, .typedBraces]
  | _ => false

def isScoped : Node → Bool
  | .nested _ x => x.isPlainName
  | .std _ => true
  | _ => false

def operand (node : Node) (text : String) : String :=
  if node.isPlainOperand then text else parenthesized text

mutual

def text : Node → List Modifier → String
  | .name s, ms => s ++ Modifier.text false 'a' ms
  | .nested scope entity, ms =>
    text scope [] ++ "::" ++ text entity [] ++ Modifier.text false 'a' ms
  | .std x, ms => "std::" ++ text x [] ++ Modifier.text false 'a' ms
  | .template base args, ms =>
    angled (text base []) (listed (operands args)) ++ Modifier.text false '>' ms
  | .abbreviation a, ms => a.text ms
  | .abiTag base tag, ms => text base [] ++ "[abi:" ++ tag ++ "]" ++ Modifier.text false ']' ms
  | .structor cls isDestructor namesake, _ =>
    (if isDestructor then "~" else "") ++ (namesake.getD cls).ownName
  | .conversion target, _ => "operator " ++ text target []
  | .unnamedType index, ms =>
    "\x7bunnamed type#" ++ toString (index + 1) ++ "\x7d" ++ Modifier.text false 'a' ms
  | .closure params index, ms =>
    "\x7blambda(" ++ listed (operands params) ++ ")#" ++ toString (index + 1) ++ "\x7d" ++
      Modifier.text false 'a' ms
  | .binding items, ms => "[" ++ listed (operands items) ++ "]" ++ Modifier.text false 'a' ms
  | .inBody encoding entity, ms =>
    text encoding [] ++ "::" ++ text entity [] ++ Modifier.text false 'a' ms
  | .function _ entity params quals refQual, _ =>
    text entity [] ++ parenthesized (listed (operands params)) ++ trailer quals refQual
  | .special kind (.function ret entity params quals refQual), _ =>
    kind.spelling
      (declarationText ret (text entity []) (listed (operands params)) (trailer quals refQual))
  | .special kind x, _ => kind.spelling (text x [])
  | .constructionVTable first second, _ =>
    "construction vtable for " ++ text second [] ++ "-in-" ++ text first []
  | .qualified (.functionType ret params _ refQual specifiers) quals, ms =>
    text ret (.function "" (listed (operands params))
      (behind (operands specifiers) ++ trailer quals refQual) :: ms)
  | .qualified x quals, ms => text x (withQualifiers quals ms)
  | .vendorQualified x vendor, ms => text x (.word vendor :: ms)
  | .pointer x, ms => text x (.pointer :: ms)
  | .reference x isRvalue, ms => text x (Modifier.addReference isRvalue ms)
  | .memberPointer cls member, ms => text member (.memberOf (text cls []) :: ms)
  | .array extent element, ms =>
    let words := ms.takeWhile Modifier.isQualifier
    text element (words.reverse ++ .array (extentText extent) :: ms.drop words.length)
  | .vector extent element, ms =>
    text element (.word ("__vector(" ++ extentText extent ++ ")") :: ms)
  | .functionType ret params quals refQual specifiers, ms =>
    text ret (.function "" (listed (operands params))
      (behind (operands specifiers) ++ trailer quals refQual) :: ms)
  | .templateParam index, ms => "auto:" ++ toString (index + 1) ++ Modifier.text false 'a' ms
  | .pack items, _ => listed (operands items)
  | .expansion pattern, _ => operand pattern (text pattern []) ++ "..."
  | .literal type value, _ =>
    if value.isEmpty then text type [] else literalText (text type []) value
  | .expr form spelling xs, _ => form.text spelling (operands xs)
  | .decltype x, ms => "decltype (" ++ text x [] ++ ")" ++ Modifier.text false ')' ms
  | .clone base suffix, _ => text base [] ++ cloneText suffix

def declarationText (ret : Option Node) (name params trailer : String) : String :=
  match ret with
  | some ret => text ret [.function name params trailer]
  | none => name ++ parenthesized params ++ trailer

def extentText : Extent Node → String
  | .unstated => ""
  | .number digits => digits
  | .computed x => text x []

def operands : List Node → List Operand
  | [] => []
  | x :: rest =>
    (match x with
      | .pack items => .ofElements ((operands items).flatMap Operand.elements)
      | .expansion pattern | .expr .spread _ [pattern] =>
        .ofText (operand pattern (text pattern []) ++ "...")
      | .literal (.function ret entity params quals refQual) "" =>
        let name := text entity []
        let params := listed (operands params)
        let qualifiers := trailer quals refQual
        .ofFunction (declarationText ret name params qualifiers) name qualifiers entity.isPlainName
          entity.isScoped
      | .expr .castList _ xs => .ofElements ((operands xs).flatMap Operand.elements)
      | x => { Operand.ofText (text x []) with isPlain := x.isPlainOperand }) ::
    operands rest

end

def hasFreeParam : Node → Bool := fun node => go node
where
  go : Node → Bool
    | .templateParam _ => true
    | .nested a b | .inBody a b | .constructionVTable a b | .memberPointer a b => go a || go b
    | .std x | .conversion x | .pointer x | .decltype x | .abiTag x _ | .structor x _ _
    | .special _ x | .qualified x _ | .vendorQualified x _ | .reference x _ | .array _ x
    | .vector _ x | .literal x _ | .clone x _ | .expansion x => go x
    | .template x xs | .functionType x xs _ _ _ => go x || gos xs
    | .function ret x xs _ _ => go? ret || go x || gos xs
    | .binding xs | .expr _ _ xs | .pack xs => gos xs
    | .name _ | .abbreviation _ | .unnamedType _ | .closure _ _ => false
  gos : List Node → Bool
    | [] => false
    | x :: xs => go x || gos xs
  go? : Option Node → Bool
    | none => false
    | some x => go x

def declaration : Node → String
  | .clone base suffix => base.declaration ++ cloneText suffix
  | .function (some ret) entity params quals refQual =>
    text ret [.function (text entity []) (listed (operands params))
      (trailer quals refQual)]
  | node => text node []

def hasProperSuffix : Node → Bool
  | .clone _ suffix => isCloneSuffix suffix
  | _ => true

def spelling? (node : Node) : Option String :=
  if node.hasProperSuffix && !node.hasFreeParam then some node.declaration else none

end Node

end CxxSymbols.Itanium
