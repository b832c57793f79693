import CxxSymbols.Canonical.Basic
/-!
The parse tree of the Itanium mangling. Substitutions and template parameters are resolved while
the tree is built, so every node stands on its own. `charge` and `depthWithin` are the guards
against trees that references blow up; both stop as soon as their limit is passed.
-/
namespace CxxSymbols.Itanium
open Canonical (Qualifiers RefQualifier)

inductive StdAbbreviation where
  | allocator
  | basicString
  | string
  | istream
  | ostream
  | iostream
  deriving DecidableEq, Repr, Inhabited

def StdAbbreviation.identifier : StdAbbreviation → String
  | allocator => "allocator"
  | basicString => "basic_string"
  | string => "string"
  | istream => "istream"
  | ostream => "ostream"
  | iostream => "iostream"

/- The streams for input are classes of a template, which goes by its own name. -/
def StdAbbreviation.className : StdAbbreviation → String
  | istream => "basic_istream"
  | iostream => "basic_iostream"
  | abbr => abbr.identifier

inductive SpecialKind where
  | virtualTable
  | vtt
  | typeInfo
  | typeInfoName
  | nonVirtualThunk
  | virtualThunk
  | covariantThunk
  | guardVariable
  | referenceTemporary
  | tlsInit
  | tlsWrapper
  | transactionClone
  | nonTransactionClone
  deriving DecidableEq, Repr, Inhabited

inductive ExpressionForm where
  | word
  | name
  | operatorName
  | outermost
  | parameter
  | unary
  | binary
  | ternary
  /- an operator in front of its operand that could stand behind it -/
  | stepped
  | keyword
  | keywordType
  | spread
  /- a conversion: the type, and the operands in a list if there is not one -/
  | cast
  | castList
  | namedCast
  | call
  | member
  | memberPointer
  | braces
  | typedBraces
  | designated
  | designatedIndex
  | designatedRange
  /- an allocation: the type, and what is between parentheses in front -/
  | allocation
  | rethrow
  | count
  | fold
  | vendor
  deriving DecidableEq, Repr, Inhabited

def ExpressionForm.label (form : ExpressionForm) (spelling : String) : String :=
  match form with
  | word | unary | binary | ternary => spelling
  | name | operatorName | outermost => "name"
  | parameter => "fp"
  | stepped | keyword | spread => "unary"
  | keywordType => "type"
  | cast | castList | namedCast => "cast"
  | call => "call"
  | member => "member"
  | memberPointer => ".*"
  | braces | typedBraces | designated | designatedIndex | designatedRange => "init"
  | allocation => "new"
  | rethrow => "throw"
  | count => "sizeof..."
  | fold => "fold"
  | vendor => "vendor"

inductive Extent (α : Type) where
  | unstated
  | number (digits : String)
  | computed (expression : α)
  deriving DecidableEq, Repr, Inhabited

def Extent.digits? {α : Type} : Extent α → Option String
  | number digits => some digits
  | _ => none

inductive Node where
  | name (spelling : String)
  | nested (scope entity : Node)
  | std (child : Node)
  | template (base : Node) (args : List Node)
  | abbreviation (abbr : StdAbbreviation)
  | abiTag (base : Node) (tag : String)
  /- a constructor or destructor, with what it goes by the name of if that is not its class -/
  | structor (cls : Node) (isDestructor : Bool) (namesake : Option Node)
  | conversion (target : Node)
  | unnamedType (index : Nat)
  | closure (params : List Node) (index : Nat)
  | binding (items : List Node)
  | inBody (encoding entity : Node)
  /- `ret` is encoded for instances of function templates only -/
  | function (ret : Option Node) (entity : Node) (params : List Node) (quals : Qualifiers)
      (refQual : RefQualifier)
  | special (kind : SpecialKind) (child : Node)
  | constructionVTable (first second : Node)
  | qualified (child : Node) (quals : Qualifiers)
  | vendorQualified (child : Node) (vendor : String)
  | pointer (child : Node)
  | reference (child : Node) (isRvalue : Bool)
  | memberPointer (cls member : Node)
  | array (extent : Extent Node) (element : Node)
  | vector (extent : Extent Node) (element : Node)
  | functionType (ret : Node) (params : List Node) (quals : Qualifiers) (refQual : RefQualifier)
      (specifiers : List Node)
  | templateParam (index : Nat)
  | pack (items : List Node)
  | expansion (pattern : Node)
  | literal (type : Node) (value : String)
  /- an expression, which counts as one node whatever it is made of -/
  | expr (form : ExpressionForm) (spelling : String) (operands : List Node)
  | decltype (expression : Node)
  | clone (base : Node) (suffix : String)

instance : Inhabited Node := ⟨.name ""⟩

def Node.ownName : Node → String
  | .name s => s
  | .nested _ x | .inBody _ x => x.ownName
  | .std x | .template x _ | .abiTag x _ | .structor x _ _ => x.ownName
  | .abbreviation a => a.className
  | _ => ""

mutual

def Node.size : Node → Nat
  | .name _ | .abbreviation _ | .unnamedType _ | .templateParam _
  | .expr .. => 1
  | .std x | .conversion x | .pointer x | .expansion x | .decltype x | .abiTag x _
  | .structor x _ _ | .special _ x | .qualified x _ | .vendorQualified x _ | .reference x _
  | .array _ x | .vector _ x | .literal x _ | .clone x _ => 1 + x.size
  | .nested a b | .inBody a b | .constructionVTable a b | .memberPointer a b =>
    1 + a.size + b.size
  | .template x xs => 1 + x.size + Node.sizes xs
  | .closure xs _ | .binding xs | .pack xs => 1 + Node.sizes xs
  | .function ret x xs _ _ => 1 + x.size + Node.sizeOf? ret + Node.sizes xs
  | .functionType x xs _ _ _ => 1 + x.size + Node.sizes xs

def Node.sizes : List Node → Nat
  | [] => 0
  | x :: xs => x.size + Node.sizes xs

def Node.sizeOf? : Option Node → Nat
  | none => 0
  | some x => x.size

end

mutual

/- Takes the number of nodes off a budget. If the budget is too small it ends at zero, and the
answer is `false`. -/
def Node.charge : Node → Nat → Bool × Nat
  | _, 0 => (false, 0)
  | .name _, budget + 1 | .abbreviation _, budget + 1 | .unnamedType _, budget + 1
  | .templateParam _, budget + 1 | .expr .., budget + 1 => (true, budget)
  | .std x, budget + 1 | .conversion x, budget + 1 | .pointer x, budget + 1
  | .expansion x, budget + 1 | .decltype x, budget + 1 | .abiTag x _, budget + 1
  | .structor x _ _, budget + 1 | .special _ x, budget + 1 | .qualified x _, budget + 1
  | .vendorQualified x _, budget + 1 | .reference x _, budget + 1 | .array _ x, budget + 1
  | .vector _ x, budget + 1 | .literal x _, budget + 1 | .clone x _, budget + 1 =>
    x.charge budget
  | .nested a b, budget + 1 | .inBody a b, budget + 1 | .constructionVTable a b, budget + 1
  | .memberPointer a b, budget + 1 =>
    match a.charge budget with
    | (true, rest) => b.charge rest
    | (false, rest) => (false, rest)
  | .template x xs, budget + 1 | .functionType x xs _ _ _, budget + 1 =>
    match x.charge budget with
    | (true, rest) => Node.chargeAll xs rest
    | (false, rest) => (false, rest)
  | .closure xs _, budget + 1 | .binding xs, budget + 1 | .pack xs, budget + 1 =>
    Node.chargeAll xs budget
  | .function ret x xs _ _, budget + 1 =>
    match x.charge budget with
    | (true, rest) =>
      match Node.charge? ret rest with
      | (true, rest) => Node.chargeAll xs rest
      | (false, rest) => (false, rest)
    | (false, rest) => (false, rest)

def Node.chargeAll : List Node → Nat → Bool × Nat
  | [], budget => (true, budget)
  | x :: xs, budget =>
    match x.charge budget with
    | (true, rest) => Node.chargeAll xs rest
    | (false, rest) => (false, rest)

def Node.charge? : Option Node → Nat → Bool × Nat
  | none, budget => (true, budget)
  | some x, budget => x.charge budget

end

mutual

def Node.depthWithin : Node → Nat → Bool
  | _, 0 => false
  | .name _, _ + 1 | .abbreviation _, _ + 1 | .unnamedType _, _ + 1 | .templateParam _, _ + 1
  | .expr .., _ + 1 => true
  | .std x, limit + 1 | .conversion x, limit + 1 | .pointer x, limit + 1
  | .expansion x, limit + 1 | .decltype x, limit + 1 | .abiTag x _, limit + 1
  | .structor x _ _, limit + 1 | .special _ x, limit + 1 | .qualified x _, limit + 1
  | .vendorQualified x _, limit + 1 | .reference x _, limit + 1 | .array _ x, limit + 1
  | .vector _ x, limit + 1 | .literal x _, limit + 1 | .clone x _, limit + 1 =>
    x.depthWithin limit
  | .nested a b, limit + 1 | .inBody a b, limit + 1 | .constructionVTable a b, limit + 1
  | .memberPointer a b, limit + 1 => a.depthWithin limit && b.depthWithin limit
  | .template x xs, limit + 1 | .functionType x xs _ _ _, limit + 1 =>
    x.depthWithin limit && Node.depthsWithin xs limit
  | .closure xs _, limit + 1 | .binding xs, limit + 1 | .pack xs, limit + 1 =>
    Node.depthsWithin xs limit
  | .function ret x xs _ _, limit + 1 =>
    x.depthWithin limit && Node.depthWithin? ret limit && Node.depthsWithin xs limit

def Node.depthsWithin : List Node → Nat → Bool
  | [], _ => true
  | x :: xs, limit => x.depthWithin limit && Node.depthsWithin xs limit

def Node.depthWithin? : Option Node → Nat → Bool
  | none, _ => true
  | some x, limit => x.depthWithin limit

end

end CxxSymbols.Itanium
