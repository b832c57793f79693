import CxxSymbols.Itanium.Grammar.Encoding
/-! How functions are mangled. Whatever is spelled out joins a table of candidates, and whatever
equals a candidate may be spelled as a reference to it, so a function has many spellings. A
spelling is given with what it asks of its reader: how deep rules are nested, and how many nodes
are copied for references. -/
namespace CxxSymbols.Itanium.Mangling
open Canonical (Qualifiers)

/-! ### Functions and their types -/

/- An identifier that is spelled as it is. One that begins with a digit would run into its length,
and a name of an anonymous namespace is read as no identifier. -/
structure Ident where
  text : String
  nonempty : text ≠ ""
  noDigit : text.toList.head?.any Char.isDigit = false
  named : ¬"_GLOBAL__N".toList <+: text.toList

structure Path where
  first : Ident
  rest : List Ident

def Path.then (p : Path) (i : Ident) : Path := ⟨p.first, p.rest ++ [i]⟩

def Path.toNode (p : Path) : Node :=
  p.rest.foldl (fun scope i => .nested scope (.name i.text)) (.name p.first.text)

inductive Ty where
  | builtin (letter : Char) (known : (Grammar.builtinLetter? letter).isSome = true)
  | named (path : Path)
  | pointer (target : Ty)
  | reference (target : Ty) (isRvalue : Bool)
  | qualified (target : Ty) (quals : Qualifiers)
  | function (ret : Ty) (params : List Ty)

namespace Ty

mutual

def toNode : Ty → Node
  | builtin letter known => .name ((Grammar.builtinLetter? letter).get known)
  | named path => path.toNode
  | pointer target => .pointer target.toNode
  | reference target isRvalue => .reference target.toNode isRvalue
  | qualified target quals => .qualified target.toNode quals
  | function ret params => .functionType ret.toNode (toNodes params) {} .none []

def toNodes : List Ty → List Node
  | [] => []
  | t :: ts => t.toNode :: toNodes ts

end

def isVoid : Ty → Bool
  | builtin letter _ => letter = 'v'
  | _ => false

def isQualified : Ty → Bool
  | qualified _ _ => true
  | _ => false

end Ty

structure Function where
  path : Path
  params : List Ty

def Function.toNode (f : Function) : Node :=
  .function none f.path.toNode (Ty.toNodes f.params) {} .none

/-! ### Spellings -/

def letter (c : Char) : UInt8 := .ofNat c.toNat

def digit (d : Nat) : UInt8 := if d < 10 then .ofNat (48 + d) else .ofNat (55 + d)

def numeral (base n : Nat) : List UInt8 :=
  if base < 2 ∨ n < base then [digit n] else numeral base (n / base) ++ [digit (n % base)]
termination_by n
decreasing_by exact Nat.div_lt_self (by omega) (by omega)

def Ident.source (i : Ident) : List UInt8 :=
  numeral 10 (Text.encode i.text).length ++ Text.encode i.text

def referenceTo : Nat → List UInt8
  | 0 => [letter 'S', letter '_']
  | n + 1 => letter 'S' :: numeral 36 n ++ [letter '_']

def qualifierLetters (q : Qualifiers) : List UInt8 :=
  (if q.isRestrict then [letter 'r'] else []) ++ (if q.isVolatile then [letter 'V'] else []) ++
    (if q.isConst then [letter 'K'] else [])

structure Spelling where
  bytes : List UInt8
  nesting : Nat
  copied : Nat

namespace Spelling

def behind (front : List UInt8) (s : Spelling) : Spelling :=
  ⟨front ++ s.bytes, s.nesting + 1, s.copied⟩

def beside (s s' : Spelling) : Spelling :=
  ⟨s.bytes ++ s'.bytes, max s.nesting s'.nesting, s.copied + s'.copied⟩

def followed (s : Spelling) (back : List UInt8) : Spelling := { s with bytes := s.bytes ++ back }

def listed (s : Spelling) : Spelling :=
  if s.bytes.isEmpty then { s with bytes := [letter 'v'] } else s

end Spelling

/- The scope of a nested name. Each scope that is spelled out becomes a candidate, and the first
ones together may be a candidate that is there. -/
inductive ScopeSpelled : List Ty → Path → List UInt8 → Nat → List Ty → Prop where
  | first {table : List Ty} (i : Ident) :
      ScopeSpelled table ⟨i, []⟩ i.source 0 (table ++ [Ty.named ⟨i, []⟩])
  | referred {table : List Ty} {index : Nat} {p : Path}
      (candidate : table[index]? = some (.named p)) :
      ScopeSpelled table p (referenceTo index) p.toNode.size table
  | next {table table' : List Ty} {p : Path} {bytes : List UInt8} {copied : Nat}
      (scope : ScopeSpelled table p bytes copied table') (i : Ident) :
      ScopeSpelled table (p.then i) (bytes ++ i.source) copied (table' ++ [Ty.named (p.then i)])

inductive NameSpelled : List Ty → Path → List UInt8 → Nat → List Ty → Prop where
  | source {table : List Ty} (i : Ident) : NameSpelled table ⟨i, []⟩ i.source 0 table
  | nested {table table' : List Ty} {p : Path} {bytes : List UInt8} {copied : Nat}
      (scope : ScopeSpelled table p bytes copied table') (i : Ident) :
      NameSpelled table (p.then i) (letter 'N' :: bytes ++ i.source ++ [letter 'E']) copied table'

mutual

inductive TypeSpelled : List Ty → Ty → Spelling → List Ty → Prop where
  | builtin {table : List Ty} {c : Char} (known : (Grammar.builtinLetter? c).isSome = true) :
      TypeSpelled table (.builtin c known) ⟨[letter c], 1, 0⟩ table
  | referred {table : List Ty} {index : Nat} {t : Ty} (candidate : table[index]? = some t) :
      TypeSpelled table t ⟨referenceTo index, 1, t.toNode.size⟩ table
  | named {table table' : List Ty} {p : Path} {bytes : List UInt8} {copied : Nat}
      (name : NameSpelled table p bytes copied table') :
      TypeSpelled table (.named p) ⟨bytes, 2, copied⟩ (table' ++ [Ty.named p])
  | pointer {table table' : List Ty} {t : Ty} {s : Spelling}
      (target : TypeSpelled table t s table') :
      TypeSpelled table (.pointer t) (s.behind [letter 'P']) (table' ++ [Ty.pointer t])
  | lvalue {table table' : List Ty} {t : Ty} {s : Spelling}
      (target : TypeSpelled table t s table') :
      TypeSpelled table (.reference t false) (s.behind [letter 'R'])
        (table' ++ [Ty.reference t false])
  | rvalue {table table' : List Ty} {t : Ty} {s : Spelling}
      (target : TypeSpelled table t s table') :
      TypeSpelled table (.reference t true) (s.behind [letter 'O'])
        (table' ++ [Ty.reference t true])
  | qualified {table table' : List Ty} {t : Ty} {s : Spelling} {q : Qualifiers} (some : q ≠ {})
      (plain : t.isQualified = false) (target : TypeSpelled table t s table') :
      TypeSpelled table (.qualified t q) (s.behind (qualifierLetters q))
        (table' ++ [Ty.qualified t q])
  | function {table table' table'' : List Ty} {ret : Ty} {params : List Ty} {s s' : Spelling}
      (result : TypeSpelled table ret s table') (list : TypesSpelled table' params s' table'') :
      TypeSpelled table (.function ret params)
        (((s.beside s'.listed).behind [letter 'F']).followed [letter 'E'])
        (table'' ++ [Ty.function ret params])

inductive TypesSpelled : List Ty → List Ty → Spelling → List Ty → Prop where
  | nil {table : List Ty} : TypesSpelled table [] ⟨[], 0, 0⟩ table
  | cons {table table' table'' : List Ty} {t : Ty} {ts : List Ty} {s s' : Spelling}
      (head : TypeSpelled table t s table') (notVoid : t.isVoid = false)
      (tail : TypesSpelled table' ts s' table'') :
      TypesSpelled table (t :: ts) (s.beside s') table''

end

inductive Function.Spelled (f : Function) : Spelling → Prop where
  | mk {table table' : List Ty} {bytes : List UInt8} {copied : Nat} {s : Spelling}
      (name : NameSpelled [] f.path bytes copied table)
      (params : TypesSpelled table f.params s table') :
      f.Spelled ((Spelling.beside ⟨bytes, 1, copied⟩ s.listed).behind [])

def Spelling.mangled (s : Spelling) : List UInt8 := letter '_' :: letter 'Z' :: s.bytes

end CxxSymbols.Itanium.Mangling
