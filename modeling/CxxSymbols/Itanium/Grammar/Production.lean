import CxxSymbols.Itanium.Grammar.Lexical
/-!
The productions that the grammar recurs through, and what each of them yields. The rules of the
grammar are written over `Below`, a scanner for each of these one step further down; only the
last step ties them together.
-/
namespace CxxSymbols.Itanium.Grammar
open Canonical (Qualifiers RefQualifier)
open Scanner

/- What the name of a function says about the signature behind it. -/
structure NameShape where
  quals : Qualifiers := {}
  refQual : RefQualifier := .none
  endsWithArgs : Bool := false
  lacksReturn : Bool := false
  deriving DecidableEq, Repr, Inhabited

def NameShape.apply (shape : NameShape) (name : Node) : Node :=
  let name := if shape.quals = {} then name else .qualified name shape.quals
  match shape.refQual with
  | .none => name
  | .lvalue => .vendorQualified name "&"
  | .rvalue => .vendorQualified name "&&"

inductive Production where
  | encoding
  | name
  | type
  | templateArg
  | expression
  | braced
  deriving DecidableEq, Repr, Inhabited

abbrev Production.Result : Production → Type
  | encoding => Node
  | name => Node × NameShape
  | type => Node
  | templateArg => Node
  | expression => Node
  | braced => Node

abbrev Below := (p : Production) → Rule p.Result

/- `I arg+ E`. The arguments of the name being declared are what its template parameters stand
for. -/
def templateArgs (below : Below) : Rule (List Node) := do
  expect "I"
  let declaring := (← memory).declaring
  alter fun m => { m with declaring := false }
  let args ← aside (manyTo "E" (below .templateArg))
  alter fun m => { m with declaring, arguments := if declaring then args else m.arguments }
  return args

def withTemplateArgs (below : Below) (base : Node) : Rule Node := do
  if (← peek) = some 'I' then return .template base (← templateArgs below)
  return base

/- The code, spelling and number of operands of an operator. With no operands it has a rule of
its own in expressions. -/
def operators : List ((Char × Char) × String × Nat) := [
  (('a', 'a'), "&&", 2), (('a', 'd'), "&", 1), (('a', 'n'), "&", 2), (('a', 'N'), "&=", 2),
  (('a', 'S'), "=", 2), (('a', 'w'), "co_await", 1), (('c', 'l'), "()", 0), (('c', 'm'), ",", 2),
  (('c', 'o'), "~", 1), (('d', 'a'), "delete[]", 1), (('d', 'e'), "*", 1),
  (('d', 'l'), "delete", 1), (('d', 'v'), "/", 2), (('d', 'V'), "/=", 2), (('e', 'o'), "^", 2),
  (('e', 'O'), "^=", 2), (('e', 'q'), "==", 2), (('g', 'e'), ">=", 2), (('g', 't'), ">", 2),
  (('i', 'x'), "[]", 2), (('l', 'e'), "<=", 2), (('l', 's'), "<<", 2), (('l', 'S'), "<<=", 2),
  (('l', 't'), "<", 2), (('m', 'i'), "-", 2), (('m', 'I'), "-=", 2), (('m', 'l'), "*", 2),
  (('m', 'L'), "*=", 2), (('m', 'm'), "--", 1), (('n', 'a'), "new[]", 0), (('n', 'e'), "!=", 2),
  (('n', 'g'), "-", 1), (('n', 't'), "!", 1), (('n', 'w'), "new", 0), (('o', 'o'), "||", 2),
  (('o', 'r'), "|", 2), (('o', 'R'), "|=", 2), (('p', 'm'), "->*", 2), (('p', 'l'), "+", 2),
  (('p', 'L'), "+=", 2), (('p', 'p'), "++", 1), (('p', 's'), "+", 1), (('p', 't'), "->", 2),
  (('q', 'u'), "?", 3), (('r', 'm'), "%", 2), (('r', 'M'), "%=", 2), (('r', 's'), ">>", 2),
  (('r', 'S'), ">>=", 2), (('s', 's'), "<=>", 2)]

def operator? (code : Char × Char) : Option (String × Nat) := operators.lookup code

end CxxSymbols.Itanium.Grammar
