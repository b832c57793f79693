import CxxSymbols.Search.Token
import Std.Data.HashMap
/-!
Families of symbols: the overloads and specializations of one name. The family of a key is its
name with each template argument list replaced by a blank, up to the first parenthesis outside of
such lists.
-/
namespace CxxSymbols.Search

def endsWithOperator (reversed : List Char) : Bool :=
  operatorWord.reverse.isPrefixOf reversed &&
    !((reversed.drop operatorWord.length).head?.any isNameChar)

/- Goes on from a text, which is kept in reverse, at a depth of template argument lists. Arrows
are left out, and so is any other minus that is not part of an operator. -/
def familyFrom (depth : Nat) (reversed : List Char) (cs : List Char) : List Char :=
  match cs with
  | [] => reversed
  | c :: rest =>
    match if depth = 0 ∧ endsWithOperator reversed then operatorSpelling? (c :: rest) else none with
    | some spelling =>
      familyFrom depth (spelling.reverse ++ reversed) (rest.drop (spelling.length - 1))
    | none =>
      if (c = '-' ∧ rest.head? = some '>') ∨ (c = '<' ∧ rest.head? = some '-') then
        familyFrom depth reversed (rest.drop 1)
      else if c = '-' then familyFrom depth reversed rest
      else if depth = 0 then
        if c = '<' then familyFrom 1 (' ' :: reversed) rest
        else if c = '>' then familyFrom 0 (' ' :: reversed) rest
        else if c = '(' then reversed
        else familyFrom 0 (c :: reversed) rest
      else if c = '<' then familyFrom (depth + 1) reversed rest
      else if c = '>' then familyFrom (depth - 1) reversed rest
      else familyFrom depth reversed rest
termination_by cs.length

def family (key : String) : String :=
  String.ofList (familyFrom 0 [] key.toList).reverse

structure Family (α : Type) where
  name : String
  members : Array α

structure Grouping (α : Type) where
  families : Array (Family α) := #[]
  places : Std.HashMap String Nat := {}

def Grouping.add {α : Type} (g : Grouping α) (name : String) (x : α) : Grouping α :=
  match g.places[name]? with
  | some place =>
    { g with families := g.families.modify place fun f => { f with members := f.members.push x } }
  | none =>
    ⟨g.families.push ⟨name, #[x]⟩, g.places.insert name g.families.size⟩

def groupByFamily {α : Type} (keyOf : α → String) (items : List α) : List (Family α) :=
  (items.foldl (fun g x => g.add (family (keyOf x)) x) ({} : Grouping α)).families.toList

end CxxSymbols.Search
