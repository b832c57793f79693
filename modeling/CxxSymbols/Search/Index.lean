import CxxSymbols.Search.Token
import Std.Data.ExtTreeMap
/-!
An index from the tokens of keys, in lower case, to the places of the keys that hold them. A
query asks for the keys in which each of its tokens begins some token. Posting lists are strictly
ascending.
-/
namespace CxxSymbols.Search

/- The places of keys, strictly ascending. A place is a word of 32 bits in a store, so the first 2³²
keys have their positions for places, and no more than these can be indexed. -/
abbrev Postings := Array Nat

structure Index where
  postings : Std.ExtTreeMap String Postings := ∅

def dropRepeats {α : Type} [DecidableEq α] : List α → List α
  | a :: b :: rest => if a = b then dropRepeats (b :: rest) else a :: dropRepeats (b :: rest)
  | xs => xs

def sortUnique (xs : List Nat) : List Nat := dropRepeats (xs.mergeSort fun a b => a ≤ b)

def intersect : List Nat → List Nat → List Nat
  | [], _ => []
  | _, [] => []
  | a :: as, b :: bs =>
    if a < b then intersect as (b :: bs)
    else if b < a then intersect (a :: as) bs
    else a :: intersect as bs
termination_by as bs => as.length + bs.length

def lowerTokens (text : String) : List String :=
  (tokenize text).map fun t => t.text.map Char.toLower

def sought (text : String) : List String :=
  dropRepeats ((lowerTokens text).mergeSort fun a b => !(b < a))

namespace Index

def empty : Index := {}

/- Notes that the key at a place holds a token. Places are given in ascending order. -/
def note (index : Index) (place : Nat) (token : String) : Index :=
  ⟨index.postings.alter token fun
    | none => some #[place]
    | some list => some (if list.back? = some place then list else list.push place)⟩

def noteKey (index : Index) (place : Nat) (key : String) : Index :=
  (lowerTokens key).foldl (fun index token => index.note place token) index

def build (keys : List String) : Index :=
  (keys.foldl (fun (index, place) key => (noteKey index place key, place + 1)) (empty, 0)).1

def insert (index : Index) (token : String) (places : List Nat) : Index :=
  ⟨index.postings.alter token fun list =>
    some (sortUnique ((list.getD #[]).toList ++ places)).toArray⟩

def toList (index : Index) : List (String × Postings) := index.postings.toList

def size (index : Index) : Nat := index.postings.size

def isEmpty (index : Index) : Bool := index.postings.isEmpty

/- The places of the keys with a token that the given text begins. In the order of tokens these
stand together. -/
def matching (index : Index) (text : String) : List Nat :=
  let entries := (index.toList.dropWhile fun e => e.1 < text).takeWhile fun e =>
    text.toList.isPrefixOf e.1.toList
  sortUnique (entries.flatMap fun e => e.2.toList)

def narrow (index : Index) (found : List Nat) : List String → List Nat
  | [] => found
  | token :: tokens =>
    if found.isEmpty then [] else index.narrow (intersect found (index.matching token)) tokens

def query (index : Index) (text : String) : List Nat :=
  match sought text with
  | [] => []
  | first :: rest => index.narrow (index.matching first) rest

end Index

end CxxSymbols.Search
