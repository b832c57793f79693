import CxxSymbols.Itanium.Canonical
import CxxSymbols.Itanium.Grammar.Encoding
import CxxSymbols.Itanium.Spelling
import CxxSymbols.Microsoft.Canonical
import CxxSymbols.Microsoft.Grammar
import CxxSymbols.Microsoft.Spelling
/-!
Mangled names of either scheme. A name is first freed of the suffixes that compilers give to
clones of a function; what is left tells its scheme by how it begins.
-/
namespace CxxSymbols

inductive Scheme where
  | itanium
  | microsoft
  deriving DecidableEq, Repr, Inhabited

def Scheme.label : Scheme → String
  | itanium => "itanium"
  | microsoft => "msvc"

inductive DecodeError where
  | notMangled
  | malformed (scheme : Scheme)
  deriving DecidableEq, Repr, Inhabited

def DecodeError.message : DecodeError → String
  | notMangled => "not a mangled C++ symbol"
  | malformed scheme => "malformed " ++ scheme.label ++ " symbol"

namespace Mangled

def splitAtLast? (text : List Char) : List Char → Option (List Char × List Char)
  | [] => none
  | c :: cs =>
    match splitAtLast? text cs with
    | some (before, behind) => some (c :: before, behind)
    | none => if text.isPrefixOf (c :: cs) then some ([], (c :: cs).drop text.length) else none

/- Cuts a name at the last occurrence of a suffix if only digits follow up to the next dot. -/
def cutSuffix (name suffix : List Char) : List Char :=
  match splitAtLast? suffix name with
  | some (before, behind) =>
    if (behind.takeWhile (· ≠ '.')).all Char.isDigit then before else name
  | none => name

/- The suffixes that a number follows, in the order in which they are taken off. Dots in general
stay: names in C may hold them. -/
def numberedSuffixes : List String := [".clone.", ".constprop.", ".llvm.", ".isra.", ".part."]

def cutCold (name : List Char) : List Char :=
  if ".cold".toList.isSuffixOf name then name.take (name.length - ".cold".length) else name

def withoutCloneSuffixes (name : String) : String :=
  String.ofList (cutCold ((numberedSuffixes.map String.toList).foldl cutSuffix name.toList))

def scheme? (name : String) : Option Scheme :=
  let underscores := name.toList.takeWhile (· = '_')
  match name.toList.drop underscores.length with
  | 'Z' :: _ => if 1 ≤ underscores.length ∧ underscores.length ≤ 3 then some .itanium else none
  | '?' :: _ => if underscores.isEmpty then some .microsoft else none
  | _ => none

def decode (raw : String) : Except DecodeError Canonical.Root :=
  let name := withoutCloneSuffixes raw
  match scheme? name with
  | none => .error .notMangled
  | some .itanium =>
    match Itanium.Node.ofMangled? (Text.encode name) with
    | some node => .ok node.toRoot
    | none => .error (.malformed .itanium)
  | some .microsoft =>
    match Microsoft.Symbol.ofMangled? (Text.encode name) with
    | some symbol => .ok symbol.toRoot
    | none => .error (.malformed .microsoft)

def decodeKey (raw : String) : Except DecodeError (String × Canonical.Kind) :=
  (decode raw).map fun root => (root.key, root.kind)

def demangle (raw : String) : Except DecodeError String :=
  let name := withoutCloneSuffixes raw
  match scheme? name with
  | none => .error .notMangled
  | some .itanium =>
    match (Itanium.Node.ofMangledFor? .spelling (Text.encode name)).bind Itanium.Node.spelling? with
    | some text => .ok text
    | none => .error (.malformed .itanium)
  | some .microsoft =>
    match (Microsoft.Symbol.ofMangled? (Text.encode name)).bind Microsoft.Symbol.spelling? with
    | some text => .ok text
    | none => .error (.malformed .microsoft)

end Mangled

end CxxSymbols
