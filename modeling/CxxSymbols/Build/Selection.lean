import CxxSymbols.Mangled
import CxxSymbols.Store.Record
/-!
Which symbols a store is built from. A symbol is left out for the first reason that applies.
-/
namespace CxxSymbols.Build
open Canonical (Root)
open Store (Origin)

inductive SkipReason where
  | notMangled
  | malformed
  | excluded (beginning : String)
  | zeroAddress
  | unknown
  deriving DecidableEq, Repr, Inhabited

def SkipReason.label : SkipReason → String
  | notMangled => "not-mangled"
  | malformed => "malformed"
  | excluded beginning => "skip-prefix:" ++ beginning
  | zeroAddress => "zero-address"
  | unknown => "unknown"

structure Skipped where
  raw : String
  origin : Origin
  address : Address
  reason : SkipReason
  deriving DecidableEq, Repr, Inhabited

def defaultExclusions : List String :=
  ["std::", "grpc::", "grpc_core::", "google::", "__gnu_cxx::", "JsonUtil::", "(", "$SKIP"]

structure Selection where
  exclusions : List String := defaultExclusions
  dataSection : String := ".data.rel.ro"
  /- whether symbols at address zero, which are imports, are left out -/
  dropsZeroAddress : Bool := true
  deriving DecidableEq, Repr, Inhabited

namespace Selection

def exclusion? (s : Selection) (key : String) : Option String :=
  s.exclusions.find? fun beginning => beginning.toList.isPrefixOf key.toList

def select (s : Selection) (raw : String) (address : Address) : Except SkipReason (Root × String) :=
  if address = 0 ∧ s.dropsZeroAddress then .error .zeroAddress
  else
    match Mangled.decode raw with
    | .error .notMangled => .error .notMangled
    | .error (.malformed _) => .error .malformed
    | .ok root =>
      if root.kind = .unknown then .error .unknown
      else
        let key := root.key
        match s.exclusion? key with
        | some beginning => .error (.excluded beginning)
        | none => .ok (root, key)

end Selection

end CxxSymbols.Build
