import CxxSymbols.Build.Selection
import CxxSymbols.Text.Number
/-!
What a build reports when it is done, and the list of the symbols that it left out.
-/
namespace CxxSymbols.Build

structure Report where
  processed : Nat
  inserted : Nat
  skippedCount : Nat
  skipped : List Skipped
  typeInfos : Nat
  vtables : Nat
  deriving DecidableEq, Repr, Inhabited

def Skipped.line (s : Skipped) : String :=
  "\t".intercalate [s.origin.label, Text.hex s.address.toNat, s.reason.label, s.raw]

namespace Report

def lines (r : Report) : List String := [
  "processed: " ++ toString r.processed,
  "inserted:  " ++ toString r.inserted,
  "skipped:   " ++ toString r.skippedCount,
  "typeinfos: " ++ toString r.typeInfos,
  "vtables:   " ++ toString r.vtables]

def audit (r : Report) : String :=
  String.join (("origin\taddress\treason\traw" :: r.skipped.map Skipped.line).map (· ++ "\n"))

end Report

end CxxSymbols.Build
