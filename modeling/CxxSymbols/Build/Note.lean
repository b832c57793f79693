import CxxSymbols.Rtti.Classification
/-!
What a build tells about its run. None of it changes what is built.
-/
namespace CxxSymbols.Build
open Rtti (RttiError RuntimeSymbols)
open Text (hex)

inductive Note where
  | readingImage (path : String)
  | readingProgramDatabase (path : String)
  | loaded (name : String) (start stop : Address)
  | tables (symbols relocations : Nat)
  | runtime (symbols : RuntimeSymbols)
  | classified (typeInfos pending : Nat)
  | emptyVTable (address : Address)
  | unreadableVTable (raw : String) (cause : RttiError)
  | unreadableTypeInfo (raw : String) (cause : RttiError)
  | collected (vtables typeInfos : Nat)
  | sorting (symbols : Nat)
  | indexing (tokens : Nat)
  deriving DecidableEq, Repr, Inhabited

namespace Note

def runtimeText (r : RuntimeSymbols) : String :=
  "RuntimeSymbols \x7b class: " ++ toString r.classTypeInfo ++ ", si_class: " ++
    toString r.singleTypeInfo ++ ", vmi_class: " ++ toString r.multipleTypeInfo ++
    ", pure_virtual: " ++ toString r.pureVirtual ++ " \x7d"

def message : Note → String
  | readingImage path => "reading ELF file " ++ path
  | readingProgramDatabase path => "reading PDB file " ++ path
  | loaded name start stop =>
    "loaded `" ++ name ++ "`: " ++ hex start.toNat ++ ".." ++ hex stop.toNat
  | tables symbols relocations =>
    toString symbols ++ " dynamic symbols, " ++ toString relocations ++ " relocations"
  | runtime symbols => "C++ runtime symbol indices: " ++ runtimeText symbols
  | classified typeInfos pending =>
    "classified " ++ toString typeInfos ++ " type infos, " ++ toString pending ++
      " pending pure virtual slots"
  | emptyVTable address => "implausible vtable at " ++ hex address.toNat ++ ": no entries"
  | unreadableVTable raw cause => "skipping vtable `" ++ raw ++ "`: " ++ cause.message
  | unreadableTypeInfo raw cause => "skipping type info `" ++ raw ++ "`: " ++ cause.message
  | collected vtables typeInfos =>
    "collected " ++ toString vtables ++ " vtables and " ++ toString typeInfos ++ " type infos"
  | sorting symbols => "sorting " ++ toString symbols ++ " symbols"
  | indexing tokens => "writing index with " ++ toString tokens ++ " tokens"

end Note

end CxxSymbols.Build
