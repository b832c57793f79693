import CxxSymbols.Host.File
import CxxSymbols.Image.Elf
import CxxSymbols.Image.ProgramDatabase
import CxxSymbols.Store.Error
/-!
Why a build fails. A symbol that cannot be decoded is no reason: it is left out and noted.
-/
namespace CxxSymbols.Build
open Host (FileError)
open Image (ImageError)
open Rtti (RttiError)
open Store (StoreError)

inductive BuildError where
  | noInput
  | bigEndian
  | missingSection (name : String)
  | missingRuntimeSymbol (name : String)
  | rtti (cause : RttiError)
  | image (cause : ImageError)
  | imageFile (cause : FileError)
  | programDatabase
  | programDatabaseFile (cause : FileError)
  | store (cause : StoreError)
  | storeFile (cause : FileError)
  deriving DecidableEq, Repr, Inhabited

namespace BuildError

def message : BuildError → String
  | noInput => "no input files"
  | bigEndian => "big-endian ELF images are not supported"
  | missingSection name => "section `" ++ name ++ "` not found"
  | missingRuntimeSymbol name => (RttiError.missingRuntimeSymbol name).message
  | rtti _ => "bad relocation data"
  | image _ | imageFile _ => "failed to read ELF file"
  | programDatabase | programDatabaseFile _ => "failed to read PDB file"
  | store _ => "failed to write store"
  | storeFile _ => "IO error"

def causes : BuildError → List String
  | noInput | bigEndian | missingSection _ | missingRuntimeSymbol _ => []
  | rtti cause => [cause.message]
  | image cause => cause.messages
  | imageFile cause | programDatabaseFile cause => [Image.ioMessage, cause.message]
  | programDatabase => [Image.ProgramDatabase.malformedMessage]
  | store cause => cause.messages
  | storeFile cause => [cause.message]

/- A missing symbol of the runtime says more about the image than about its relocations. -/
def ofRtti : RttiError → BuildError
  | .missingRuntimeSymbol name => missingRuntimeSymbol name
  | cause => rtti cause

end BuildError

end CxxSymbols.Build
