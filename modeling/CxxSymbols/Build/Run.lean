import CxxSymbols.Build.Draft
import CxxSymbols.Host
/-!
Builds that read their inputs from files and put the store at a path. The store is written to a
file of a new name first and takes its path only when it is complete, so a build that fails leaves
what was at the path, and no other file.
-/
namespace CxxSymbols.Build
open Host (FileError Path.parent)
open Image (Elf)

structure Request where
  selection : Selection := {}
  image : Option String := none
  programDatabase : Option String := none
  path : String
  deriving DecidableEq, Repr, Inhabited

variable {m : Type → Type} [Monad m] [Host m]

def tell (verbose : Bool) (notes : List Note) : m Unit :=
  if verbose then notes.forM fun note => Host.complain note.message else pure ()

def withImage (verbose : Bool) (d : Draft) : Option String → ExceptT BuildError m Draft
  | none => return d
  | some path => do
    tell verbose [.readingImage path]
    match ← Host.read path with
    | .error e => throw (.imageFile e)
    | .ok bytes =>
      match Elf.ofBytes? bytes with
      | none => throw (.image .malformed)
      | some elf =>
        match Draft.addImage elf d with
        | .ok _ next =>
          tell verbose (next.notesSince d)
          return next
        | .error e next =>
          tell verbose (next.notesSince d)
          throw e

def withProgramDatabase (verbose : Bool) (d : Draft) :
    Option String → ExceptT BuildError m Draft
  | none => return d
  | some path => do
    tell verbose [.readingProgramDatabase path]
    match ← Host.read path with
    | .error e => throw (.programDatabaseFile e)
    | .ok bytes =>
      match Image.ProgramDatabase.publicSymbols? bytes with
      | none => throw .programDatabase
      | some symbols => return d.addPublicSymbols symbols

def place (file path : String) (bytes : ByteArray) : m (Except FileError Unit) := do
  match ← Host.write file bytes with
  | .error e => return .error e
  | .ok () => Host.rename file path

def persist (verbose : Bool) (d : Draft) (path : String) : ExceptT BuildError m Unit := do
  match ← Host.createIn (Path.parent path) with
  | .error e => throw (.storeFile e)
  | .ok file =>
    tell verbose [.sorting d.rows.size]
    match d.file with
    | .error e =>
      Host.remove file
      throw (.store e)
    | .ok bytes =>
      tell verbose [.indexing d.index.size]
      match ← place file path bytes with
      | .error e =>
        Host.remove file
        throw (.storeFile e)
      | .ok () => return

def run (verbose : Bool) (r : Request) : ExceptT BuildError m Report := do
  if r.image.isNone && r.programDatabase.isNone then throw .noInput
  let d ← withImage verbose { selection := r.selection } r.image
  let d ← withProgramDatabase verbose d r.programDatabase
  persist verbose d r.path
  return d.report

end CxxSymbols.Build
