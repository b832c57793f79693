import CxxSymbols.Command.Run
/-!
The program on a real system.
-/
namespace CxxSymbols.Main
open Host (FileError)

def fileError : IO.Error → FileError
  | .noFileOrDirectory _ _ _ => .notFound
  | .permissionDenied _ _ _ => .noPermission
  | .inappropriateType _ code reason =>
    if code = 20 then .notDirectory else if code = 21 then .isDirectory else .other reason
  | e => .other e.toString

def catching {α : Type} (act : IO α) : IO (Except FileError α) := do
  try
    return .ok (← act)
  catch e => return .error (fileError e)

/- Takes the first of some names that no file has. Another program may take one meanwhile, so each
is tried. -/
def createFirst (name : Nat → String) (n : Nat) : Nat → IO String
  | 0 => throw (IO.userError "no name is free")
  | tries + 1 => do
    try
      let _ ← IO.FS.Handle.mk (name n) .writeNew
      return name n
    catch
      | .alreadyExists _ _ _ => createFirst name (n + 1) tries
      | e => throw e

def readAll : IO ByteArray := do
  let stdin ← IO.getStdin
  let mut bytes := ByteArray.empty
  let mut piece ← stdin.read 65536
  while !piece.isEmpty do
    bytes := bytes ++ piece
    piece ← stdin.read 65536
  return bytes

instance : Host IO where
  input := readAll
  print line := IO.println line
  complain line := IO.eprintln line
  read path := catching (IO.FS.readBinFile path)
  write path bytes := catching (IO.FS.writeBinFile path bytes)
  createIn directory :=
    catching (createFirst (fun n => directory ++ "/.tmp" ++ toString n) 0 65536)
  rename source path := catching (IO.FS.rename source path)
  remove path := do
    let _ ← catching (IO.FS.removeFile path)

end CxxSymbols.Main

def main (args : List String) : IO UInt32 := do
  return if ← CxxSymbols.Command.run args then 0 else 1
