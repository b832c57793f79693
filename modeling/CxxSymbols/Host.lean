import CxxSymbols.Host.File
/-!
What a program asks of the system that it runs on. Commands are written over any host, so they can
be run on one that keeps its files in memory as well as on a real one.
-/
namespace CxxSymbols

open Host (FileError)

class Host (m : Type → Type) where
  input : m ByteArray
  print : String → m Unit
  complain : String → m Unit
  read : String → m (Except FileError ByteArray)
  write : String → ByteArray → m (Except FileError Unit)
  createIn : String → m (Except FileError String)
  /- gives a file another path. A file that has it already is replaced at once. -/
  rename : String → String → m (Except FileError Unit)
  remove : String → m Unit

instance {m : Type → Type} {ε : Type} [Monad m] [Host m] : Host (ExceptT ε m) where
  input := ExceptT.lift Host.input
  print line := ExceptT.lift (Host.print line)
  complain line := ExceptT.lift (Host.complain line)
  read path := ExceptT.lift (Host.read path)
  write path bytes := ExceptT.lift (Host.write path bytes)
  createIn directory := ExceptT.lift (Host.createIn directory)
  rename source path := ExceptT.lift (Host.rename source path)
  remove path := ExceptT.lift (Host.remove path)

end CxxSymbols
