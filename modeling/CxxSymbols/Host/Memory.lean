import CxxSymbols.Host
/-!
A host that keeps its files in memory. A directory is there as long as a file is in it, and so is
the one that paths start from.
-/
namespace CxxSymbols.Host

structure Memory where
  files : List (List String × ByteArray) := []
  input : ByteArray := ByteArray.empty
  printed : Array String := #[]
  complaints : Array String := #[]

namespace Memory

def file? (s : Memory) (parts : List String) : Option ByteArray := s.files.lookup parts

def hasDirectory (s : Memory) (parts : List String) : Bool :=
  parts.isEmpty || s.files.any fun (name, _) => parts.isPrefixOf name && parts ≠ name

def whyAbsent (s : Memory) (parts : List String) : FileError :=
  if s.hasDirectory parts then .isDirectory
  else if s.files.any fun (name, _) => name.isPrefixOf parts then .notDirectory
  else .notFound

def read (s : Memory) (path : String) : Except FileError ByteArray :=
  let parts := Path.parts path
  if path.isEmpty || path.startsWith "/" then .error .notFound
  else
    match s.file? parts with
    | some bytes => if path.endsWith "/" then .error .notDirectory else .ok bytes
    | none => .error (s.whyAbsent parts)

def put (s : Memory) (parts : List String) (bytes : ByteArray) : Memory :=
  { s with files := (parts, bytes) :: s.files.filter fun (name, _) => name ≠ parts }

def erase (s : Memory) (parts : List String) : Memory :=
  { s with files := s.files.filter fun (name, _) => name ≠ parts }

def obstacle? (s : Memory) (path : String) : Option FileError :=
  let parts := Path.parts path
  if path.isEmpty || path.startsWith "/" then some .notFound
  else if s.hasDirectory parts || path.endsWith "/" then some .isDirectory
  else if s.hasDirectory parts.dropLast then none
  else some (s.whyAbsent parts)

/- A name that neither a file nor a directory has. There is one among one more names than there
are files. -/
def freshName (s : Memory) (directory : List String) : List String :=
  let name (n : Nat) := directory ++ [".tmp" ++ toString n]
  let isUsed (n : Nat) := s.files.any fun (file, _) => (name n).isPrefixOf file
  name (((List.range (s.files.length + 1)).find? fun n => !isUsed n).getD s.files.length)

end Memory

instance : Host (StateM Memory) where
  input := return (← get).input
  print line := modify fun s => { s with printed := s.printed.push line }
  complain line := modify fun s => { s with complaints := s.complaints.push line }
  read path := return (← get).read path
  write path bytes := do
    let s ← get
    match s.obstacle? path with
    | some e => return .error e
    | none =>
      set (s.put (Path.parts path) bytes)
      return .ok ()
  createIn directory := do
    let s ← get
    let parts := Path.parts directory
    if s.hasDirectory parts then
      let name := s.freshName parts
      set (s.put name ByteArray.empty)
      return .ok ("/".intercalate name)
    else return .error (s.whyAbsent parts)
  rename source path := do
    let s ← get
    match s.obstacle? path, s.file? (Path.parts source) with
    | some e, _ => return .error e
    | none, none => return .error .notFound
    | none, some bytes =>
      set ((s.erase (Path.parts source)).put (Path.parts path) bytes)
      return .ok ()
  remove path := modify fun s => s.erase (Path.parts path)

end CxxSymbols.Host
