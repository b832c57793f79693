import CxxSymbols.Command.Listing
/-!
Running a command on a host. A failure is the list of its messages: what went wrong, and what lies
behind it.
-/
namespace CxxSymbols.Command
open Host (FileError Path.extension?)
open Image (Elf ImageError)
open Store (Database)

variable {m : Type → Type} [Monad m] [Host m]

abbrev Running (m : Type → Type) := ExceptT (List String) m

def printAll (lines : List String) : m Unit := lines.forM Host.print

def unreadable (e : FileError) : List String := [Image.ioMessage, e.message]

def readFile (path : String) : Running m ByteArray := do
  match ← Host.read path with
  | .ok bytes => return bytes
  | .error e => throw (unreadable e)

def readImage (path : String) : Running m Elf := do
  match Elf.ofBytes? (← readFile path) with
  | some elf => return elf
  | none => throw ImageError.malformed.messages

def readStore (path : String) : Running m Database := do
  match Database.ofFile (← readFile path) with
  | .ok db => return db
  | .error e => throw e.messages

def isProgramDatabase (path : String) : Bool :=
  (Path.extension? path).any fun e => e.map Char.toLower = "pdb"

def readSymbols (path : String) : Running m (List (String × Address)) := do
  if isProgramDatabase path then
    match Image.ProgramDatabase.publicSymbols? (← readFile path) with
    | some symbols => return symbols.map fun s => (s.name, s.address)
    | none => throw [Image.ProgramDatabase.malformedMessage]
  else
    match (← readImage path).dynamicSymbols with
    | .ok symbols =>
      return (symbols.filter fun s => !s.name.isEmpty).map fun s =>
        (Text.decodeLossy s.name.data.toList, s.address)
    | .error e => throw e.messages

def showLines (verbose : Bool) (style : Style) : List (List UInt8) → Running m Unit
  | [] => return
  | bytes :: rest => do
    match Text.decode? bytes with
    | none => throw ["stream did not contain valid UTF-8"]
    | some line =>
      let (text, complaint) := shownLine style line
      if verbose then complaint.forM Host.complain
      Host.print text
      showLines verbose style rest

def build (verbose : Bool) (request : Build.Request) (audit : Option String) :
    Running m Unit := do
  let result ← (Build.run verbose request : ExceptT Build.BuildError m Build.Report).run
  match result with
  | .error e => throw (e.message :: e.causes)
  | .ok report =>
    printAll report.lines
    match audit with
    | none => return
    | some path =>
      match ← Host.write path report.audit.toUTF8 with
      | .ok () => return
      | .error e => throw [e.message]

def Action.run (verbose : Bool) : Action → Running m Unit
  | decode style (some symbol) =>
    match style.show symbol with
    | .ok text => Host.print text
    | .error e => throw [e.message]
  | decode style none => do
    showLines verbose style (Text.lines (← Host.input).data.toList)
  | sections image => do printAll (sectionLines (← readImage image))
  | dump style file => do
    printAll ((← readSymbols file).map fun (raw, address) => symbolLine style raw address)
  | build request audit => Command.build verbose request audit
  | search store words => do printAll (searchLines (← readStore store) words)
  | vtable store address => do
    match vtableLines? (← readStore store) address with
    | some lines => printAll lines
    | none => throw ["no vtable at " ++ Text.hex address.toNat]
  | typeInfo store address => do
    match typeInfoLines? (← readStore store) address with
    | some lines => printAll lines
    | none => throw ["no type info at " ++ Text.hex address.toNat]

def run (words : List String) : m Bool := do
  match Invocation.ofWords words with
  | .error e =>
    Host.complain e.message
    Host.complain ("Run " ++ Invocation.program ++ " --help for more information.")
    return false
  | .ok (.help lines) =>
    printAll lines
    return true
  | .ok (.run verbose action) =>
    let result ← (action.run verbose : Running m Unit).run
    match result with
    | .ok () => return true
    | .error messages =>
      (failureLines messages).forM Host.complain
      return false

end CxxSymbols.Command
