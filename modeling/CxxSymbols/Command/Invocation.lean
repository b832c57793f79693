import CxxSymbols.Build.Run
import CxxSymbols.Command.Grammar
import CxxSymbols.Text.Number
/-!
The commands, and the lines that call them. A line names one command; what is in front of the name
holds for all of them.
-/
namespace CxxSymbols.Command
open Build (Request Selection defaultExclusions)

inductive Style where
  | key
  | spelling
  deriving DecidableEq, Repr, Inhabited

inductive Action where
  | decode (style : Style) (symbol : Option String)
  | sections (image : String)
  | dump (style : Option Style) (file : String)
  | build (request : Request) (audit : Option String)
  | search (store : String) (words : List String)
  | vtable (store : String) (address : Address)
  | typeInfo (store : String) (address : Address)
  deriving DecidableEq, Repr

inductive Subject where
  | decode (style : Style)
  | sections
  | dump (style : Option Style)
  | build
  | search
  | vtable
  | typeInfo
  deriving DecidableEq, Repr

namespace Subject

def symbolPlace : Place :=
  ⟨"symbol", .optional, "mangled symbol; one symbol per line is read from stdin if omitted"⟩
def filePlace : Place := ⟨"file", .once, "ELF or PDB (`.pdb` extension) file"⟩
def storePlace : Place := ⟨"db", .once, "symbol store"⟩
def addressPlace (of : String) : Place :=
  ⟨"address", .once, of ++ " address (decimal or 0x-prefixed hex)"⟩

def buildSwitches : List Switch := [
  ⟨"--pdb", none, .word, "PDB file to read public symbols from"⟩,
  ⟨"--elf", none, .word, "ELF shared object to read dynamic symbols, vtables and type infos from"⟩,
  ⟨"--skip-prefix", none, .eachWord, "additional canonical key prefix to exclude (repeatable)"⟩,
  ⟨"--no-default-skips", none, .nothing,
    "don't exclude the default namespaces (`std::`, `google::`, ...)"⟩,
  ⟨"--keep-zero-address", none, .nothing, "keep symbols located at address zero"⟩,
  ⟨"--audit", none, .word, "write the list of skipped symbols as TSV to this file"⟩]

def grammar : Subject → Grammar
  | decode _ => ⟨[], [symbolPlace]⟩
  | sections => ⟨[], [⟨"elf", .once, "ELF file"⟩]⟩
  | dump _ => ⟨[], [filePlace]⟩
  | build => ⟨buildSwitches, [⟨"out", .once, "output store path"⟩]⟩
  | search => ⟨[], [storePlace, ⟨"query", .rest, "search terms"⟩]⟩
  | vtable => ⟨[], [storePlace, addressPlace "vtable"]⟩
  | typeInfo => ⟨[], [storePlace, addressPlace "type info"]⟩

def about : Subject → String
  | decode .key => "Print the canonical key of a mangled symbol."
  | decode .spelling => "Print the compiler-style demangling of a mangled symbol."
  | sections => "List the section headers of an ELF file."
  | dump none => "List the raw symbols of an ELF or PDB file."
  | dump (some .key) => "List the canonical keys of all symbols of an ELF or PDB file."
  | dump (some .spelling) =>
    "List the compiler-style demangling of all symbols of an ELF or PDB file."
  | build => "Build a symbol store."
  | search => "Full-text prefix search in a symbol store."
  | vtable => "Print the entries of a vtable."
  | typeInfo => "Print a type info record with its bases and derived types."

def all : List (String × Subject) := [
  ("decode", .decode .key),
  ("decode-original", .decode .spelling),
  ("elf-sections", .sections),
  ("dump", .dump none),
  ("dump-decode", .dump (some .key)),
  ("dump-decode-original", .dump (some .spelling)),
  ("build-database", .build),
  ("search", .search),
  ("vtable", .vtable),
  ("typeinfo", .typeInfo)]

end Subject

/-! ### Reading a line -/

def address? (word : String) : Option Address :=
  let (base, digits) := match word.toList with
    | '0' :: 'x' :: digits | '0' :: 'X' :: digits => (16, digits)
    | digits => (10, digits)
  let digits := match digits with
    | '+' :: rest => rest
    | digits => digits
  ((Text.ofDigits? base digits).filter (· < UInt64.size)).map .ofNat

def addressOf (l : Line) : Except UsageError (Option Address) :=
  match l.words[1]? with
  | none => .ok none
  | some word =>
    match address? word with
    | some address => .ok (some address)
    | none => .error (.badAddress "address" word)

def selectionOf (l : Line) : Selection :=
  { exclusions :=
      (if l.has "--no-default-skips" then [] else defaultExclusions) ++ l.values "--skip-prefix"
    dropsZeroAddress := !l.has "--keep-zero-address" }

def requestOf (l : Line) (path : String) : Request :=
  { selection := selectionOf l, image := l.value? "--elf", programDatabase := l.value? "--pdb"
    path }

def Subject.action? (s : Subject) (l : Line) (address : Option Address) : Option Action :=
  match s, l.words, address with
  | decode style, words, _ => some (.decode style words.head?)
  | sections, image :: _, _ => some (.sections image)
  | dump style, file :: _, _ => some (.dump style file)
  | build, path :: _, _ => some (.build (requestOf l path) (l.value? "--audit"))
  | search, store :: words, _ => some (.search store words)
  | vtable, store :: _, some address => some (.vtable store address)
  | typeInfo, store :: _, some address => some (.typeInfo store address)
  | _, _, _ => none

inductive Invocation where
  | help (lines : List String)
  | run (verbose : Bool) (action : Action)
  deriving DecidableEq, Repr

namespace Invocation

def program : String := "cxx-symbols"

def verboseSwitch : Switch := ⟨"--verbose", some "-v", .nothing, "print debug messages to stderr"⟩

def grammar : Grammar := ⟨[verboseSwitch], [⟨"command", .rest, "the command and its words"⟩]⟩

def overview : List String :=
  ["Usage: " ++ program ++ " [-v] <command> [<args>]", "",
    "Canonical C++ symbol decoding, RTTI recovery and symbol stores.", "", "Options:",
    helpLine verboseSwitch.label verboseSwitch.about,
    helpLine (", ".intercalate helpWords) "display usage information", "", "Commands:"] ++
    Subject.all.map fun (name, s) => helpLine name s.about

def ofSubject (verbose asksHelp : Bool) (name : String) (s : Subject) (words : List String) :
    Except UsageError Invocation := do
  let l ← s.grammar.readFrom { asksHelp } words
  let address ← match s with
    | .vtable | .typeInfo => addressOf l
    | _ => pure none
  if l.asksHelp then return .help (s.grammar.usage [program, name] s.about)
  match s.action? l address with
  | some action => return .run verbose action
  | none => throw (.missing (s.grammar.unfilled l))

def ofWords (words : List String) : Except UsageError Invocation := do
  let l ← grammar.read words
  match l.words with
  | [] =>
    if l.asksHelp then return .help overview
    else throw (.missingCommand ("help" :: Subject.all.map Prod.fst))
  | name :: rest =>
    match Subject.all.lookup name with
    | none => throw (.unknownWord name)
    | some s => ofSubject (l.has verboseSwitch.name) l.asksHelp name s rest

end Invocation

end CxxSymbols.Command
