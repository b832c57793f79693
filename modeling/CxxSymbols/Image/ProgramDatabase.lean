import CxxSymbols.Address
import CxxSymbols.Image.Bytes
import CxxSymbols.Text.Utf8
/-!
Program databases. Such a file is made of pages. A directory says which pages hold which stream.
One stream tells where the others are that hold the symbols and the headers of the sections of the
image. The address of a symbol is relative to the image.
-/
namespace CxxSymbols.Image

structure PublicSymbol where
  name : String
  address : Address
  deriving DecidableEq, Repr, Inhabited

namespace ProgramDatabase

def malformedMessage : String := "malformed PDB"

def number? (bytes : ByteArray) (start width : Nat) : Option Nat :=
  (slice? bytes start width).map fun part => Text.littleEndian part.data.toList

/-! ### Pages -/

def magic : List UInt8 := "Microsoft C/C++ MSF 7.00\r\n\x1aDS\x00\x00\x00".toUTF8.data.toList

def headerSize : Nat := 4096

structure Pages where
  file : ByteArray
  pageSize : Nat
  last : Nat

namespace Pages

def needed (p : Pages) (size : Nat) : Nat := (size + p.pageSize - 1) / p.pageSize

def gather? (p : Pages) (size : Nat) : List Nat → Option ByteArray
  | [] => some ByteArray.empty
  | page :: rest => do
    guard (0 < page ∧ page ≤ p.last)
    let bytes ← slice? p.file (page * p.pageSize) (min size p.pageSize)
    return bytes ++ (← p.gather? (size - p.pageSize) rest)

def numbers? (bytes : ByteArray) (start count : Nat) : Option (List Nat) :=
  record? .little bytes start (List.replicate count 4)

end Pages

structure Container where
  pages : Pages
  directory : ByteArray

namespace Container

def ofBytes? (file : ByteArray) : Option Container := do
  let header ← slice? file 0 headerSize
  guard (magic.isPrefixOf header.data.toList)
  match ← record? .little header magic.length [4, 4, 4, 4, 4] with
  | [pageSize, _, last, size, _] =>
    guard (1 <<< pageSize.log2 = pageSize ∧ 0x100 ≤ pageSize ∧ pageSize ≤ 0x800000)
    let pages : Pages := ⟨file, pageSize, last⟩
    let count := pages.needed size
    let lists ← Pages.numbers? header (magic.length + 20) (pages.needed (4 * count))
    let list ← pages.gather? (4 * count) lists
    let directory ← pages.gather? size (← Pages.numbers? list 0 count)
    return ⟨pages, directory⟩
  | _ => none

def absent : Nat := 0xffffffff

def stream? (c : Container) (index : Nat) : Option ByteArray := do
  let count ← number? c.directory 0 4
  guard (index < count ∧ 4 * (count + 1) ≤ c.directory.size)
  let before ← Pages.numbers? c.directory 4 index
  let size ← number? c.directory (4 + 4 * index) 4
  guard (size ≠ absent)
  let skipped := Text.total (before.map fun s => if s = absent then 0 else c.pages.needed s)
  let start := 4 * (1 + count + skipped)
  guard (start ≤ c.directory.size)
  c.pages.gather? size (← Pages.numbers? c.directory start (c.pages.needed size))

end Container

/-! ### Streams -/

def debugStream : Nat := 3

def noStream : Nat := 0xffff

structure Debug where
  symbols : Option Nat
  sections : Option Nat
  sectionsBefore : Option Nat
  movesBack : Option Nat
  moves : Option Nat
  deriving DecidableEq, Repr, Inhabited

def debugHeaderSize : Nat := 64

/- Behind a header there are parts whose sizes it tells. The last of them lists streams. It may be
short, and ends with the last stream that there is. -/
def Debug.ofBytes? (bytes : ByteArray) : Option Debug := do
  guard ((← number? bytes 0 4) = 0xffffffff ∧ debugHeaderSize ≤ bytes.size)
  let symbols ← number? bytes 20 2
  match ← Pages.numbers? bytes 24 8 with
  | [modules, contributions, map, files, servers, _, listSize, edits] =>
    let parts := (modules + contributions + map + files + servers + edits) % UInt32.size
    let list ← slice? bytes (debugHeaderSize + parts) listSize
    guard (listSize % 2 = 0)
    let listed (place : Nat) : Option Nat := (number? list (2 * place) 2).filter (· ≠ noStream)
    return {
      symbols := some symbols |>.filter (· ≠ noStream)
      sections := listed 5
      sectionsBefore := listed 10
      movesBack := listed 3
      moves := listed 4 }
  | _ => none

def sectionHeaderSize : Nat := 40

def sectionAddresses? (bytes : ByteArray) : Option (List Nat) := do
  guard (bytes.size % sectionHeaderSize = 0)
  (List.range (bytes.size / sectionHeaderSize)).mapM fun i =>
    number? bytes (i * sectionHeaderSize + 12) 4

/-! ### Addresses -/

/- The start of a run of bytes before the sections were rearranged, and its start now, which is
zero if the run is gone. -/
structure Move where
  before : Nat
  now : Nat
  deriving DecidableEq, Repr, Inhabited

def moves? (bytes : ByteArray) : Option (Array Move) := do
  let records ← records? .little bytes [4, 4]
  return (records.map fun fields => ⟨fields.headD 0, fields.getD 1 0⟩).toArray

def runAt (moves : Array Move) (address start size : Nat) : Nat :=
  if 1 < size then
    let half := size / 2
    let start := if moves[start + half]?.all (address < ·.before) then start else start + half
    runAt moves address start (size - half)
  else start
termination_by size

def moved? (moves : Array Move) (address : Nat) : Option Nat := do
  let run ← moves[runAt moves address 0 moves.size]?
  guard (run.before ≤ address ∧ run.now ≠ 0)
  return (address - run.before + run.now) % UInt32.size

structure AddressMap where
  sections : List Nat
  moves : Option (Array Move)
  deriving DecidableEq, Repr, Inhabited

def AddressMap.ofContainer? (container : Container) (debug : Debug) : Option AddressMap := do
  let sections ← match debug.sections with
    | some index => container.stream? index >>= sectionAddresses?
    | none => some []
  match debug.sectionsBefore with
  | none => return ⟨sections, none⟩
  | some index =>
    let before ← container.stream? index >>= sectionAddresses?
    let moves ← debug.moves >>= container.stream? >>= moves?
    let _ ← debug.movesBack >>= container.stream? >>= moves?
    return ⟨before, some moves⟩

def AddressMap.address? (map : AddressMap) (number offset : Nat) : Option Address := do
  guard (number ≠ 0)
  let start ← map.sections[number - 1]?
  let address := (start + offset) % UInt32.size
  match map.moves with
  | none => return .ofNat address
  | some moves => return .ofNat (← moved? moves address)

/-! ### Symbols -/

def publicKind : Nat := 0x110e

/- An older kind, where the length stands in front of the name. -/
def olderPublicKind : Nat := 0x1009

def name? (kind : Nat) (bytes : ByteArray) (start : Nat) : Option ByteArray :=
  if kind = olderPublicKind then do slice? bytes (start + 1) (← number? bytes start 1)
  else terminated? bytes start bytes.size

def symbol? (map : AddressMap) (bytes : ByteArray) : Option PublicSymbol := do
  let kind ← number? bytes 0 2
  guard (kind = publicKind ∨ kind = olderPublicKind)
  let offset ← number? bytes 6 4
  let number ← number? bytes 10 2
  let name ← name? kind bytes 12
  let address ← map.address? number offset
  return ⟨Text.decodeLossy name.data.toList, address⟩

def recordsFrom? (bytes : ByteArray) (start : Nat) : Nat → Option (List ByteArray)
  | 0 => none
  | rounds + 1 => do
    if start = bytes.size then return []
    let length ← number? bytes start 2
    guard (2 ≤ length)
    let record ← slice? bytes (start + 2) length
    return record :: (← recordsFrom? bytes (start + 2 + length) rounds)

def publicSymbols? (file : ByteArray) : Option (List PublicSymbol) := do
  let container ← Container.ofBytes? file
  let debug ← Debug.ofBytes? (← container.stream? debugStream)
  let map ← AddressMap.ofContainer? container debug
  let bytes ← debug.symbols >>= container.stream?
  return (← recordsFrom? bytes 0 (bytes.size + 1)).filterMap (symbol? map)

end ProgramDatabase

end CxxSymbols.Image
